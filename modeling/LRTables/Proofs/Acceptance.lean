import LRTables.Proofs.Parses

/-!
# Acceptance

A parser over a table that holds every action its automaton calls for accepts
all that the grammar derives: it makes the steps of a rightmost derivation,
last one first.
-/

namespace LRTables

/-- The table holds every action that the automaton calls for. -/
structure Table.Decides (grammar : Grammar) (anyLookahead : Bool)
    (automaton : Automaton) (table : Table) : Prop where
  represents : table.Represents grammar anyLookahead automaton
  complete : ∀ word number, automaton.Leads word number →
    RowFilling.Complete grammar anyLookahead (automaton.state number)
      (table.filling number)
  offers : ∀ word number item terminal, automaton.Leads word number →
    grammar.Admits word item terminal →
      terminal < grammar.terminals.size →
        (automaton.state number).Offers grammar anyLookahead item terminal

/-- The table accepts exactly the sentences of the grammar, and the reductions
it makes, read backward, are the only rightmost derivation of a sentence. -/
def Table.Recognizes (grammar : Grammar) (table : Table) : Prop :=
  ∀ tokens : List Nat, (∀ token ∈ tokens, token ≠ Terminal.endOfInput) →
    ((∃ limit rules,
        table.parseWithin limit (tokens.map .ok) = some (.ok rules)) ↔
      grammar.Derives [.nonterminal grammar.start] (tokens.map .terminal)) ∧
    ∀ limit rules,
      table.parseWithin limit (tokens.map .ok) = some (.ok rules) →
        grammar.Rightmost rules.reverse [.nonterminal grammar.start]
          (tokens.map .terminal) ∧
        ∀ other, grammar.Rightmost other [.nonterminal grammar.start]
          (tokens.map .terminal) → other = rules.reverse

namespace Table.Decides

open Table.Represents

variable {grammar : Grammar} {anyLookahead : Bool} {automaton : Automaton}
  {table : Table} {word : List Symbol}
  (wellFormed : grammar.WellFormed) (unused : grammar.GoalUnused)

/-- The parse gets from one point to another. -/
def Reaches (table : Table) (start finish : Parse) : Prop :=
  ∃ steps, ∀ limit,
    Parse.run table (limit + steps) start = Parse.run table limit finish

theorem Reaches.refl (parse : Parse) : Reaches table parse parse :=
  ⟨0, fun _ => rfl⟩

theorem Reaches.trans {start middle finish : Parse}
    (earlier : Reaches table start middle)
    (later : Reaches table middle finish) : Reaches table start finish := by
  obtain ⟨first, reach⟩ := earlier
  obtain ⟨second, further⟩ := later
  refine ⟨second + first, ?_⟩
  intro limit
  rw [← Nat.add_assoc, reach, further]

theorem Reaches.of_step {start finish : Parse}
    (step : ∀ limit, Parse.run table (limit + 1) start =
      Parse.run table limit finish) : Reaches table start finish :=
  ⟨1, step⟩

/-- A parse whose stack is spelled by the word, before the tokens that are
left. -/
structure At (automaton : Automaton) (word : List Symbol) (left rules : List Nat)
    (parse : Parse) : Prop where
  running : parse.parser.accepted = false
  stacked : automaton.Stacked parse.parser.stack word
  tokens : parse.tokens = left.map .ok
  reductions : parse.reductions = rules

/-- A parse gets to a point that is described by a word. -/
def Arrives (table : Table) (automaton : Automaton) (start : Parse)
    (word : List Symbol) (left rules : List Nat) : Prop :=
  ∃ finish, Reaches table start finish ∧
    At automaton word left rules finish

theorem edge_of_leads {terminal target : Nat}
    (leads : automaton.Leads (word ++ [.terminal terminal]) target)
    {top : Nat} (before : automaton.Leads word top) :
    (automaton.state top).successor? (.terminal terminal) = some target := by
  obtain ⟨source, path, edge⟩ := Automaton.leads_append.mp leads
  rwa [path.unique before] at edge

include wellFormed in
/-- A token that the word goes on with is shifted. -/
theorem shift
    (decides : table.Decides grammar anyLookahead automaton)
    (endUnused : grammar.EndUnused) {start : Parse} {token : Nat}
    {left rules : List Nat}
    (arrives : Arrives table automaton start word (token :: left) rules)
    {target : Nat}
    (leads : automaton.Leads (word ++ [.terminal token]) target) :
    Arrives table automaton start (word ++ [.terminal token]) left rules := by
  obtain ⟨parse, reaches, running, stacked, tokens, reductions⟩ := arrives
  obtain ⟨⟨stack, accepted⟩, parseTokens, consumed, done⟩ := parse
  dsimp only at running stacked tokens reductions
  subst running
  obtain ⟨top, rest, rfl, before⟩ := stacked.exists_top
  have edge := edge_of_leads leads before
  have represents := decides.represents
  have further := Automaton.Stacked.push stacked edge
  have notEnd := shifted_ne_endOfInput represents endUnused further
  have scans := represents.framed.scanned top _ target edge
  obtain ⟨item, -, scanned⟩ := State.mem_scannedSymbols.mp scans
  have isTerminal : token < grammar.terminals.size :=
    wellFormed.right_declared item.rule (.terminal token)
      (Item.scanned_mem_right scanned)
  have cell : table.cell top token = .shift target := by
    rcases (decides.complete word top before).shift token target isTerminal
      edge with shifts | ⟨isEnd, -⟩
    · exact shifts
    · exact absurd isEnd notEnd
  have step := @step_of_shift grammar anyLookahead automaton table represents
    top target rest (some token) isTerminal cell
  refine ⟨{
      parser := { stack := target :: top :: rest, accepted := false }
      tokens := parseTokens.tail
      consumed := consumed + 1
      reductions := done }, reaches.trans (.of_step ?_), ?_⟩
  · intro limit
    rw [run_succ limit tokens]
    simp only [lookaheadOf, step]
  · constructor
    · rfl
    · exact further
    · rw [tokens]
      rfl
    · exact reductions

include wellFormed in
/-- Several tokens are shifted one after the other. -/
theorem shiftAll
    (decides : table.Decides grammar anyLookahead automaton)
    (endUnused : grammar.EndUnused) {start : Parse}
    {tokens left rules : List Nat}
    (arrives : Arrives table automaton start word (tokens ++ left) rules)
    {target : Nat}
    (leads : automaton.Leads (word ++ tokens.map .terminal) target) :
    Arrives table automaton start (word ++ tokens.map .terminal) left
      rules := by
  induction tokens generalizing word with
  | nil => simpa using arrives
  | cons token rest ih =>
      have split : word ++ (token :: rest).map Symbol.terminal =
          word ++ [.terminal token] ++ rest.map .terminal := by simp
      rw [split] at leads ⊢
      obtain ⟨middle, before⟩ := leads.exists_prefix
      exact ih (decides.shift wellFormed endUnused arrives before) leads

include wellFormed unused in
/-- A finished rule is reduced on a lookahead that it admits. -/
theorem reduce
    (decides : table.Decides grammar anyLookahead automaton) {start : Parse}
    {left rules : List Nat} {rule : Nat} (notGoal : rule ≠ goalRule)
    (terminals : ∀ token ∈ left, token < grammar.terminals.size)
    (arrives : Arrives table automaton start (word ++ grammar.right rule) left
      rules)
    (admits : grammar.Admits (word ++ grammar.right rule)
      { rule, dot := (grammar.right rule).length }
      (Grammar.lookahead left)) :
    Arrives table automaton start
      (word ++ [.nonterminal (grammar.left rule)]) left (rule :: rules) := by
  obtain ⟨parse, reaches, running, stacked, tokens, reductions⟩ := arrives
  obtain ⟨⟨stack, accepted⟩, parseTokens, consumed, done⟩ := parse
  dsimp only at running stacked tokens reductions
  subst running
  have represents := decides.represents
  obtain ⟨top, rest, split, before⟩ := stacked.exists_top
  have final : ({ rule, dot := (grammar.right rule).length } : Item).isFinal
      grammar = true := by
    simp [Item.isFinal, Item.rest]
  have lookahead : (lookaheadOf left).getD Terminal.endOfInput =
      Grammar.lookahead left := by
    cases left <;> rfl
  have isTerminal : (lookaheadOf left).getD Terminal.endOfInput <
      grammar.terminals.size := by
    cases left with
    | nil => exact wellFormed.hasEnd
    | cons token _ => exact terminals token List.mem_cons_self
  have offers := decides.offers _ top _ _ before admits
    (lookahead ▸ isTerminal)
  have cell : table.cell top
      ((lookaheadOf left).getD Terminal.endOfInput) = .reduce rule := by
    rw [lookahead]
    exact (decides.complete _ top before).reduce rule _
      ⟨_, offers, final, rfl, notGoal⟩
  have handle : Handle grammar automaton (word ++ grammar.right rule) rule :=
    handle_of_final wellFormed unused admits.valid final notGoal
  obtain ⟨next, front, isWord, step, further⟩ :=
    step_of_reduce wellFormed unused represents stacked split handle
      isTerminal cell
  obtain rfl : word = front := List.append_cancel_right isWord
  refine ⟨{
      parser :=
        { stack := next :: stack.drop (grammar.right rule).length
          accepted := false }
      tokens := parseTokens
      consumed
      reductions := rule :: done }, reaches.trans (.of_step ?_), ?_⟩
  · intro limit
    rw [run_succ limit tokens]
    simp only [step]
  · constructor
    · rfl
    · exact further
    · exact tokens
    · rw [← reductions]

theorem arrives_begin (tokens : List Nat) :
    Arrives table automaton (Parse.begin (tokens.map .ok)) [] tokens [] := by
  refine ⟨_, .refl _, ?_⟩
  constructor
  · rfl
  · exact .bottom
  · rfl
  · rfl

theorem append_eq_tokens {front : List Symbol} {left tokens : List Nat}
    (split : front ++ left.map .terminal = tokens.map Symbol.terminal) :
    ∃ taken, front = taken.map .terminal ∧ tokens = taken ++ left := by
  obtain ⟨taken, other, rfl, isFront, isLeft⟩ :=
    List.map_eq_append_iff.mp split.symm
  have injective : Function.Injective Symbol.terminal := by
    intro one two same
    cases same
    rfl
  obtain rfl : other = left := List.map_injective_iff.mpr injective isLeft
  exact ⟨taken, isFront.symm, rfl⟩

/-- Where a form with a last nonterminal is cut in front of tokens. -/
theorem append_eq_last {front before : List Symbol} {nonterminal : Nat}
    {left tokens : List Nat}
    (split : front ++ left.map .terminal =
      before ++ .nonterminal nonterminal :: tokens.map Symbol.terminal) :
    ∃ taken, front = before ++ [.nonterminal nonterminal] ++
        taken.map .terminal ∧ tokens = taken ++ left := by
  rcases List.append_eq_append_iff.mp split with
    ⟨inner, -, rest⟩ | ⟨inner, rfl, rest⟩
  · refine absurd ?_ (Grammar.not_mem_tokens nonterminal left)
    rw [rest]
    exact List.mem_append_right _ List.mem_cons_self
  · cases inner with
    | nil =>
        refine absurd ?_ (Grammar.not_mem_tokens nonterminal left)
        rw [List.nil_append] at rest
        exact rest ▸ List.mem_cons_self
    | cons symbol inner =>
        rw [List.cons_append, List.cons.injEq] at rest
        obtain ⟨rfl, rest⟩ := rest
        obtain ⟨taken, rfl, rfl⟩ := append_eq_tokens rest.symm
        exact ⟨taken, by simp, rfl⟩

/-- The form consists of symbols of the grammar that its rules mention. -/
def Mentions (grammar : Grammar) (form : List Symbol) : Prop :=
  ∀ symbol ∈ form, grammar.Declares symbol ∧ symbol ≠ .nonterminal goalSymbol

include wellFormed unused in
theorem mentions_right (rule : Nat) :
    Mentions grammar (grammar.right rule) := by
  intro symbol member
  constructor
  · exact wellFormed.right_declared rule symbol member
  · intro same
    exact unused.not_mem_right rule (same ▸ member)

include wellFormed unused in
theorem mentions_start :
    Mentions grammar [.nonterminal grammar.start] := by
  have mentions := mentions_right wellFormed unused goalRule
  rwa [wellFormed.right_goalRule] at mentions

include wellFormed unused in
theorem Mentions.replace {before : List Symbol} {tokens : List Nat}
    {rule : Nat}
    (mentions : Mentions grammar
      (before ++ .nonterminal (grammar.left rule) :: tokens.map .terminal)) :
    Mentions grammar
      (before ++ grammar.right rule ++ tokens.map .terminal) := by
  intro symbol member
  rw [List.append_assoc, List.mem_append, List.mem_append] at member
  rcases member with inBefore | inRight | inTokens
  · exact mentions symbol (List.mem_append_left _ inBefore)
  · exact mentions_right wellFormed unused rule symbol inRight
  · exact mentions symbol
      (List.mem_append_right _ (List.mem_cons_of_mem _ inTokens))

include wellFormed unused in
/-- The parser undoes a rightmost derivation: whatever form occurs in it, the
parser gets to the point where its stack spells the form up to tokens. -/
theorem arrives_of_rightmost
    (decides : table.Decides grammar anyLookahead automaton)
    (endUnused : grammar.EndUnused) {tokens : List Nat}
    {rules : List Nat} {form target : List Symbol}
    (rightmost : grammar.Rightmost rules form target)
    (isTarget : target = tokens.map .terminal)
    (announces : grammar.Announces form) (mentions : Mentions grammar form)
    {front : List Symbol} {left : List Nat}
    (split : front ++ left.map .terminal = form)
    {number : Nat} (leads : automaton.Leads front number) :
    Arrives table automaton (Parse.begin (tokens.map .ok)) front left
      rules := by
  induction rightmost generalizing front left number with
  | done form =>
      subst isTarget
      obtain ⟨taken, rfl, rfl⟩ := append_eq_tokens split
      have start := @arrives_begin automaton table (taken ++ left)
      have shifted := decides.shiftAll wellFormed endUnused start leads
      rwa [List.nil_append] at shifted
  | @replace before after rule rules form inside rightmost ih =>
      obtain ⟨taken, rfl, rfl⟩ := append_eq_last split
      have admits : grammar.Admits before { rule, dot := 0 }
          (Grammar.lookahead (taken ++ left)) :=
        announces before _ _ rfl _ (Grammar.begins_tokens.mpr rfl) rule
          (Grammar.mem_rulesOf.mpr ⟨inside, rfl⟩)
      have finished := admits.advanceOver (grammar.right rule)
        (List.append_nil _).symm
      have represents := decides.represents
      obtain ⟨reduced, path⟩ := represents.framed.exists_leads wellFormed
        unused represents.total finished.valid
      have earlier := ih isTarget (announces.step inside)
        (mentions.replace wellFormed unused) rfl path
      have notGoal : rule ≠ goalRule := by
        rintro rfl
        refine (mentions _ (List.mem_append_right _ List.mem_cons_self)).2 ?_
        rw [wellFormed.left_goalRule]
      have isTerminal : ∀ token ∈ taken ++ left,
          token < grammar.terminals.size := by
        intro token member
        refine (mentions (.terminal token) ?_).1
        apply List.mem_append_right
        apply List.mem_cons_of_mem
        exact List.mem_map_of_mem member
      have reduction := decides.reduce wellFormed unused notGoal isTerminal
        earlier finished
      exact decides.shiftAll wellFormed endUnused reduction leads

include wellFormed unused in
theorem arrives_start
    (decides : table.Decides grammar anyLookahead automaton)
    (endUnused : grammar.EndUnused) {tokens rules : List Nat}
    (rightmost : grammar.Rightmost rules [.nonterminal grammar.start]
      (tokens.map .terminal)) :
    Arrives table automaton (Parse.begin (tokens.map .ok))
      [.nonterminal grammar.start] [] rules := by
  have valid := (Grammar.admits_start wellFormed).valid
  have represents := decides.represents
  obtain ⟨number, leads⟩ := represents.framed.exists_leads wellFormed unused
    represents.total valid
  exact decides.arrives_of_rightmost wellFormed unused endUnused rightmost rfl
    (Grammar.announces_start wellFormed) (mentions_start wellFormed unused)
    rfl leads

include wellFormed unused in
/-- The reductions of a rightmost derivation, last one first, are accepted. -/
theorem run_of_rightmost
    (decides : table.Decides grammar anyLookahead automaton)
    (endUnused : grammar.EndUnused) {tokens rules : List Nat}
    (rightmost : grammar.Rightmost rules [.nonterminal grammar.start]
      (tokens.map .terminal)) :
    ∃ limit, table.parseWithin limit (tokens.map .ok) =
      some (.ok rules.reverse) := by
  obtain ⟨parse, ⟨steps, reaches⟩, running, stacked, isEnd, reductions⟩ :=
    decides.arrives_start wellFormed unused endUnused rightmost
  obtain ⟨⟨stack, accepted⟩, parseTokens, consumed, done⟩ := parse
  dsimp only at running stacked isEnd reductions
  subst running reductions
  obtain ⟨top, rest, rfl, leads⟩ := stacked.exists_top
  have offers := decides.offers _ top _ _ leads
    (Grammar.admits_start wellFormed) wellFormed.hasEnd
  have final : Item.goal.advance.isFinal grammar = true := by
    simp [Item.isFinal, Item.rest, Item.advance, Item.goal,
      wellFormed.right_goalRule]
  have cell : table.cell top Terminal.endOfInput = .accept :=
    (decides.complete _ top leads).accept ⟨_, offers, final, rfl⟩
  have step := @step_of_accept grammar anyLookahead automaton table
    decides.represents top rest none wellFormed.hasEnd cell
  refine ⟨1 + steps, ?_⟩
  rw [Table.parseWithin, reaches, run_succ 0 isEnd]
  simp only [lookaheadOf, step]

/-- More steps do not change a result. -/
theorem run_add {limit : Nat} (more : Nat) {parse : Parse}
    {result : Except ParseError (List Nat)}
    (finished : Parse.run table limit parse = some result) :
    Parse.run table (limit + more) parse = some result := by
  induction limit generalizing parse with
  | zero => cases finished
  | succ limit ih =>
      rw [Nat.add_right_comm]
      rw [Parse.run] at finished ⊢
      split at finished
      · exact finished
      · dsimp only at finished ⊢
        split at finished
        · exact finished
        · exact finished
        · exact ih finished
        · exact ih finished

theorem parseWithin_unique {tokens : List (Except String Nat)}
    {one two : Nat} {first second : Except ParseError (List Nat)}
    (finished : table.parseWithin one tokens = some first)
    (again : table.parseWithin two tokens = some second) :
    first = second := by
  have longer := run_add two finished
  rw [Nat.add_comm, run_add one again] at longer
  cases longer
  rfl

include wellFormed unused in
/-- A parser over the table accepts what the grammar derives, and finds the
only rightmost derivation of it. -/
theorem recognizes
    (decides : table.Decides grammar anyLookahead automaton)
    (endUnused : grammar.EndUnused) : table.Recognizes grammar := by
  intro tokens noEnd
  have sound {limit : Nat} {rules : List Nat}
      (result : table.parseWithin limit (tokens.map .ok) =
        some (.ok rules)) :
      grammar.Rightmost rules.reverse [.nonterminal grammar.start]
        (tokens.map .terminal) :=
    rightmost_of_run wellFormed unused decides.represents endUnused noEnd
      (underway_begin tokens) result
  constructor
  · constructor
    · rintro ⟨limit, rules, result⟩
      exact (sound result).derives
    · intro derives
      obtain ⟨rules, rightmost⟩ := Grammar.Rightmost.exists_of_derives derives
      obtain ⟨limit, result⟩ :=
        decides.run_of_rightmost wellFormed unused endUnused rightmost
      exact ⟨limit, _, result⟩
  · intro limit rules result
    refine ⟨sound result, ?_⟩
    intro other rightmost
    obtain ⟨enough, again⟩ :=
      decides.run_of_rightmost wellFormed unused endUnused rightmost
    have same := parseWithin_unique result again
    cases same
    exact (List.reverse_reverse other).symm

end Table.Decides

end LRTables
