import LRTables.Proofs.FaithfulAutomata
import LRTables.Proofs.Points

/-!
# Readings

In a state with an item, a parser reads whatever the symbols after the dot
derive: all of it if the lookahead is one that may follow, and a first part of
it in any case.
-/

namespace LRTables

namespace Item

theorem rest_start (grammar : Grammar) (rule : Nat) :
    ({ rule, dot := 0 } : Item).rest grammar = grammar.right rule ++ [] := by
  rw [List.append_nil]
  rfl

end Item

/-- What is to be done once a rule has been read. -/
def Action.atEnd (rule : Nat) : Action :=
  if rule = goalRule then .accept else .reduce rule

theorem Action.atEnd_injective {one other : Nat}
    (same : Action.atEnd one = Action.atEnd other) : one = other := by
  rw [Action.atEnd, Action.atEnd] at same
  split at same
  · split at same
    · simp_all
    · cases same
  · split at same
    · cases same
    · exact Action.reduce.inj same

namespace State

/-- The lookahead may follow once the symbols between the dot and the tail
have been read. -/
def Expects (grammar : Grammar) (state : State) (item : Item)
    (tail : List Symbol) (terminal : Nat) : Prop :=
  grammar.Begins tail terminal ∨
    grammar.Vanishes tail ∧ state.HasContext item terminal

theorem Expects.hasContext {grammar : Grammar} {first : FirstSets}
    {state : State} (wellFormed : grammar.WellFormed)
    (exact : first.Exact grammar) (closed : state.Closed grammar first true)
    {item : Item} {nonterminal rule terminal : Nat} {tail : List Symbol}
    (present : item ∈ state.items)
    (rest : item.rest grammar = .nonterminal nonterminal :: tail)
    (member : rule ∈ grammar.rulesOf nonterminal)
    (expects : state.Expects grammar item tail terminal) :
    state.HasContext { rule, dot := 0 } terminal := by
  obtain ⟨scanned, isTail⟩ := Item.scanned_of_rest rest
  subst isTail
  have carries : grammar.Carries (· ∈ state.items) state.HasContext
      { rule, dot := 0 } terminal := by
    rcases expects with begins | ⟨vanishes, has⟩
    · exact .generated (.kernel present) scanned member begins
    · exact .inherited (.kernel present has) scanned member vanishes
  exact closed.hasContext_of_carries wellFormed exact (fun _ member => member)
    (fun _ _ _ has => has) carries

theorem Expects.append {grammar : Grammar} {state : State} {item : Item}
    {symbols tail : List Symbol} {tokens rest : List Nat}
    (expects : state.Expects grammar item tail (Grammar.lookahead rest))
    (derives : grammar.Derives symbols (tokens.map .terminal)) :
    state.Expects grammar item (symbols ++ tail)
      (Grammar.lookahead (tokens ++ rest)) := by
  cases tokens with
  | nil =>
      rcases expects with begins | ⟨vanishes, has⟩
      · exact Or.inl (Grammar.begins_append.mpr (Or.inr ⟨derives, begins⟩))
      · exact Or.inr ⟨Grammar.vanishes_append.mpr ⟨derives, vanishes⟩, has⟩
  | cons token tokens =>
      exact Or.inl (Grammar.begins_append.mpr (Or.inl ⟨_, derives⟩))

end State

namespace Automaton

variable {grammar : Grammar} {first : FirstSets} {automaton : Automaton}
  {base : List Symbol} {top terminal : Nat} {item : Item}

/-- A lookahead of an item is found where its rule has been read. -/
theorem Faithful.finish (faithful : automaton.Faithful grammar first)
    (leads : automaton.Leads base top)
    (has : (automaton.state top).HasContext item terminal) :
    ∃ last final, automaton.Leads (base ++ item.rest grammar) last ∧
      (automaton.state last).HasContext final terminal ∧
      final.isFinal grammar = true ∧ final.rule = item.rule := by
  generalize isRest : item.rest grammar = symbols
  induction symbols generalizing base top item with
  | nil =>
      refine ⟨top, item, ?_, has, ?_, rfl⟩
      · rwa [List.append_nil]
      · simp [Item.isFinal, isRest]
  | cons symbol symbols ih =>
      obtain ⟨scanned, isTail⟩ := Item.scanned_of_rest isRest
      obtain ⟨target, edge, -, passes⟩ :=
        faithful.advance leads has.mem_items scanned
      obtain ⟨last, final, lastLeads, inLast, isFinal, rule⟩ :=
        ih (.step leads edge) (passes terminal has)
          (Item.rest_advance.trans isTail)
      refine ⟨last, final, ?_, inLast, isFinal, rule⟩
      rwa [List.append_assoc] at lastLeads

end Automaton

namespace Table

open Automaton

variable {grammar : Grammar} {first : FirstSets} {automaton : Automaton}
  {table : Table}

section Reading

variable (wellFormed : grammar.WellFormed) (unused : grammar.GoalUnused)
  (endUnused : grammar.EndUnused) (exact : first.Exact grammar)
  (faithful : automaton.Faithful grammar first)
  (decides : table.Decides grammar false automaton)

section Steps

variable {base : List Symbol} {top : Nat} {item : Item}

include wellFormed unused faithful decides in
/-- Once an item has been read to its end, its rule is reduced on each of its
lookaheads, or the input is accepted. -/
theorem cell_of_hasContext {terminal : Nat}
    (leads : automaton.Leads base top)
    (has : (automaton.state top).HasContext item terminal) :
    ∃ last, automaton.Leads (base ++ item.rest grammar) last ∧
      table.cell last terminal = Action.atEnd item.rule := by
  obtain ⟨last, final, lastLeads, inLast, isFinal, rule⟩ :=
    faithful.finish leads has
  refine ⟨last, lastLeads, ?_⟩
  have complete := decides.complete _ last lastLeads
  rw [Action.atEnd]
  split
  · rename_i isGoal
    have inside := faithful.framed.lt_size lastLeads
    obtain ⟨word, -, admits⟩ :=
      (faithful.evident last inside).attested.context final terminal inLast
    have atEnd :=
      admits.eq_endOfInput wellFormed unused (rule.trans isGoal)
    rw [atEnd] at inLast ⊢
    exact complete.accept ⟨final, inLast, isFinal, rule.trans isGoal⟩
  · rename_i notGoal
    exact complete.reduce item.rule terminal
      ⟨final, inLast, isFinal, rule, notGoal⟩

include wellFormed faithful in
theorem lt_of_hasContext {terminal : Nat} (leads : automaton.Leads base top)
    (has : (automaton.state top).HasContext item terminal) :
    terminal < grammar.terminals.size :=
  faithful.evident.terminated wellFormed top (faithful.framed.lt_size leads)
    item terminal has

include wellFormed endUnused faithful decides in
/-- A scanned terminal is shifted. -/
theorem proceeds_shift {token : Nat} (left : List Nat)
    (leads : automaton.Leads base top)
    (present : item ∈ (automaton.state top).items)
    (scanned : item.scanned grammar = some (.terminal token)) :
    table.Proceeds grammar automaton base { above := [], left := token :: left }
      { above := [.terminal token], left } := by
  obtain ⟨target, edge, -, -⟩ := faithful.advance leads present scanned
  have mentioned := Item.scanned_mem_right scanned
  have isTerminal : token < grammar.terminals.size :=
    wellFormed.right_declared item.rule (.terminal token) mentioned
  have cell : table.cell top token = .shift target := by
    rcases (decides.complete base top leads).shift token target isTerminal
      edge with shifts | ⟨isEnd, -⟩
    · exact shifts
    · rw [isEnd] at mentioned
      exact absurd mentioned (endUnused.not_mem_right item.rule)
  have leadsTop : automaton.Leads (base ++ []) top := by
    rwa [List.append_nil]
  exact .shift leadsTop rfl cell

end Steps

include wellFormed unused faithful decides in
/-- Once a right-hand side has been read, it is reduced. -/
theorem reads_rule {base : List Symbol} {top : Nat} {item : Item}
    {nonterminal rule : Nat} {tail : List Symbol} {left rest : List Nat}
    (leads : automaton.Leads base top)
    (isRest : item.rest grammar = .nonterminal nonterminal :: tail)
    (member : rule ∈ grammar.rulesOf nonterminal)
    (has : (automaton.state top).HasContext { rule, dot := 0 }
      (Grammar.lookahead rest))
    (reads : table.Reads grammar automaton base { above := [], left }
      { above := grammar.right rule, left := rest }) :
    table.Reads grammar automaton base { above := [], left }
      { above := [.nonterminal nonterminal], left := rest } := by
  have notGoal := Grammar.rule_ne_goalRule wellFormed unused
    (Item.scanned_of_rest isRest).1 member
  have isTerminal := lt_of_hasContext wellFormed faithful leads has
  obtain ⟨last, lastLeads, cell⟩ :=
    cell_of_hasContext wellFormed unused faithful decides leads has
  rw [Action.atEnd, if_neg notGoal] at cell
  rw [← (Grammar.mem_rulesOf.mp member).2]
  have step : table.Proceeds grammar automaton base
      { above := grammar.right rule, left := rest }
      { above := [] ++ [.nonterminal (grammar.left rule)], left := rest } :=
    .reduce lastLeads rfl isTerminal cell
  exact reads.tail step

include wellFormed unused endUnused exact faithful decides in
/-- All that the symbols derive is read if the lookahead may follow. -/
theorem reads_of_expands {symbols form : List Symbol}
    (expands : grammar.Expands symbols form) {base tail : List Symbol}
    {top : Nat} {item : Item} {tokens rest : List Nat}
    (plain : form = tokens.map .terminal)
    (leads : automaton.Leads base top)
    (present : item ∈ (automaton.state top).items)
    (isRest : item.rest grammar = symbols ++ tail)
    (expects : (automaton.state top).Expects grammar item tail
      (Grammar.lookahead rest)) :
    table.Reads grammar automaton base { above := [], left := tokens ++ rest }
      { above := symbols, left := rest } := by
  induction expands generalizing base tail top item tokens rest with
  | nil =>
      rw [List.map_eq_nil_iff.mp plain.symm]
      exact .refl
  | @keep symbol symbols form _ ih =>
      obtain ⟨token, others, rfl, rfl, same⟩ :=
        List.map_eq_cons_iff.mp plain.symm
      obtain ⟨scanned, isTail⟩ := Item.scanned_of_rest isRest
      obtain ⟨target, edge, further, passes⟩ :=
        faithful.advance leads present scanned
      have shift := proceeds_shift wellFormed endUnused faithful decides
        (others ++ rest) leads present scanned
      refine Reads.extend (.single shift) ?_
      refine ih same.symm (.step leads edge) further
        (Item.rest_advance.trans isTail) ?_
      exact expects.imp_right fun both => ⟨both.1, passes _ both.2⟩
  | @replace rule symbols front back inside _ expands ihFront ihBack =>
      obtain ⟨taken, others, rfl, isFront, isBack⟩ :=
        List.map_eq_append_iff.mp plain.symm
      obtain ⟨scanned, isTail⟩ := Item.scanned_of_rest isRest
      obtain ⟨target, edge, further, passes⟩ :=
        faithful.advance leads present scanned
      have member : rule ∈ grammar.rulesOf (grammar.left rule) :=
        Grammar.mem_rulesOf.mpr ⟨inside, rfl⟩
      have closed := faithful.saturated.closed base top leads
      have derives : grammar.Derives symbols (others.map .terminal) := by
        rw [isBack]
        exact expands.derives
      have has := (expects.append derives).hasContext wellFormed exact closed
        present isRest member
      rw [List.append_assoc]
      have inner := ihFront isFront.symm leads has.mem_items
        (Item.rest_start grammar rule) (Or.inr ⟨.nil, has⟩)
      refine Reads.extend (reads_rule wellFormed unused faithful decides leads
        isRest member has inner) ?_
      refine ihBack isBack.symm (.step leads edge) further
        (Item.rest_advance.trans isTail) ?_
      exact expects.imp_right fun both => ⟨both.1, passes _ both.2⟩

include wellFormed unused endUnused exact faithful decides in
/-- Tokens at the front of what the symbols derive are read, whatever follows
them. -/
theorem reads_first {symbols form : List Symbol}
    (expands : grammar.Expands symbols form) {base tail more : List Symbol}
    {top : Nat} {item : Item} {tokens : List Nat} (rest : List Nat)
    (isForm : form = tokens.map .terminal ++ more)
    (leads : automaton.Leads base top)
    (present : item ∈ (automaton.state top).items)
    (isRest : item.rest grammar = symbols ++ tail) :
    ∃ above, table.Reads grammar automaton base
      { above := [], left := tokens ++ rest } { above, left := rest } := by
  induction expands generalizing base tail top item tokens more with
  | nil =>
      rw [List.map_eq_nil_iff.mp (List.append_eq_nil_iff.mp isForm.symm).1]
      exact ⟨[], .refl⟩
  | @keep symbol symbols form _ ih =>
      cases tokens with
      | nil => exact ⟨[], .refl⟩
      | cons token others =>
          obtain ⟨rfl, same⟩ := List.cons.inj isForm
          obtain ⟨scanned, isTail⟩ := Item.scanned_of_rest isRest
          obtain ⟨target, edge, further, -⟩ :=
            faithful.advance leads present scanned
          have shift := proceeds_shift wellFormed endUnused faithful decides
            (others ++ rest) leads present scanned
          obtain ⟨above, later⟩ := ih same (.step leads edge) further
            (Item.rest_advance.trans isTail)
          exact ⟨_, Reads.extend (.single shift) later⟩
  | @replace rule symbols front back inside expandsFront expands ihFront
      ihBack =>
      obtain ⟨scanned, isTail⟩ := Item.scanned_of_rest isRest
      have member : rule ∈ grammar.rulesOf (grammar.left rule) :=
        Grammar.mem_rulesOf.mpr ⟨inside, rfl⟩
      have closed := faithful.saturated.closed base top leads
      have start : ({ rule, dot := 0 } : Item) ∈
          (automaton.state top).items :=
        closed.itemsClosed item present _ scanned rule member
      have startRest := Item.rest_start grammar rule
      rcases List.append_eq_append_iff.mp isForm with
        ⟨middle, isTokens, isBack⟩ | ⟨middle, isFront, -⟩
      · obtain ⟨taken, others, rfl, rfl, rfl⟩ :=
          List.map_eq_append_iff.mp isTokens
        cases others with
        | nil =>
            rw [List.append_nil]
            exact ihFront (List.append_nil _).symm leads start startRest
        | cons token others =>
            obtain ⟨target, edge, further, -⟩ :=
              faithful.advance leads present scanned
            rw [isBack] at expands
            have begins : grammar.Begins (symbols ++ tail) token :=
              Grammar.begins_append.mpr (Or.inl ⟨_, expands.derives⟩)
            have expects : (automaton.state top).Expects grammar item
                (symbols ++ tail) token := Or.inl begins
            have has : (automaton.state top).HasContext { rule, dot := 0 }
                (Grammar.lookahead (token :: others ++ rest)) :=
              expects.hasContext wellFormed exact closed present isRest member
            have inner := @reads_of_expands grammar first automaton table
              wellFormed unused endUnused exact faithful decides _ _
              expandsFront base [] top _ taken (token :: others ++ rest) rfl
              leads start startRest (Or.inr ⟨.nil, has⟩)
            have whole := reads_rule wellFormed unused faithful decides leads
              isRest member has inner
            obtain ⟨above, later⟩ := ihBack isBack (.step leads edge) further
              (Item.rest_advance.trans isTail)
            rw [List.append_assoc]
            exact ⟨_, whole.extend later⟩
      · exact ihFront isFront leads start startRest

end Reading

end Table

end LRTables
