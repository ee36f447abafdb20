import LRTables.Samples
import Mathlib.Control.Monad.Basic

/-!
# Accepted grammars

A grammar is accepted when its declarations, each of which mentions only
symbols declared before, pass the final check.  Declarations that are refused
leave the draft as it was, so they need not be listed.  What is used of an
accepted grammar is collected in `Grammar.WellFormed`.
-/

namespace LRTables

/-- What is done after another step succeeds only if that step does. -/
theorem ok_of_bind {Error Value Result : Type} {source : Except Error Value}
    {next : Value → Except Error Result} {result : Result}
    (success : source.bind next = .ok result) :
    ∃ value, source = .ok value ∧ next value = .ok result := by
  cases source with
  | error error => cases success
  | ok value => exact ⟨value, rfl, success⟩

theorem exists_ok_of_any {Error Value : Type} {source : Except Error Value}
    {good : Value → Prop} [DecidablePred good]
    (checked : source.toOption.any (fun value => decide (good value)) = true) :
    ∃ value, source = .ok value ∧ good value := by
  cases source with
  | error error => cases checked
  | ok value => exact ⟨value, rfl, of_decide_eq_true checked⟩

theorem exists_some_of_any {Value : Type} {source : Option Value}
    {good : Value → Prop} [DecidablePred good]
    (checked : source.any (fun value => decide (good value)) = true) :
    ∃ value, source = some value ∧ good value := by
  obtain ⟨value, found, holds⟩ := (Option.any_eq_true _ _).mp checked
  exact ⟨value, found, of_decide_eq_true holds⟩

/-- The symbol has been declared. -/
def Draft.Declares (draft : Draft) : Symbol → Prop
  | .terminal index => index < draft.terminals.size
  | .nonterminal index => index < draft.nonterminals.size

/-- The declaration mentions declared symbols only. -/
def Declaration.InScope (draft : Draft) : Declaration → Prop
  | .rule left right _ =>
    draft.Declares (.nonterminal left) ∧ ∀ symbol ∈ right, draft.Declares symbol
  | .start index => draft.Declares (.nonterminal index)
  | _ => True

/-- The drafts that declarations lead to. -/
inductive Draft.Reachable [Alphabet] : Draft → Prop where
  | empty : Reachable Draft.empty
  | declare {draft next : Draft} {declaration : Declaration}
      {declared : Declared} :
      Reachable draft → declaration.InScope draft →
      draft.declare declaration = .ok (declared, next) → Reachable next

namespace Draft

variable {draft next : Draft}

/-- What a successful declaration does to a draft, and what has been checked
before. -/
inductive Step [Alphabet] (draft : Draft) : Declaration → Draft → Prop where
  | precedence {associativity : Associativity} :
      Step draft (.precedence associativity)
        { draft with
          nextPriority := min (draft.nextPriority + 1) maxPriority }
  | terminal {name : String} {precedence : Option Precedence} :
      Name.isName name = true → draft.isDeclared name = false →
      draft.terminals.size < numberLimit →
      Step draft (.terminal name precedence)
        { draft with
          terminals := draft.terminals.push
            { name, precedence, quoted := false } }
  | quoted {literal : String} {precedence : Option Precedence} :
      literal.isEmpty = false → draft.isDeclared literal = false →
      draft.terminals.size < numberLimit →
      Step draft (.quoted literal precedence)
        { draft with
          terminals := draft.terminals.push
            { name := literal, precedence, quoted := true } }
  | nonterminal {name : String} :
      Name.isName name = true → draft.isDeclared name = false →
      draft.nonterminals.size < numberLimit →
      Step draft (.nonterminal name)
        { draft with nonterminals := draft.nonterminals.push name }
  | rule {left : Nat} {right : List Symbol} {override : Option String}
      {terminal : Option Nat} :
      draft.resolveOverride override = .ok terminal →
      (∀ rule ∈ draft.rules, rule.left = left → rule.right ≠ right) →
      draft.rules.size + 1 < numberLimit →
      Step draft (.rule left right override)
        { draft with
          rules := draft.rules.push
            { left, right, override := terminal, hasCode := false } }
  | code {rule : Nat} : Step draft (.code rule) (draft.markCode rule)
  | start {nonterminal : Nat} :
      Step draft (.start nonterminal) { draft with start := some nonterminal }
  | expect {count : Nat} :
      Step draft (.expect count) { draft with expect := some count }

theorem addTerminal_eq_ok {name : String} {precedence : Option Precedence}
    {quoted : Bool} {index : Nat}
    (added : draft.addTerminal name precedence quoted = .ok (index, next)) :
    draft.isDeclared name = false ∧ draft.terminals.size < numberLimit ∧
      next = { draft with
        terminals := draft.terminals.push { name, precedence, quoted } } := by
  unfold addTerminal at added
  split at added
  · cases added
  · rename_i absent
    split at added
    · cases added
    · rename_i few
      cases added
      exact ⟨eq_false_of_ne_true absent, Nat.lt_of_not_le few, rfl⟩

theorem addRule_of_resolved {left : Nat} {right : List Symbol}
    {override : Option String} {terminal : Option Nat}
    (resolved : draft.resolveOverride override = .ok terminal) :
    draft.addRule left right override =
      if draft.rules.any fun rule =>
          rule.left == left && rule.right == right then
        .error (.duplicateRule (" ".intercalate
          (draft.symbolText (.nonterminal left) ::
            right.map draft.symbolText)))
      else if draft.rules.size + 1 ≥ numberLimit then
        .error (.tooMany .rules)
      else
        .ok (draft.rules.size + 1,
          { draft with
            rules := draft.rules.push
              { left, right, override := terminal, hasCode := false } }) := by
  unfold addRule
  rw [resolved]
  simp only [bind, Except.bind, pure, Except.pure, throw, throwThe,
    MonadExceptOf.throw]

theorem declare_numbered_ok {added : Except GrammarError (Nat × Draft)}
    {declared : Declared}
    (success : declare.numbered added = .ok (declared, next)) :
    ∃ index, added = .ok (index, next) := by
  cases added with
  | error error => cases success
  | ok pair =>
      cases success
      exact ⟨_, rfl⟩

theorem step_of_declare [Alphabet] {declaration : Declaration}
    {declared : Declared}
    (success : draft.declare declaration = .ok (declared, next)) :
    draft.Step declaration next := by
  cases declaration with
  | precedence associativity =>
      cases success
      exact .precedence
  | terminal name precedence =>
      obtain ⟨index, added⟩ := declare_numbered_ok success
      unfold addNamed at added
      split at added
      · rename_i isName
        obtain ⟨absent, few, rfl⟩ := addTerminal_eq_ok added
        exact .terminal isName absent few
      · cases added
  | quoted literal precedence =>
      obtain ⟨index, added⟩ := declare_numbered_ok success
      unfold addQuoted at added
      split at added
      · cases added
      · rename_i filled
        obtain ⟨absent, few, rfl⟩ := addTerminal_eq_ok added
        exact .quoted (eq_false_of_ne_true filled) absent few
  | nonterminal name =>
      obtain ⟨index, added⟩ := declare_numbered_ok success
      unfold addNonterminal at added
      split at added
      · cases added
      · rename_i isName
        split at added
        · cases added
        · rename_i absent
          split at added
          · cases added
          · rename_i few
            cases added
            exact .nonterminal (by simpa using isName)
              (eq_false_of_ne_true absent) (Nat.lt_of_not_le few)
  | rule left right override =>
      obtain ⟨index, added⟩ := declare_numbered_ok success
      obtain ⟨terminal, resolved, -⟩ := ok_of_bind added
      rw [addRule_of_resolved resolved] at added
      split at added
      · cases added
      · rename_i unlike
        split at added
        · cases added
        · rename_i few
          cases added
          refine .rule resolved ?_ (Nat.lt_of_not_le few)
          intro rule member sameLeft sameRight
          refine unlike (Array.any_eq_true'.mpr ⟨rule, member, ?_⟩)
          simp [sameLeft, sameRight]
  | code rule =>
      cases success
      exact .code
  | start nonterminal =>
      cases success
      exact .start
  | expect count =>
      cases success
      exact .expect

end Draft

namespace Grammar

/-- The grammar results from declarations with names over the alphabet. -/
def Definable [Alphabet] (grammar : Grammar) : Prop :=
  ∃ draft : Draft, draft.Reachable ∧ draft.finish = .ok grammar

/-- The grammar results from declarations with names over some alphabet. -/
def Accepted (grammar : Grammar) : Prop :=
  ∃ alphabet : Alphabet, @Definable alphabet grammar

/-- The goal symbol is neither the start symbol nor on a right-hand side. -/
def GoalUnused (grammar : Grammar) : Prop :=
  grammar.start ≠ goalSymbol ∧
    ∀ rule ∈ grammar.rules, Symbol.nonterminal goalSymbol ∉ rule.right

/-- The end of input is on no right-hand side. -/
def EndUnused (grammar : Grammar) : Prop :=
  ∀ rule ∈ grammar.rules, Symbol.terminal Terminal.endOfInput ∉ rule.right

/-- The symbol is one of the grammar. -/
def Declares (grammar : Grammar) : Symbol → Prop
  | .terminal index => index < grammar.terminals.size
  | .nonterminal index => index < grammar.nonterminals.size

/-- The goal rule stands first, and rules mention declared symbols only. -/
structure WellFormed (grammar : Grammar) : Prop where
  hasGoalRule : goalRule < grammar.rules.size
  hasEnd : Terminal.endOfInput < grammar.terminals.size
  left_goalRule : grammar.left goalRule = goalSymbol
  right_goalRule : grammar.right goalRule = [.nonterminal grammar.start]
  left_declared : ∀ rule, grammar.left rule < grammar.nonterminals.size
  right_declared : ∀ rule, ∀ symbol ∈ grammar.right rule,
    grammar.Declares symbol

end Grammar

namespace Draft

/-- The rules of the draft mention declared symbols only. -/
structure WellFormed (draft : Draft) : Prop where
  hasEnd : Terminal.endOfInput < draft.terminals.size
  hasGoal : draft.Declares (.nonterminal goalSymbol)
  rules : ∀ rule ∈ draft.rules,
    draft.Declares (.nonterminal rule.left) ∧
      ∀ symbol ∈ rule.right, draft.Declares symbol
  start : ∀ nonterminal, draft.start = some nonterminal →
    draft.Declares (.nonterminal nonterminal)

theorem Declares.mono {draft next : Draft} {symbol : Symbol}
    (declares : draft.Declares symbol)
    (terminals : draft.terminals.size ≤ next.terminals.size)
    (nonterminals : draft.nonterminals.size ≤ next.nonterminals.size) :
    next.Declares symbol := by
  cases symbol with
  | terminal => exact Nat.lt_of_lt_of_le declares terminals
  | nonterminal => exact Nat.lt_of_lt_of_le declares nonterminals

/-- A draft with more symbols and the same rules. -/
theorem WellFormed.grow {draft next : Draft} (wellFormed : draft.WellFormed)
    (terminals : draft.terminals.size ≤ next.terminals.size)
    (nonterminals : draft.nonterminals.size ≤ next.nonterminals.size)
    (rules : next.rules = draft.rules) (start : next.start = draft.start) :
    next.WellFormed := by
  have mono {symbol : Symbol} (declares : draft.Declares symbol) :
      next.Declares symbol :=
    declares.mono terminals nonterminals
  constructor
  · exact Nat.lt_of_lt_of_le wellFormed.hasEnd terminals
  · exact mono wellFormed.hasGoal
  · intro rule member
    rw [rules] at member
    obtain ⟨left, right⟩ := wellFormed.rules rule member
    exact ⟨mono left, fun symbol inRight => mono (right symbol inRight)⟩
  · intro nonterminal declared
    rw [start] at declared
    exact mono (wellFormed.start nonterminal declared)

theorem wellFormed_empty : empty.WellFormed := by
  constructor
  · decide
  · show 0 < 1
    decide
  · intro rule member
    simp [empty] at member
  · intro nonterminal declared
    simp [empty] at declared

theorem WellFormed.markCode {draft : Draft} (wellFormed : draft.WellFormed)
    (rule : Nat) : (draft.markCode rule).WellFormed := by
  cases rule with
  | zero => exact wellFormed
  | succ index =>
      refine ⟨wellFormed.hasEnd, wellFormed.hasGoal, ?_, wellFormed.start⟩
      intro rule member
      obtain ⟨position, inside, rfl⟩ := Array.getElem_of_mem member
      simp only [Draft.markCode, Array.size_modify] at inside
      simp only [Draft.markCode, Array.getElem_modify]
      have old := wellFormed.rules _ (Array.getElem_mem inside)
      split <;> exact old

theorem WellFormed.step [Alphabet] {draft next : Draft}
    {declaration : Declaration}
    (wellFormed : draft.WellFormed) (scope : declaration.InScope draft)
    (step : draft.Step declaration next) : next.WellFormed := by
  cases step with
  | precedence => exact wellFormed.grow (Nat.le_refl _) (Nat.le_refl _) rfl rfl
  | terminal => exact wellFormed.grow (by simp) (Nat.le_refl _) rfl rfl
  | quoted => exact wellFormed.grow (by simp) (Nat.le_refl _) rfl rfl
  | nonterminal => exact wellFormed.grow (Nat.le_refl _) (by simp) rfl rfl
  | rule =>
      refine ⟨wellFormed.hasEnd, wellFormed.hasGoal, ?_, wellFormed.start⟩
      intro rule member
      rcases Array.mem_push.mp member with old | rfl
      · exact wellFormed.rules rule old
      · exact scope
  | code => exact wellFormed.markCode _
  | start =>
      refine ⟨wellFormed.hasEnd, wellFormed.hasGoal, wellFormed.rules, ?_⟩
      intro other declared
      cases declared
      exact scope
  | expect => exact wellFormed.grow (Nat.le_refl _) (Nat.le_refl _) rfl rfl

theorem Reachable.wellFormed [Alphabet] {draft : Draft}
    (reachable : draft.Reachable) : draft.WellFormed := by
  induction reachable with
  | empty => exact wellFormed_empty
  | declare _ scope success ih => exact ih.step scope (step_of_declare success)

theorem finish_eq_ok {draft : Draft} {grammar : Grammar}
    (success : draft.finish = .ok grammar) :
    ∃ start, draft.startSymbol? = some start ∧
      grammar = draft.toGrammar start ∧
      grammar.firstUndefined? = none ∧
      grammar.productives.getD start false = true := by
  simp only [finish] at success
  split at success
  · cases success
  · rename_i start chosen
    split at success
    · cases success
    · split at success
      · cases success
        exact ⟨start, chosen, rfl, ‹_›, ‹_›⟩
      · cases success

theorem WellFormed.startSymbol {draft : Draft} {start : Nat}
    (wellFormed : draft.WellFormed)
    (chosen : draft.startSymbol? = some start) :
    draft.Declares (.nonterminal start) := by
  unfold Draft.startSymbol? at chosen
  cases declared : draft.start with
  | some nonterminal =>
      rw [declared] at chosen
      cases chosen
      exact wellFormed.start start declared
  | none =>
      rw [declared] at chosen
      simp only [Option.orElse_eq_orElse, Option.orElse_eq_or,
        Option.none_or] at chosen
      split at chosen
      · cases chosen
        assumption
      · cases chosen

theorem WellFormed.toGrammar {draft : Draft} (wellFormed : draft.WellFormed)
    {start : Nat} (declared : draft.Declares (.nonterminal start)) :
    (draft.toGrammar start).WellFormed := by
  have every : ∀ rule ∈ (draft.toGrammar start).rules,
      draft.Declares (.nonterminal rule.left) ∧
        ∀ symbol ∈ rule.right, draft.Declares symbol := by
    intro rule member
    rcases Array.mem_append.mp member with goal | own
    · rw [List.mem_toArray, List.mem_singleton] at goal
      subst goal
      refine ⟨wellFormed.hasGoal, ?_⟩
      intro symbol inRight
      rw [List.mem_singleton] at inRight
      exact inRight ▸ declared
    · exact wellFormed.rules rule own
  have first : (draft.toGrammar start).rules[goalRule]? =
      some
        { left := goalSymbol
          right := [.nonterminal start]
          override := none
          hasCode := false } := by
    rw [Draft.toGrammar, Array.getElem?_append_left Nat.zero_lt_one]
    rfl
  constructor
  · rw [Draft.toGrammar, Array.size_append]
    exact Nat.lt_of_lt_of_le Nat.zero_lt_one (Nat.le_add_right _ _)
  · exact wellFormed.hasEnd
  · rw [Grammar.left, first]
    rfl
  · rw [Grammar.right, first]
    rfl
  · intro rule
    unfold Grammar.left
    cases found : (draft.toGrammar start).rules[rule]? with
    | none => exact wellFormed.hasGoal
    | some entry => exact (every entry (Array.mem_of_getElem? found)).1
  · intro rule symbol inRight
    unfold Grammar.right at inRight
    cases found : (draft.toGrammar start).rules[rule]? with
    | none =>
        rw [found] at inRight
        cases inRight
    | some entry =>
        rw [found] at inRight
        have declares := (every entry (Array.mem_of_getElem? found)).2
          symbol inRight
        cases symbol <;> exact declares

end Draft

namespace Grammar

variable {grammar : Grammar}

theorem Definable.accepted [alphabet : Alphabet]
    (definable : grammar.Definable) : grammar.Accepted :=
  ⟨alphabet, definable⟩

theorem Accepted.wellFormed (accepted : grammar.Accepted) :
    grammar.WellFormed := by
  obtain ⟨alphabet, draft, reachable, success⟩ := accepted
  obtain ⟨start, chosen, rfl, -, -⟩ := Draft.finish_eq_ok success
  exact reachable.wellFormed.toGrammar
    (reachable.wellFormed.startSymbol chosen)

theorem GoalUnused.not_mem_right (unused : grammar.GoalUnused) (rule : Nat) :
    Symbol.nonterminal goalSymbol ∉ grammar.right rule := by
  unfold Grammar.right
  cases found : grammar.rules[rule]? with
  | none => exact List.not_mem_nil
  | some entry => exact unused.2 entry (Array.mem_of_getElem? found)

theorem EndUnused.not_mem_right (unused : grammar.EndUnused) (rule : Nat) :
    Symbol.terminal Terminal.endOfInput ∉ grammar.right rule := by
  unfold Grammar.right
  cases found : grammar.rules[rule]? with
  | none => exact List.not_mem_nil
  | some entry => exact unused entry (Array.mem_of_getElem? found)

end Grammar

namespace Draft

/-- Declarations never take symbols back. -/
theorem Step.grows [Alphabet] {draft next : Draft} {declaration : Declaration}
    (step : draft.Step declaration next) :
    draft.terminals.size ≤ next.terminals.size ∧
      draft.nonterminals.size ≤ next.nonterminals.size := by
  cases step with
  | terminal => exact ⟨by simp, Nat.le_refl _⟩
  | quoted => exact ⟨by simp, Nat.le_refl _⟩
  | nonterminal => exact ⟨Nat.le_refl _, by simp⟩
  | @code rule => cases rule <;> exact ⟨Nat.le_refl _, Nat.le_refl _⟩
  | _ => exact ⟨Nat.le_refl _, Nat.le_refl _⟩

theorem Declares.declare [Alphabet] {draft next : Draft}
    {declaration : Declaration}
    {declared : Declared} {symbol : Symbol} (declares : draft.Declares symbol)
    (success : draft.declare declaration = .ok (declared, next)) :
    next.Declares symbol :=
  declares.mono (step_of_declare success).grows.1
    (step_of_declare success).grows.2

theorem Reachable.declareAll [Alphabet] {draft next : Draft}
    {declarations : List Declaration} (reachable : draft.Reachable)
    (inScope : ∀ declaration ∈ declarations, declaration.InScope draft)
    (success : draft.declareAll declarations = .ok next) :
    next.Reachable := by
  induction declarations generalizing draft with
  | nil =>
      cases success
      exact reachable
  | cons declaration rest ih =>
      obtain ⟨middle, step, others⟩ := ok_of_bind success
      dsimp only at step
      cases declared : draft.declare declaration with
      | error error =>
          rw [declared] at step
          cases step
      | ok pair =>
          obtain ⟨result, changed⟩ := pair
          rw [declared] at step
          cases step
          apply ih (.declare reachable (inScope _ List.mem_cons_self) declared)
          · intro other later
            have scope := inScope other (List.mem_cons_of_mem _ later)
            cases other with
            | rule left right override =>
                refine ⟨scope.1.declare declared, ?_⟩
                intro symbol inRight
                exact (scope.2 symbol inRight).declare declared
            | start nonterminal =>
                exact @Declares.declare _ _ _ _ _ (.nonterminal nonterminal)
                  scope declared
            | _ => trivial
          · exact others

theorem declares_of_symbolNamed? {draft : Draft} {name : String}
    {symbol : Symbol} (named : draft.symbolNamed? name = some symbol) :
    draft.Declares symbol := by
  simp only [Draft.symbolNamed?, Option.orElse_eq_orElse,
    Option.orElse_eq_or, Option.or_eq_some_iff, Option.map_eq_some_iff]
    at named
  rcases named with ⟨index, found, rfl⟩ | ⟨-, index, found, rfl⟩
  · exact (Array.findIdx?_eq_some_iff_getElem.mp found).choose
  · exact (Array.findIdx?_eq_some_iff_getElem.mp found).choose

end Draft

theorem Sample.definable [Alphabet] {sample : Sample} {grammar : Grammar}
    (result : sample.grammar = .ok grammar) : grammar.Definable := by
  obtain ⟨symbols, declared, result⟩ := ok_of_bind result
  obtain ⟨draft, ruled, finished⟩ := ok_of_bind result
  have reachable : symbols.Reachable := by
    apply Draft.Reachable.empty.declareAll _ declared
    intro declaration member
    rcases List.mem_append.mp member with terminal | nonterminal
    · obtain ⟨own, -, rfl⟩ := List.mem_map.mp terminal
      split <;> trivial
    · obtain ⟨name, -, rfl⟩ := List.mem_map.mp nonterminal
      trivial
  refine ⟨draft, reachable.declareAll ?_ ruled, finished⟩
  intro declaration member
  rcases List.mem_append.mp member with rule | expected
  · obtain ⟨⟨left, right⟩, -, rfl⟩ := List.mem_map.mp rule
    constructor
    · cases found : symbols.nonterminalNamed? left with
      | none => exact reachable.wellFormed.hasGoal
      | some index =>
          exact (Array.findIdx?_eq_some_iff_getElem.mp found).choose
    · intro symbol inRight
      obtain ⟨name, -, named⟩ := List.mem_filterMap.mp inRight
      exact Draft.declares_of_symbolNamed? named
  · obtain ⟨count, -, rfl⟩ := List.mem_map.mp expected
    trivial

theorem Sample.accepted [Alphabet] {sample : Sample} {grammar : Grammar}
    (result : sample.grammar = .ok grammar) : grammar.Accepted :=
  (Sample.definable result).accepted

/-- Any number of tokens `a`, and then a token `b`. -/
def Sample.chain : Sample :=
  { terminals := plain ["a", "b"]
    nonterminals := ["S"]
    rules :=
      [("S", ["a", "S"]),
       ("S", ["b"])]
    expect := none }

def Grammar.chain : Grammar :=
  { terminals :=
      #[{ name := "$end", precedence := none, quoted := false },
        { name := "error", precedence := none, quoted := false },
        { name := "a", precedence := none, quoted := false },
        { name := "b", precedence := none, quoted := false }]
    nonterminals := #["$accept", "S"]
    rules :=
      #[{ left := goalSymbol
          right := [.nonterminal 1]
          override := none
          hasCode := false },
        { left := 1
          right := [.terminal 2, .nonterminal 1]
          override := none
          hasCode := false },
        { left := 1
          right := [.terminal 3]
          override := none
          hasCode := false }]
    start := 1
    expect := none }

theorem definable_chain : Grammar.chain.Definable := by
  apply Sample.definable
  show Sample.chain.grammar = .ok Grammar.chain
  decide +kernel

theorem accepted_chain : Grammar.chain.Accepted :=
  definable_chain.accepted

theorem goalUnused_chain : Grammar.chain.GoalUnused := by
  constructor
  · decide
  · decide

theorem endUnused_chain : Grammar.chain.EndUnused := by
  unfold Grammar.EndUnused
  decide

/-- A token `a`, by way of any number of rules that change nothing. -/
def Sample.looped : Sample :=
  { terminals := plain ["a"]
    nonterminals := ["S"]
    rules :=
      [("S", ["S"]),
       ("S", ["a"])]
    expect := none }

def Grammar.looped : Grammar :=
  { terminals :=
      #[{ name := "$end", precedence := none, quoted := false },
        { name := "error", precedence := none, quoted := false },
        { name := "a", precedence := none, quoted := false }]
    nonterminals := #["$accept", "S"]
    rules :=
      #[{ left := goalSymbol
          right := [.nonterminal 1]
          override := none
          hasCode := false },
        { left := 1
          right := [.nonterminal 1]
          override := none
          hasCode := false },
        { left := 1
          right := [.terminal 2]
          override := none
          hasCode := false }]
    start := 1
    expect := none }

theorem accepted_looped : Grammar.looped.Accepted := by
  apply Sample.accepted
  show Sample.looped.grammar = .ok Grammar.looped
  decide +kernel

theorem goalUnused_looped : Grammar.looped.GoalUnused := by
  constructor
  · decide
  · decide

end LRTables
