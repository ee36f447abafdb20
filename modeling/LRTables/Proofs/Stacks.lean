import LRTables.Parser
import LRTables.Proofs.Tables

/-!
# Stacks of a parser

The stack of a parser is a path of the automaton, spelled by a word of symbols.
A reduction takes off a whole right-hand side, so it neither runs out of states
nor misses the transition that follows it.
-/

namespace LRTables

namespace Automaton

/-- The stack, topmost state first, is the path of the word. -/
inductive Stacked (automaton : Automaton) : List Nat → List Symbol → Prop where
  | bottom : Stacked automaton [Automaton.start] []
  | push {state next : Nat} {rest : List Nat} {word : List Symbol}
      {symbol : Symbol} :
      Stacked automaton (state :: rest) word →
      (automaton.state state).successor? symbol = some next →
      Stacked automaton (next :: state :: rest) (word ++ [symbol])

namespace Stacked

variable {automaton : Automaton} {stack : List Nat} {word : List Symbol}

theorem ne_nil (stacked : automaton.Stacked stack word) : stack ≠ [] := by
  cases stacked with
  | bottom => exact List.cons_ne_nil _ _
  | push => exact List.cons_ne_nil _ _

theorem leads (stacked : automaton.Stacked stack word) {top : Nat}
    {rest : List Nat} (split : stack = top :: rest) :
    automaton.Leads word top := by
  induction stacked generalizing top rest with
  | bottom =>
      cases split
      exact .start
  | push _ edge ih =>
      cases split
      exact .step (ih rfl) edge

theorem exists_top (stacked : automaton.Stacked stack word) :
    ∃ top rest, stack = top :: rest ∧ automaton.Leads word top := by
  cases stack with
  | nil => exact absurd rfl stacked.ne_nil
  | cons top rest => exact ⟨top, rest, rfl, stacked.leads rfl⟩

theorem drop {front back : List Symbol}
    (stacked : automaton.Stacked stack (front ++ back)) :
    automaton.Stacked (stack.drop back.length) front := by
  induction back using List.reverseRecOn generalizing stack with
  | nil => simpa using stacked
  | append_singleton back symbol ih =>
      rw [← List.append_assoc] at stacked
      generalize equal : front ++ back ++ [symbol] = word at stacked
      cases stacked with
      | bottom => simp at equal
      | push below edge =>
          obtain ⟨rfl, -⟩ := List.append_inj' equal rfl
          have before := ih below
          simpa using before

end Stacked

end Automaton

/-- The automaton is that of the grammar, and the table is that of the
automaton. -/
structure Table.Represents (grammar : Grammar) (anyLookahead : Bool)
    (automaton : Automaton) (table : Table) : Prop where
  framed : automaton.Framed grammar
  total : automaton.Total grammar
  reflects : table.Reflects grammar anyLookahead automaton

namespace Table.Represents

variable {grammar : Grammar} {anyLookahead : Bool} {automaton : Automaton}
  {table : Table} {stack : List Nat} {word : List Symbol}
  (wellFormed : grammar.WellFormed) (unused : grammar.GoalUnused)

theorem rules_getElem? (reflects :
      table.Reflects grammar anyLookahead automaton) {rule : Nat}
    (inside : rule < grammar.rules.size) :
    table.rules[rule]? = some
      { column := grammar.columnOf (.nonterminal (grammar.left rule))
        length := (grammar.right rule).length
        hasCode := grammar.rules[rule].hasCode } := by
  rw [reflects.rules, Array.getElem?_map, Array.getElem?_eq_getElem inside]
  simp [Grammar.left, Grammar.right, inside]

theorem goto?_eq (represents :
      table.Represents grammar anyLookahead automaton) {number : Nat}
    (leads : automaton.Leads word number) {nonterminal column : Nat}
    (declared : grammar.Declares (.nonterminal nonterminal))
    (isColumn : grammar.columnOf (.nonterminal nonterminal) = some column) :
    table.goto? number column =
      (automaton.state number).successor? (.nonterminal nonterminal) := by
  have value := (represents.reflects.justified word number leads).nonterminal
    nonterminal column declared isColumn
  rw [Table.cell_filling] at value
  rw [Table.goto?, value]
  cases (automaton.state number).successor? (.nonterminal nonterminal) <;> rfl

/-- What a reduction by a finished rule finds on the stack: the right-hand
side on top, and below it a state with a transition on the left-hand side. -/
structure Handle (grammar : Grammar) (automaton : Automaton)
    (word : List Symbol) (rule : Nat) : Prop where
  inside : rule < grammar.rules.size
  notGoal : grammar.left rule ≠ goalSymbol
  split : ∃ front, word = front ++ grammar.right rule ∧
    ∃ item, grammar.Valid front item ∧
      item.scanned grammar = some (.nonterminal (grammar.left rule))

include wellFormed unused in
theorem handle_of_final {item : Item} (valid : grammar.Valid word item)
    (final : item.isFinal grammar = true) (notGoal : item.rule ≠ goalRule) :
    Handle grammar automaton word item.rule := by
  obtain ⟨front, split, start⟩ := valid.exists_front
  rw [Item.isFinal, Item.rest, List.isEmpty_iff, List.drop_eq_nil_iff] at final
  rw [List.take_of_length_le final] at split
  rcases start.parent with ⟨-, isGoal⟩ | ⟨parent, parentValid, scanned⟩
  · exact absurd isGoal notGoal
  · constructor
    · exact valid.rule_lt wellFormed
    · exact Grammar.scanned_ne_goalSymbol unused scanned
    · exact ⟨front, split, parent, parentValid, scanned⟩

theorem Offers.mem_items {state : State} {item : Item} {terminal : Nat}
    (offers : state.Offers grammar anyLookahead item terminal) :
    item ∈ state.items := by
  cases anyLookahead with
  | true => exact offers.1
  | false => exact offers.mem_items

/-- What one step of a parser does to the word of its stack. -/
inductive Moves (grammar : Grammar) (automaton : Automaton)
    (stack : List Nat) (word : List Symbol) (lookahead : Option Nat) :
    Except StepError ParseEvent × Parser → Prop where
  | fail : Moves grammar automaton stack word lookahead
      (.error .unexpected, { stack, accepted := false })
  | accept : lookahead.getD Terminal.endOfInput = Terminal.endOfInput →
      word = [.nonterminal grammar.start] →
      Moves grammar automaton stack word lookahead
        (.ok .accept, { stack, accepted := true })
  | shift (terminal next : Nat) :
      lookahead.getD Terminal.endOfInput = terminal →
      automaton.Stacked (next :: stack) (word ++ [.terminal terminal]) →
      Moves grammar automaton stack word lookahead
        (.ok (.shift next), { stack := next :: stack, accepted := false })
  | reduce (rule next : Nat) (front : List Symbol) :
      rule < grammar.rules.size →
      word = front ++ grammar.right rule →
      automaton.Stacked
        (next :: stack.drop (grammar.right rule).length)
        (front ++ [.nonterminal (grammar.left rule)]) →
      Moves grammar automaton stack word lookahead
        (.ok (.reduce rule),
          { stack := next :: stack.drop (grammar.right rule).length
            accepted := false })

include wellFormed unused in
/-- A reduction by a valid rule succeeds. -/
theorem reduce_eq
    (represents : table.Represents grammar anyLookahead automaton)
    (stacked : automaton.Stacked stack word) {rule column : Nat}
    (handle : Handle grammar automaton word rule)
    (isColumn : grammar.columnOf (.nonterminal (grammar.left rule)) =
      some column) :
    ∃ next front, word = front ++ grammar.right rule ∧
      Parser.reduce table { stack, accepted := false } rule column
          (grammar.right rule).length =
        (.ok (.reduce rule),
          { stack := next :: stack.drop (grammar.right rule).length
            accepted := false }) ∧
      automaton.Stacked (next :: stack.drop (grammar.right rule).length)
        (front ++ [.nonterminal (grammar.left rule)]) := by
  obtain ⟨inside, notGoal, front, split, item, valid, scanned⟩ := handle
  rw [split] at stacked
  have below := stacked.drop
  obtain ⟨top, rest, uncovered, leads⟩ := below.exists_top
  have scans := (represents.framed.mem_scannedSymbols wellFormed unused
    leads).mpr ⟨item, valid, scanned⟩
  obtain ⟨next, edge⟩ := represents.total front top leads _ scans
  have declared : grammar.Declares (.nonterminal (grammar.left rule)) :=
    wellFormed.left_declared rule
  have goto := represents.goto?_eq leads declared isColumn
  rw [edge] at goto
  refine ⟨next, front, split, ?_, ?_⟩
  · simp only [Parser.reduce, uncovered, goto]
  · rw [uncovered] at below ⊢
    exact .push below edge

theorem Handle.exists_column {rule : Nat}
    (handle : Handle grammar automaton word rule) :
    ∃ column, grammar.columnOf (.nonterminal (grammar.left rule)) =
      some column := by
  cases left : grammar.left rule with
  | zero => exact absurd left handle.notGoal
  | succ index => exact ⟨_, rfl⟩

theorem step_of_error {top : Nat} {rest : List Nat} {lookahead : Option Nat}
    (idle : table.action top lookahead = .error) :
    Parser.step table { stack := top :: rest, accepted := false } lookahead =
      (.error .unexpected, { stack := top :: rest, accepted := false }) := by
  simp only [Parser.step, Bool.false_eq_true, if_false, idle]

theorem step_of_shift
    (represents : table.Represents grammar anyLookahead automaton)
    {top next : Nat} {rest : List Nat} {lookahead : Option Nat}
    (isTerminal : lookahead.getD Terminal.endOfInput < grammar.terminals.size)
    (cell : table.cell top (lookahead.getD Terminal.endOfInput) =
      .shift next) :
    Parser.step table { stack := top :: rest, accepted := false } lookahead =
      (.ok (.shift next),
        { stack := next :: top :: rest, accepted := false }) := by
  simp only [Parser.step, Bool.false_eq_true, if_false, Table.action,
    represents.reflects.terminalCount, if_pos isTerminal, cell]

theorem step_of_accept
    (represents : table.Represents grammar anyLookahead automaton)
    {top : Nat} {rest : List Nat} {lookahead : Option Nat}
    (isTerminal : lookahead.getD Terminal.endOfInput < grammar.terminals.size)
    (cell : table.cell top (lookahead.getD Terminal.endOfInput) = .accept) :
    Parser.step table { stack := top :: rest, accepted := false } lookahead =
      (.ok .accept, { stack := top :: rest, accepted := true }) := by
  simp only [Parser.step, Bool.false_eq_true, if_false, Table.action,
    represents.reflects.terminalCount, if_pos isTerminal, cell]

include wellFormed unused in
/-- A step with a reduction in the cell. -/
theorem step_of_reduce
    (represents : table.Represents grammar anyLookahead automaton)
    (stacked : automaton.Stacked stack word) {top rule : Nat}
    {rest : List Nat} (split : stack = top :: rest)
    (handle : Handle grammar automaton word rule) {lookahead : Option Nat}
    (isTerminal : lookahead.getD Terminal.endOfInput < grammar.terminals.size)
    (cell : table.cell top (lookahead.getD Terminal.endOfInput) =
      .reduce rule) :
    ∃ next front, word = front ++ grammar.right rule ∧
      Parser.step table { stack, accepted := false } lookahead =
        (.ok (.reduce rule),
          { stack := next :: stack.drop (grammar.right rule).length
            accepted := false }) ∧
      automaton.Stacked (next :: stack.drop (grammar.right rule).length)
        (front ++ [.nonterminal (grammar.left rule)]) := by
  obtain ⟨column, isColumn⟩ := handle.exists_column
  obtain ⟨next, front, isWord, result, further⟩ :=
    reduce_eq wellFormed unused represents stacked handle isColumn
  refine ⟨next, front, isWord, ?_, further⟩
  have shape := rules_getElem? represents.reflects handle.inside
  rw [isColumn] at shape
  rw [← result, split]
  simp only [Parser.step, Bool.false_eq_true, if_false, Table.action,
    represents.reflects.terminalCount, if_pos isTerminal, cell, shape]

include wellFormed unused in
/-- Every step of a parser whose stack is a path. -/
theorem step_moves
    (represents : table.Represents grammar anyLookahead automaton)
    (stacked : automaton.Stacked stack word) (lookahead : Option Nat) :
    Moves grammar automaton stack word lookahead
      (Parser.step table { stack, accepted := false } lookahead) := by
  obtain ⟨top, rest, rfl, leads⟩ := stacked.exists_top
  have justified := represents.reflects.justified word top leads
  have items {item : Item} {terminal : Nat}
      (offers : (automaton.state top).Offers grammar anyLookahead item
        terminal) : grammar.Valid word item :=
    (represents.framed.mem_items wellFormed unused leads).mp
      (Offers.mem_items offers)
  by_cases isTerminal :
      lookahead.getD Terminal.endOfInput < grammar.terminals.size
  · cases cell : table.cell top (lookahead.getD Terminal.endOfInput) with
    | shift next =>
        obtain ⟨-, edge⟩ := justified.shift _ next cell
        rw [step_of_shift represents isTerminal cell]
        exact .shift _ next rfl (.push stacked edge)
    | reduce rule =>
        obtain ⟨item, offers, final, rfl, notGoal⟩ :=
          justified.reduce _ rule cell
        have handle : Handle grammar automaton word item.rule :=
          handle_of_final wellFormed unused (items offers) final notGoal
        obtain ⟨next, front, isWord, result, further⟩ :=
          step_of_reduce wellFormed unused represents stacked rfl handle
            isTerminal cell
        rw [result]
        exact .reduce _ next front handle.inside isWord further
    | accept =>
        obtain ⟨isEnd, item, offers, final, isGoal⟩ :=
          justified.accept _ cell
        rw [step_of_accept represents isTerminal cell]
        refine .accept isEnd ?_
        exact (items offers).eq_start wellFormed unused isGoal final
    | goto =>
        rw [step_of_error (by
          simp only [Table.action, represents.reflects.terminalCount,
            if_pos isTerminal, cell])]
        exact .fail
    | error =>
        rw [step_of_error (by
          simp only [Table.action, represents.reflects.terminalCount,
            if_pos isTerminal, cell])]
        exact .fail
  · rw [step_of_error (by
      simp only [Table.action, represents.reflects.terminalCount,
        if_neg isTerminal])]
    exact .fail

end Table.Represents

end LRTables
