import LRTables.Proofs.Paths
import LRTables.Table.Filling

/-!
# Rows of a table

A row holds the transitions of its state and the entries of its final
configurations.  Every cell is justified by the state.  When no conflict is
logged, every entry and every transition is found in its cell.
-/

namespace LRTables

/-- What a final configuration enters into a row. -/
inductive Entry where
  | accept
  | reduce (rule terminal : Nat)

namespace Entry

variable {grammar : Grammar} {anyLookahead : Bool} {state : State}

/-- The entries of a final configuration. -/
def ofFinal (grammar : Grammar) (anyLookahead : Bool)
    (configuration : Configuration) : List Entry :=
  if configuration.item.rule = goalRule then
    if anyLookahead ||
        configuration.context.contains Terminal.endOfInput then [.accept]
    else []
  else
    (if anyLookahead then List.range grammar.terminals.size
      else configuration.context.toList).map
        (.reduce configuration.item.rule)

/-- The entries of all final configurations. -/
def ofState (grammar : Grammar) (anyLookahead : Bool) (state : State) :
    List Entry :=
  ((state.finals grammar).map state.configuration).flatMap
    (ofFinal grammar anyLookahead)

/-- The column of an entry. -/
def column : Entry → Nat
  | .accept => Terminal.endOfInput
  | .reduce _ terminal => terminal

/-- The action of an entry. -/
def action : Entry → Action
  | .accept => .accept
  | .reduce rule _ => .reduce rule

end Entry

namespace State

variable {grammar : Grammar} {anyLookahead : Bool} {state : State}

/-- The item may be reduced on the terminal. -/
def Offers (grammar : Grammar) (anyLookahead : Bool) (state : State)
    (item : Item) (terminal : Nat) : Prop :=
  if anyLookahead then
    item ∈ state.items ∧ terminal < grammar.terminals.size
  else state.HasContext item terminal

/-- The state reduces by the rule on the terminal. -/
def Reduces (grammar : Grammar) (anyLookahead : Bool) (state : State)
    (rule terminal : Nat) : Prop :=
  ∃ item, state.Offers grammar anyLookahead item terminal ∧
    item.isFinal grammar = true ∧ item.rule = rule ∧ rule ≠ goalRule

/-- The state accepts at the end of input. -/
def Accepts (grammar : Grammar) (anyLookahead : Bool) (state : State) :
    Prop :=
  ∃ item, state.Offers grammar anyLookahead item Terminal.endOfInput ∧
    item.isFinal grammar = true ∧ item.rule = goalRule

/-- Lookaheads are terminals of the grammar. -/
def Terminated (grammar : Grammar) (state : State) : Prop :=
  ∀ item terminal, state.HasContext item terminal →
    terminal < grammar.terminals.size

theorem Offers.lt {item : Item} {terminal : Nat}
    (offers : state.Offers grammar anyLookahead item terminal)
    (terminated : state.Terminated grammar) :
    terminal < grammar.terminals.size := by
  cases anyLookahead with
  | true => exact offers.2
  | false => exact terminated item terminal offers

/-- No two actions of the state compete. -/
structure Unambiguous (grammar : Grammar) (anyLookahead : Bool)
    (state : State) : Prop where
  shiftReduce : ∀ rule terminal target,
    state.Reduces grammar anyLookahead rule terminal →
      state.successor? (.terminal terminal) ≠ some target
  reduceReduce : ∀ rule other terminal,
    state.Reduces grammar anyLookahead rule terminal →
      state.Reduces grammar anyLookahead other terminal → rule = other
  acceptReduce : ∀ rule, state.Accepts grammar anyLookahead →
    ¬ state.Reduces grammar anyLookahead rule Terminal.endOfInput

theorem mem_finals {index : Nat} :
    index ∈ state.finals grammar ↔
      index < state.configurations.size ∧
        (state.configuration index).item.isFinal grammar = true := by
  simp [finals]

theorem mem_entries {entry : Entry} :
    entry ∈ Entry.ofState grammar anyLookahead state ↔
      ∃ index < state.configurations.size,
        (state.configuration index).item.isFinal grammar = true ∧
          entry ∈ Entry.ofFinal grammar anyLookahead
            (state.configuration index) := by
  simp only [Entry.ofState, List.mem_flatMap, List.mem_map, mem_finals]
  constructor
  · intro found
    obtain ⟨_, ⟨index, ⟨inside, final⟩, rfl⟩, member⟩ := found
    exact ⟨index, inside, final, member⟩
  · intro found
    obtain ⟨index, inside, final, member⟩ := found
    exact ⟨_, ⟨index, ⟨inside, final⟩, rfl⟩, member⟩

theorem offers_configuration {index terminal : Nat}
    (inside : index < state.configurations.size)
    (offered : if anyLookahead then terminal < grammar.terminals.size
      else terminal ∈ (state.configuration index).context) :
    state.Offers grammar anyLookahead (state.configuration index).item
      terminal := by
  rw [Offers]
  cases anyLookahead with
  | true => exact ⟨mem_items.mpr ⟨index, inside, rfl⟩, offered⟩
  | false => exact ⟨index, inside, rfl, offered⟩

theorem Offers.exists_index {item : Item} {terminal : Nat}
    (offers : state.Offers grammar anyLookahead item terminal) :
    ∃ index < state.configurations.size,
      (state.configuration index).item = item ∧
        if anyLookahead then terminal < grammar.terminals.size
        else terminal ∈ (state.configuration index).context := by
  cases anyLookahead with
  | true =>
      obtain ⟨member, inside⟩ := offers
      obtain ⟨index, indexInside, same⟩ := State.mem_items.mp member
      exact ⟨index, indexInside, same, inside⟩
  | false => exact offers

theorem reduce_mem_entries {rule terminal : Nat} :
    .reduce rule terminal ∈ Entry.ofState grammar anyLookahead state ↔
      state.Reduces grammar anyLookahead rule terminal := by
  have inFinal {configuration : Configuration} :
      .reduce rule terminal ∈ Entry.ofFinal grammar anyLookahead
          configuration ↔
        configuration.item.rule = rule ∧ rule ≠ goalRule ∧
          if anyLookahead then terminal < grammar.terminals.size
          else terminal ∈ configuration.context := by
    rw [Entry.ofFinal]
    by_cases isGoal : configuration.item.rule = goalRule
    · rw [if_pos isGoal]
      constructor
      · intro member
        split at member
        · simp at member
        · cases member
      · intro found
        exact absurd (found.1.symm.trans isGoal) found.2.1
    · rw [if_neg isGoal]
      cases anyLookahead with
      | true =>
          simp only [if_true, List.mem_map, List.mem_range,
            Entry.reduce.injEq]
          constructor
          · intro found
            obtain ⟨_, inside, rfl, rfl⟩ := found
            exact ⟨rfl, isGoal, inside⟩
          · intro found
            exact ⟨terminal, found.2.2, found.1, rfl⟩
      | false =>
          simp only [Bool.false_eq_true, if_false, List.mem_map,
            TerminalSet.mem_toList, Entry.reduce.injEq]
          constructor
          · intro found
            obtain ⟨_, inside, rfl, rfl⟩ := found
            exact ⟨rfl, isGoal, inside⟩
          · intro found
            exact ⟨terminal, found.2.2, found.1, rfl⟩
  rw [mem_entries]
  simp only [inFinal]
  constructor
  · intro found
    obtain ⟨index, inside, final, rule, notGoal, offered⟩ := found
    exact ⟨_, offers_configuration inside offered, final, rule, notGoal⟩
  · intro reduces
    obtain ⟨item, offers, final, rule, notGoal⟩ := reduces
    obtain ⟨index, inside, rfl, offered⟩ := offers.exists_index
    exact ⟨index, inside, final, rule, notGoal, offered⟩

theorem accept_mem_entries
    (hasEnd : Terminal.endOfInput < grammar.terminals.size) :
    .accept ∈ Entry.ofState grammar anyLookahead state ↔
      state.Accepts grammar anyLookahead := by
  have inFinal {configuration : Configuration} :
      .accept ∈ Entry.ofFinal grammar anyLookahead configuration ↔
        configuration.item.rule = goalRule ∧
          if anyLookahead then Terminal.endOfInput < grammar.terminals.size
          else Terminal.endOfInput ∈ configuration.context := by
    rw [Entry.ofFinal]
    by_cases isGoal : configuration.item.rule = goalRule
    · rw [if_pos isGoal]
      cases anyLookahead with
      | true => simp [isGoal, hasEnd]
      | false =>
          simp only [Bool.false_or, isGoal, true_and, Bool.false_eq_true,
            if_false]
          rw [TerminalSet.mem_iff_contains]
          split
          · rename_i present
            simp [present]
          · rename_i absent
            simp [absent]
    · rw [if_neg isGoal]
      simp [isGoal]
  rw [mem_entries]
  simp only [inFinal]
  constructor
  · intro found
    obtain ⟨index, inside, final, rule, offered⟩ := found
    exact ⟨_, offers_configuration inside offered, final, rule⟩
  · intro accepts
    obtain ⟨item, offers, final, rule⟩ := accepts
    obtain ⟨index, inside, rfl, offered⟩ := offers.exists_index
    exact ⟨index, inside, final, rule, offered⟩

end State

namespace State

/-- The state reduces by the final configuration on the terminal. -/
def reducesOn (anyLookahead : Bool) (terminal : Nat)
    (configuration : Configuration) : Bool :=
  configuration.item.rule != goalRule &&
    (anyLookahead || configuration.context.contains terminal)

/-- The rules by which the state reduces on the terminal, in the order of its
final configurations. -/
def reducers (grammar : Grammar) (anyLookahead : Bool) (state : State)
    (terminal : Nat) : List Nat :=
  (((state.finals grammar).map state.configuration).filter
    (reducesOn anyLookahead terminal)).map (·.item.rule)

end State

namespace Entry

variable {grammar : Grammar} {anyLookahead : Bool} {terminal : Nat}

/-- The rule of an entry on the terminal. -/
def ruleOn? (terminal : Nat) : Entry → Option Nat
  | .accept => none
  | .reduce rule column => if column = terminal then some rule else none

theorem filterMap_reduce {columns : List Nat} (distinct : columns.Nodup)
    (rule : Nat) :
    (columns.map (reduce rule)).filterMap (ruleOn? terminal) =
      if terminal ∈ columns then [rule] else [] := by
  induction columns with
  | nil => rfl
  | cons column rest ih =>
      obtain ⟨absent, others⟩ := List.nodup_cons.mp distinct
      by_cases same : column = terminal
      · subst same
        simp [ruleOn?, ih others, absent]
      · simp [ruleOn?, ih others, same, Ne.symm same]

theorem filterMap_ofFinal (isTerminal : terminal < grammar.terminals.size)
    (configuration : Configuration) :
    (ofFinal grammar anyLookahead configuration).filterMap (ruleOn? terminal) =
      if State.reducesOn anyLookahead terminal configuration then
        [configuration.item.rule]
      else [] := by
  rw [ofFinal]
  by_cases isGoal : configuration.item.rule = goalRule
  · have none : State.reducesOn anyLookahead terminal configuration = false := by
      simp [State.reducesOn, isGoal]
    rw [if_pos isGoal, none]
    split
    · rfl
    · rfl
  · rw [if_neg isGoal]
    cases anyLookahead with
    | true =>
        rw [if_pos rfl, filterMap_reduce List.nodup_range]
        simp [State.reducesOn, isGoal, isTerminal]
    | false =>
        have distinct : configuration.context.toList.Nodup :=
          List.nodup_range.filter _
        rw [if_neg Bool.false_ne_true, filterMap_reduce distinct]
        simp [State.reducesOn, isGoal, TerminalSet.mem_iff_contains]

theorem filterMap_ofState (isTerminal : terminal < grammar.terminals.size)
    (state : State) :
    (ofState grammar anyLookahead state).filterMap (ruleOn? terminal) =
      state.reducers grammar anyLookahead terminal := by
  rw [ofState, State.reducers]
  induction (state.finals grammar).map state.configuration with
  | nil => rfl
  | cons configuration rest ih =>
      rw [List.flatMap_cons, List.filterMap_append, ih,
        filterMap_ofFinal isTerminal, List.filter_cons]
      split
      · rfl
      · rfl

end Entry

theorem State.mem_reducers {grammar : Grammar} {anyLookahead : Bool}
    {state : State} {rule terminal : Nat}
    (isTerminal : terminal < grammar.terminals.size) :
    rule ∈ state.reducers grammar anyLookahead terminal ↔
      state.Reduces grammar anyLookahead rule terminal := by
  rw [← Entry.filterMap_ofState isTerminal, List.mem_filterMap,
    ← reduce_mem_entries]
  constructor
  · rintro ⟨entry, member, found⟩
    cases entry with
    | accept => cases found
    | reduce other column =>
        rw [Entry.ruleOn?, Option.ite_none_right_eq_some] at found
        obtain ⟨rfl, same⟩ := found
        cases same
        exact member
  · intro member
    exact ⟨_, member, if_pos rfl⟩

namespace RowFilling

variable {grammar : Grammar} {anyLookahead : Bool} {number : Nat}
  {state : State} {filling next : RowFilling}

/-- Make one entry. -/
def enter (grammar : Grammar) (anyLookahead : Bool) (number : Nat)
    (filling : RowFilling) : Entry → Except ConstructionError RowFilling
  | .accept => filling.addAccept anyLookahead number
  | .reduce rule terminal =>
    filling.addReduce grammar anyLookahead number rule terminal

theorem addFinal_eq (configuration : Configuration) :
    filling.addFinal grammar anyLookahead number configuration =
      (Entry.ofFinal grammar anyLookahead configuration).foldlM
        (enter grammar anyLookahead number) filling := by
  rw [addFinal, Entry.ofFinal]
  by_cases isGoal : configuration.item.rule = goalRule
  · rw [if_pos isGoal, if_pos isGoal]
    by_cases offered : (anyLookahead ||
        configuration.context.contains Terminal.endOfInput) = true
    · rw [if_pos offered, if_pos offered]
      simp [enter]
    · rw [if_neg offered, if_neg offered]
      rfl
  · rw [if_neg isGoal, if_neg isGoal, List.foldlM_map]
    rfl

/-- The transitions of a row, before the final configurations. -/
def transitions (grammar : Grammar) (state : State) (log : ConflictLog) :
    RowFilling :=
  state.successors.foldl (addTransition grammar)
    { row := Array.replicate grammar.columnCount .error
      log }

theorem ofState_eq (log : ConflictLog) :
    ofState grammar anyLookahead number state log =
      (Entry.ofState grammar anyLookahead state).foldlM
        (enter grammar anyLookahead number)
        (transitions grammar state log) := by
  have flatten : ∀ (configurations : List Configuration)
      (filling : RowFilling),
      configurations.foldlM (addFinal grammar anyLookahead number) filling =
        (configurations.flatMap
          (Entry.ofFinal grammar anyLookahead)).foldlM
            (enter grammar anyLookahead number) filling := by
    intro configurations
    induction configurations with
    | nil =>
        intro filling
        rfl
    | cons configuration rest ih =>
        intro filling
        rw [List.foldlM_cons, List.flatMap_cons, List.foldlM_append,
          addFinal_eq]
        exact bind_congr fun middle => ih middle
  exact flatten _ _

theorem cell_set {column other : Nat} {action : Action}
    (inside : column < filling.row.size) :
    (filling.set column action).cell other =
      if other = column then action else filling.cell other := by
  simp only [cell, set, Array.getD_eq_getD_getElem?,
    Array.getElem?_setIfInBounds]
  by_cases same : column = other
  · subst same
    simp [inside]
  · simp [same, Ne.symm same]

@[simp] theorem size_set {column : Nat} {action : Action} :
    (filling.set column action).row.size = filling.row.size := by
  simp [set]

/-- The action of a transition. -/
def transitionAction (grammar : Grammar) (column target : Nat) : Action :=
  if column < grammar.terminals.size then .shift target else .goto target

theorem columnOf_lt (wellFormed : grammar.WellFormed) {symbol : Symbol}
    {column : Nat} (declared : grammar.Declares symbol)
    (isColumn : grammar.columnOf symbol = some column) :
    column < grammar.columnCount := by
  have goal := wellFormed.left_declared goalRule
  cases symbol with
  | terminal index =>
      cases isColumn
      have inside : column < grammar.terminals.size := declared
      rw [Grammar.columnCount]
      omega
  | nonterminal index =>
      cases index with
      | zero => cases isColumn
      | succ index =>
          cases isColumn
          have inside : index + 1 < grammar.nonterminals.size := declared
          rw [Grammar.columnCount]
          omega

theorem columnOf_injective {first second : Symbol} {column : Nat}
    (firstDeclared : grammar.Declares first)
    (secondDeclared : grammar.Declares second)
    (firstColumn : grammar.columnOf first = some column)
    (secondColumn : grammar.columnOf second = some column) :
    first = second := by
  have split {symbol : Symbol} (declared : grammar.Declares symbol)
      (isColumn : grammar.columnOf symbol = some column) :
      (symbol = .terminal column ∧ column < grammar.terminals.size) ∨
        ∃ index, symbol = .nonterminal (index + 1) ∧
          column = grammar.terminals.size + index := by
    cases symbol with
    | terminal index =>
        cases isColumn
        exact Or.inl ⟨rfl, declared⟩
    | nonterminal index =>
        cases index with
        | zero => cases isColumn
        | succ index =>
            cases isColumn
            exact Or.inr ⟨index, rfl, rfl⟩
  rcases split firstDeclared firstColumn with
    ⟨rfl, firstInside⟩ | ⟨first, rfl, firstPast⟩
  · rcases split secondDeclared secondColumn with
      ⟨rfl, -⟩ | ⟨second, rfl, secondPast⟩
    · rfl
    · omega
  · rcases split secondDeclared secondColumn with
      ⟨rfl, secondInside⟩ | ⟨second, rfl, secondPast⟩
    · omega
    · have same : first = second := by omega
      rw [same]

theorem addTransition_of_column {edge : Symbol × Nat} {column : Nat}
    (isColumn : grammar.columnOf edge.1 = some column) :
    filling.addTransition grammar edge =
      filling.set column (transitionAction grammar column edge.2) := by
  simp only [addTransition, isColumn]
  rfl

theorem addTransition_of_none {edge : Symbol × Nat}
    (noColumn : grammar.columnOf edge.1 = none) :
    filling.addTransition grammar edge = filling := by
  simp only [addTransition, noColumn]

theorem foldl_addTransition_log (edges : List (Symbol × Nat))
    (filling : RowFilling) :
    (edges.foldl (addTransition grammar) filling).log = filling.log ∧
      (edges.foldl (addTransition grammar) filling).row.size =
        filling.row.size := by
  induction edges generalizing filling with
  | nil => exact ⟨rfl, rfl⟩
  | cons edge rest ih =>
      obtain ⟨log, size⟩ := ih (filling.addTransition grammar edge)
      rw [List.foldl_cons, log, size]
      cases isColumn : grammar.columnOf edge.1 with
      | none =>
          rw [addTransition_of_none isColumn]
          exact ⟨rfl, rfl⟩
      | some column =>
          rw [addTransition_of_column isColumn]
          exact ⟨rfl, size_set⟩

theorem cell_foldl_addTransition (wellFormed : grammar.WellFormed)
    {edges : List (Symbol × Nat)} (keyed : Ordered.Keyed edges)
    (declared : ∀ edge ∈ edges, grammar.Declares edge.1)
    (size : filling.row.size = grammar.columnCount) {symbol : Symbol}
    {column : Nat} (symbolDeclared : grammar.Declares symbol)
    (isColumn : grammar.columnOf symbol = some column) :
    (edges.foldl (addTransition grammar) filling).cell column =
      match Ordered.find? edges symbol with
      | some target => transitionAction grammar column target
      | none => filling.cell column := by
  induction edges generalizing filling with
  | nil => rfl
  | cons edge rest ih =>
      obtain ⟨first, target⟩ := edge
      have firstDeclared : grammar.Declares first :=
        declared _ List.mem_cons_self
      have restKeyed : Ordered.Keyed rest := (List.nodup_cons.mp keyed).2
      have restDeclared : ∀ edge ∈ rest, grammar.Declares edge.1 :=
        fun edge member => declared edge (List.mem_cons_of_mem _ member)
      rw [List.foldl_cons, Ordered.find?_cons]
      cases firstColumn : grammar.columnOf first with
      | none =>
          rw [addTransition_of_none firstColumn,
            ih restKeyed restDeclared size]
          have different : first ≠ symbol := by
            intro same
            rw [same, isColumn] at firstColumn
            cases firstColumn
          rw [if_neg different]
      | some other =>
          rw [addTransition_of_column firstColumn,
            ih restKeyed restDeclared (size_set.trans size),
            cell_set (size ▸ columnOf_lt wellFormed firstDeclared
              firstColumn)]
          by_cases same : first = symbol
          · subst same
            rw [isColumn] at firstColumn
            cases firstColumn
            have absent : Ordered.find? rest first = none := by
              cases found : Ordered.find? rest first with
              | none => rfl
              | some later =>
                  have member := restKeyed.mem_iff.mpr found
                  have key : first ∈ rest.map Prod.fst :=
                    List.mem_map.mpr ⟨_, member, rfl⟩
                  exact absurd key (List.nodup_cons.mp keyed).1
            rw [absent, if_pos rfl]
            simp
          · have differ : column ≠ other := by
              intro equal
              subst equal
              exact same (columnOf_injective firstDeclared symbolDeclared
                firstColumn isColumn)
            rw [if_neg same, if_neg differ]

/-- The transitions of a state lead along declared symbols. -/
structure Edged (grammar : Grammar) (state : State) : Prop where
  keyed : Ordered.Keyed state.successors
  declared : ∀ edge ∈ state.successors, grammar.Declares edge.1

theorem cell_transitions (wellFormed : grammar.WellFormed)
    (edged : Edged grammar state) {log : ConflictLog} {symbol : Symbol}
    {column : Nat} (declared : grammar.Declares symbol)
    (isColumn : grammar.columnOf symbol = some column) :
    (transitions grammar state log).cell column =
      match state.successor? symbol with
      | some target => transitionAction grammar column target
      | none => .error := by
  have blank : ∀ column, ({ row := Array.replicate grammar.columnCount .error
                            log } : RowFilling).cell column = .error := by
    intro column
    simp only [cell, Array.getD_eq_getD_getElem?, Array.getElem?_replicate]
    split <;> rfl
  rw [transitions, cell_foldl_addTransition wellFormed edged.keyed
    edged.declared (by simp) declared isColumn, blank]
  rfl

theorem size_transitions {log : ConflictLog} :
    (transitions grammar state log).row.size = grammar.columnCount := by
  rw [transitions, (foldl_addTransition_log _ _).2]
  simp

theorem log_transitions {log : ConflictLog} :
    (transitions grammar state log).log = log := by
  rw [transitions, (foldl_addTransition_log _ _).1]

end RowFilling

end LRTables
