import LRTables.Proofs.Compactions
import LRTables.Proofs.Constructions
import LRTables.Proofs.Hunger
import LRTables.Proofs.ProperSplits

/-!
# Built tables are valid

Every automaton that can be constructed for a grammar is proper, and the table
of a proper automaton is valid.
-/

namespace LRTables

/-- The automata that can be constructed for a grammar: those of collected
states, and what tracing, marking, splitting and propagation make of them. -/
inductive Automaton.Constructed (grammar : Grammar) : Automaton → Prop where
  | collected {precision : Precision} {automaton : Automaton} :
      Automaton.collect? grammar (FirstSets.ofGrammar grammar) precision =
        some automaton →
      Constructed grammar automaton
  | traced {automaton : Automaton} :
      Constructed grammar automaton →
      Constructed grammar (automaton.traceLanes grammar
        (FirstSets.ofGrammar grammar)).automaton
  | marked {automaton : Automaton} (log : ConflictLog) :
      Constructed grammar automaton →
      Constructed grammar (automaton.markConflictLanes grammar
        (FirstSets.ofGrammar grammar) log).1
  | split {automaton : Automaton} {log : ConflictLog} {limit : Nat}
      {strategy : SplitStrategy} {splitting : Splitting} :
      Constructed grammar automaton →
      Construction.split limit grammar (FirstSets.ofGrammar grammar) strategy
          (automaton.markConflictLanes grammar (FirstSets.ofGrammar grammar)
            log).1
          (automaton.markConflictLanes grammar (FirstSets.ofGrammar grammar)
            log).2 = .ok splitting →
      Constructed grammar splitting.automaton

namespace Automaton

variable {grammar : Grammar} {automaton : Automaton}

theorem Proper.split {first : FirstSets} {limit : Nat}
    {strategy : SplitStrategy} {log : ConflictLog} {splitting : Splitting}
    (wellFormed : grammar.WellFormed) (exact : first.Exact grammar)
    (proper : automaton.Proper grammar)
    (result : Construction.split limit grammar first strategy
      (automaton.markConflictLanes grammar first log).1
      (automaton.markConflictLanes grammar first log).2 = .ok splitting) :
    splitting.automaton.Proper grammar := by
  have marked : (automaton.markConflictLanes grammar first log).1.Proper
      grammar := proper.markConflictLanes log
  cases strategy with
  | pager =>
      obtain ⟨divided, division, regenerated⟩ := ok_of_bind result
      exact Splitting.proper_regenerate wellFormed exact
        (PagerSplitting.proper_splitByPager wellFormed exact marked division)
        regenerated
  | clusters =>
      obtain ⟨divided, division, regenerated⟩ := ok_of_bind result
      refine Splitting.proper_regenerate wellFormed exact
        (ClusterSplitting.proper_splitByClusters wellFormed exact marked ?_
          division) regenerated
      intro number onLane
      rw [size_markConflictLanes]
      exact proper.lt_size_of_contains onLane

theorem Constructed.proper (wellFormed : grammar.WellFormed)
    (constructed : automaton.Constructed grammar) :
    automaton.Proper grammar := by
  have exact := FirstSets.exact_ofGrammar wellFormed
  induction constructed with
  | collected result =>
      exact Collecting.proper_collect? wellFormed exact result
  | traced _ before =>
      exact Tracing.proper_traceLanes wellFormed exact before
  | marked log _ before => exact before.markConflictLanes log
  | split _ result before => exact before.split wellFormed exact result

end Automaton

namespace Grammar

variable {grammar : Grammar} {options : Options} {output : Output}

/-- What a construction yields is the table of a constructed automaton. -/
theorem constructed_constructWithin {limit : Nat}
    (result : (grammar.constructWithin limit options).built = .ok output) :
    output.automaton.Constructed grammar ∧
      ∃ automaton anyLookahead, automaton.Constructed grammar ∧
        Table.ofAutomaton grammar automaton anyLookahead =
          .ok output.table := by
  have byLanes {strategy : Option SplitStrategy}
      (result : (Construction.byLanes limit grammar
        (FirstSets.ofGrammar grammar) strategy).built = .ok output) :
      output.automaton.Constructed grammar ∧
        ∃ automaton anyLookahead, automaton.Constructed grammar ∧
          Table.ofAutomaton grammar automaton anyLookahead =
            .ok output.table := by
    obtain ⟨base, collected, traced⟩ :=
      Construction.exists_base_of_byLanes result
    have tracing := Automaton.Constructed.traced (.collected collected)
    cases Construction.yields_of_ofTraced traced with
    | unsplit filled same =>
        exact ⟨same ▸ tracing, _, _, tracing, filled⟩
    | unaffected filled same =>
        exact ⟨same ▸ tracing.marked output.table.log, _, _, tracing, filled⟩
    | split _ _ _ divided same splitFilled =>
        have split := tracing.split divided
        exact ⟨same ▸ split, _, _, split, splitFilled⟩
  rw [constructWithin] at result
  split at result
  · obtain ⟨automaton, collected, result⟩ := ok_of_bind result
    obtain ⟨table, filled, final⟩ := ok_of_bind result
    cases final
    have constructed := Automaton.Constructed.collected
      (Construction.collect?_of_collect collected)
    exact ⟨constructed, _, _, constructed, filled⟩
  · obtain ⟨collected, filled⟩ :=
      Construction.collect?_of_withLookaheads result
    have constructed := Automaton.Constructed.collected collected
    exact ⟨constructed, _, _, constructed, filled⟩
  · exact byLanes result
  · exact byLanes result

end Grammar

namespace RowFilling

variable {grammar : Grammar} {anyLookahead : Bool} {number stateCount : Nat}
  {filling next : RowFilling}

/-- The cells of a row name existing states and rules. -/
structure ValidCells (grammar : Grammar) (stateCount : Nat)
    (row : Array Action) : Prop where
  size : row.size = grammar.columnCount
  ofKind : ∀ column, (row.getD column .error).OfKind
    (Decidable.decide (column < grammar.terminals.size))
  below : ∀ column,
    (row.getD column .error).Below stateCount grammar.rules.size

/-- The conflicts of a log name existing states and rules. -/
structure ValidLog (grammar : Grammar) (stateCount : Nat)
    (log : ConflictLog) : Prop where
  conflicts : ∀ conflict ∈ log.conflicts,
    conflict.Valid grammar.terminals.size stateCount grammar.rules.size
  below : ∀ conflict ∈ log.conflicts,
    conflict.other.Below stateCount grammar.rules.size ∧
      conflict.decision.Below stateCount grammar.rules.size
  tallied : log.Tallied
  shiftShift : log.shiftShift = 0

theorem validLog_empty (stateCount : Nat) :
    ValidLog grammar stateCount ConflictLog.empty := by
  constructor
  · intro conflict none
    exact absurd none (Array.not_mem_empty conflict)
  · intro conflict none
    exact absurd none (Array.not_mem_empty conflict)
  · exact ConflictLog.tallied_of_conflicts_eq_empty _ rfl rfl rfl
  · rfl

structure Valid (grammar : Grammar) (stateCount : Nat)
    (filling : RowFilling) : Prop where
  cells : ValidCells grammar stateCount filling.row
  log : ValidLog grammar stateCount filling.log

theorem validCells_blank (stateCount : Nat) :
    ValidCells grammar stateCount
      (Array.replicate grammar.columnCount .error) := by
  have blank (column : Nat) :
      (Array.replicate grammar.columnCount Action.error).getD column .error =
        .error := by
    rw [Array.getD_eq_getD_getElem?, Array.getElem?_replicate]
    split <;> rfl
  constructor
  · exact Array.size_replicate
  · intro column
    rw [blank]
    trivial
  · intro column
    rw [blank]
    trivial

theorem cell_set_cases (column other : Nat) (action : Action) :
    (filling.set column action).cell other = filling.cell other ∨
      other = column ∧ (filling.set column action).cell other = action := by
  by_cases inside : column < filling.row.size
  · rw [cell_set inside]
    split
    · rename_i same
      exact Or.inr ⟨same, rfl⟩
    · exact Or.inl rfl
  · left
    rw [set, Array.setIfInBounds, dif_neg inside]

theorem Valid.set (valid : filling.Valid grammar stateCount) {column : Nat}
    {action : Action}
    (ofKind : action.OfKind
      (Decidable.decide (column < grammar.terminals.size)))
    (below : action.Below stateCount grammar.rules.size) :
    (filling.set column action).Valid grammar stateCount := by
  have cells (other : Nat) := filling.cell_set_cases column other action
  refine ⟨⟨size_set.trans valid.cells.size, ?_, ?_⟩, valid.log⟩
  · intro other
    change ((filling.set column action).cell other).OfKind _
    rcases cells other with same | ⟨rfl, own⟩
    · rw [same]
      exact valid.cells.ofKind other
    · rw [own]
      exact ofKind
  · intro other
    change ((filling.set column action).cell other).Below _ _
    rcases cells other with same | ⟨rfl, own⟩
    · rw [same]
      exact valid.cells.below other
    · rw [own]
      exact below

theorem Valid.decide (valid : filling.Valid grammar stateCount)
    {conflict : Conflict}
    (own : conflict.Valid grammar.terminals.size stateCount grammar.rules.size)
    (other : conflict.other.Below stateCount grammar.rules.size)
    (decision : conflict.decision.Below stateCount grammar.rules.size) :
    (filling.decide conflict).Valid grammar stateCount := by
  have entered : (filling.set conflict.lookahead conflict.decision).Valid
      grammar stateCount := by
    apply valid.set _ decision
    rw [decide_eq_true own.lookahead]
    exact own.decision
  have log := valid.log
  refine ⟨entered.cells, ?_, ?_, log.tallied.record conflict, ?_⟩
  · intro logged member
    rcases Array.mem_push.mp member with old | rfl
    · exact log.conflicts logged old
    · exact own
  · intro logged member
    rcases Array.mem_push.mp member with old | rfl
    · exact log.below logged old
    · exact ⟨other, decision⟩
  · exact (ConflictLog.shiftShift_record _ conflict).trans log.shiftShift

theorem Valid.addTransition (valid : filling.Valid grammar stateCount)
    {edge : Symbol × Nat} (positive : 0 < edge.2)
    (inside : edge.2 < stateCount) :
    (filling.addTransition grammar edge).Valid grammar stateCount := by
  cases isColumn : grammar.columnOf edge.1 with
  | none =>
      rw [addTransition_of_none isColumn]
      exact valid
  | some column =>
      rw [addTransition_of_column isColumn]
      apply valid.set
      · unfold transitionAction
        split
        · rename_i terminal
          exact ⟨decide_eq_true terminal, positive⟩
        · rename_i nonterminal
          exact ⟨decide_eq_false nonterminal, positive⟩
      · unfold transitionAction
        split
        · exact inside
        · exact inside

section Entries

variable (wellFormed : grammar.WellFormed) (inside : number < stateCount)

include wellFormed inside

theorem Valid.addAccept (valid : filling.Valid grammar stateCount)
    (entered : filling.addAccept anyLookahead number = .ok next) :
    next.Valid grammar stateCount := by
  simp only [RowFilling.addAccept] at entered
  split at entered
  · rename_i rule current
    have below := valid.cells.below Terminal.endOfInput
    rw [cell] at current
    rw [current] at below
    split at entered
    · cases entered
      exact valid.decide
        { state := inside
          lookahead := wellFormed.hasEnd
          reduce := below
          other := trivial
          decision := trivial } trivial trivial
    · cases entered
  · cases entered
    exact valid.set trivial trivial

omit wellFormed in
theorem Valid.addReduce (valid : filling.Valid grammar stateCount)
    {rule terminal : Nat} (positive : 0 < rule)
    (declared : rule < grammar.rules.size)
    (isTerminal : terminal < grammar.terminals.size)
    (entered : filling.addReduce grammar anyLookahead number rule terminal =
      .ok next) :
    next.Valid grammar stateCount := by
  have ofKind : (filling.cell terminal).OfKind _ :=
    valid.cells.ofKind terminal
  have below : (filling.cell terminal).Below stateCount _ :=
    valid.cells.below terminal
  rw [decide_eq_true isTerminal] at ofKind
  -- whatever is decided, the conflict is with the content of the cell
  have settled {decision : Action} (byPrecedence : Bool)
      (kind : decision.OfKind true)
      (small : decision.Below stateCount grammar.rules.size) :
      (filling.decide
        { state := number
          lookahead := terminal
          reduce := rule
          other := filling.cell terminal
          decision
          byPrecedence }).Valid grammar stateCount :=
    valid.decide
      { state := inside
        lookahead := isTerminal
        reduce := declared
        other := ofKind
        decision := kind } below small
  simp only [RowFilling.addReduce] at entered
  split at entered
  · cases entered
    exact valid.set positive declared
  · rename_i other current
    rw [current] at ofKind below
    split at entered
    · cases entered
      exact valid
    · cases entered
      apply settled
      · exact Nat.lt_min.mpr ⟨ofKind, positive⟩
      · exact Nat.lt_of_le_of_lt (Nat.min_le_left other rule) below
  · split at entered
    · cases entered
      exact settled false trivial trivial
    · cases entered
  · split at entered
    · cases entered
      exact settled true positive declared
    · cases entered
      exact settled true ofKind below
    · cases entered
      exact settled false ofKind below
  · cases entered
    exact valid

end Entries

theorem valid_transitions {automaton : Automaton} {log : ConflictLog}
    (proper : automaton.Proper grammar)
    (validLog : ValidLog grammar automaton.size log) (number : Nat) :
    (transitions grammar (automaton.state number) log).Valid grammar
      automaton.size := by
  have each (edges : List (Symbol × Nat)) (filling : RowFilling)
      (valid : filling.Valid grammar automaton.size)
      (targets : ∀ edge ∈ edges, automaton.IsTarget edge.2) :
      (edges.foldl (RowFilling.addTransition grammar) filling).Valid grammar
        automaton.size := by
    induction edges generalizing filling with
    | nil => exact valid
    | cons edge rest ih =>
        obtain ⟨positive, inside⟩ := targets edge List.mem_cons_self
        apply ih _ (valid.addTransition positive inside)
        exact fun other later => targets other (List.mem_cons_of_mem _ later)
  apply each _ _ _ (proper.targets number)
  exact ⟨validCells_blank automaton.size, validLog⟩

/-- The row of a state of a proper automaton is valid. -/
theorem valid_ofState {automaton : Automaton} {log : ConflictLog}
    (wellFormed : grammar.WellFormed) (proper : automaton.Proper grammar)
    (validLog : ValidLog grammar automaton.size log)
    (inside : number < automaton.size)
    (result : ofState grammar anyLookahead number (automaton.state number)
      log = .ok next) :
    next.Valid grammar automaton.size := by
  rw [ofState_eq] at result
  apply foldlM_enter_induction (Valid grammar automaton.size) result
    (valid_transitions proper validLog number)
  intro middle after valid entry member entered
  have terminated := proper.terminated number inside
  obtain ⟨isTerminal, meaning⟩ :=
    entry_spec wellFormed.hasEnd terminated member
  rcases meaning with ⟨rfl, -⟩ | ⟨rule, terminal, rfl, reduces⟩
  · exact valid.addAccept wellFormed inside entered
  · obtain ⟨index, indexInside, -, own⟩ := State.mem_entries.mp member
    obtain ⟨item, offers, -, rfl, notGoal⟩ := reduces
    obtain ⟨place, placeInside, rfl, -⟩ := offers.exists_index
    exact valid.addReduce inside (Nat.pos_of_ne_zero notGoal)
      ((proper.states number).configuration placeInside).1 isTerminal entered

end RowFilling

/-- The columns are headed by the texts of the terminals and the names of the
nonterminals after the goal symbol. -/
theorem Grammar.map_symbolText_columns (grammar : Grammar) :
    grammar.columns.map grammar.symbolText =
      grammar.terminals.toList.map Terminal.text ++
        grammar.nonterminals.toList.tail := by
  rw [columns, List.map_append, List.map_map, List.map_map]
  congr 1
  · apply List.ext_getElem
    · simp
    · intro index _ inside
      rw [List.length_map, Array.length_toList] at inside
      simp [symbolText, terminalText, inside]
  · apply List.ext_getElem
    · simp
    · intro index _ inside
      rw [List.length_tail, Array.length_toList] at inside
      have declared := Nat.add_lt_of_lt_sub inside
      simp [symbolText, nonterminalText, declared]

namespace Table

variable {grammar : Grammar} {automaton : Automaton} {anyLookahead : Bool}

theorem valid_fillFirst (wellFormed : grammar.WellFormed)
    (proper : automaton.Proper grammar) {count : Nat}
    (inside : count ≤ automaton.size)
    {filled : Array (Array Action) × ConflictLog}
    (result : fillFirst grammar anyLookahead automaton count = .ok filled) :
    filled.1.size = count ∧
      (∀ row ∈ filled.1,
        RowFilling.ValidCells grammar automaton.size row) ∧
      RowFilling.ValidLog grammar automaton.size filled.2 := by
  induction count generalizing filled with
  | zero =>
      cases result
      refine ⟨rfl, ?_, RowFilling.validLog_empty _⟩
      intro row none
      exact absurd none (Array.not_mem_empty row)
  | succ count ih =>
      rw [fillFirst_succ] at result
      obtain ⟨⟨rows, log⟩, before, last⟩ := ok_of_bind result
      obtain ⟨size, valid, validLog⟩ := ih (Nat.le_of_succ_le inside) before
      rw [fillRow] at last
      split at last
      · obtain ⟨next, entered, final⟩ := ok_of_bind last
        cases final
        have row := RowFilling.valid_ofState wellFormed proper validLog inside
          entered
        refine ⟨?_, ?_, row.log⟩
        · rw [Array.size_push, size]
        · intro other member
          rcases Array.mem_push.mp member with old | rfl
          · exact valid other old
          · exact row.cells
      · cases last
        refine ⟨?_, ?_, validLog⟩
        · rw [Array.size_push, size]
        · intro other member
          rcases Array.mem_push.mp member with old | rfl
          · exact valid other old
          · exact RowFilling.validCells_blank automaton.size

theorem soleReduction?_mem {terminalCount rule : Nat} {row : Array Action}
    (sole : soleReduction? terminalCount row = some rule) :
    .reduce rule ∈ row := by
  unfold soleReduction? at sole
  dsimp only at sole
  split at sole
  · cases sole
  · split at sole
    · rename_i first others shape
      split at sole
      · cases sole
        have member : Action.reduce rule ∈
            (row.toList.take terminalCount).filter (· != .error) :=
          shape ▸ List.mem_cons_self
        exact Array.mem_toList_iff.mp
          (List.mem_of_mem_take (List.mem_filter.mp member).1)
      · cases sole
    · cases sole

theorem columns_ofAutomaton {table : Table}
    (result : ofAutomaton grammar automaton anyLookahead = .ok table) :
    table.columns = (grammar.columns.map grammar.symbolText).toArray := by
  rw [ofAutomaton] at result
  obtain ⟨filled, -, final⟩ := ok_of_bind result
  cases final
  rfl

theorem size_columns_ofAutomaton (wellFormed : grammar.WellFormed)
    {table : Table}
    (result : ofAutomaton grammar automaton anyLookahead = .ok table) :
    table.columns.size = grammar.columnCount := by
  rw [columns_ofAutomaton result, List.size_toArray, List.length_map,
    Grammar.length_columns wellFormed]

theorem filled_of_ofAutomaton (wellFormed : grammar.WellFormed)
    (proper : automaton.Proper grammar) {table : Table}
    (result : ofAutomaton grammar automaton anyLookahead = .ok table) :
    (∀ row ∈ table.rows,
        RowFilling.ValidCells grammar table.stateCount row) ∧
      RowFilling.ValidLog grammar table.stateCount table.log := by
  obtain ⟨filled, -, -⟩ := ofAutomaton_eq_ok result
  obtain ⟨size, cells, log⟩ :=
    valid_fillFirst wellFormed proper (Nat.le_refl _) filled
  rw [stateCount, size]
  exact ⟨cells, log⟩

/-- Each state has one row, and is final at most once. -/
theorem finals_ofAutomaton {table : Table}
    (result : ofAutomaton grammar automaton anyLookahead = .ok table) :
    table.finals.size ≤ table.stateCount ∧
      ∀ final ∈ table.finals, ∃ row ∈ table.rows,
        final.1 < table.stateCount ∧ .reduce final.2 ∈ row := by
  rw [ofAutomaton] at result
  obtain ⟨⟨rows, log⟩, -, result⟩ := ok_of_bind result
  cases result
  constructor
  · rw [List.size_toArray]
    exact (List.length_filterMap_le _ _).trans
      (Nat.le_of_eq List.length_range)
  · intro final member
    obtain ⟨number, listed, sole⟩ :=
      List.mem_filterMap.mp (List.mem_toArray.mp member)
    obtain ⟨rule, found, rfl⟩ := Option.map_eq_some_iff.mp sole
    have inside : number < rows.size := List.mem_range.mp listed
    refine ⟨rows.getD number #[], ?_, inside, soleReduction?_mem found⟩
    rw [Array.getD_eq_getD_getElem?, Array.getElem?_eq_getElem inside]
    exact Array.getElem_mem inside

/-- The table of a proper automaton is valid. -/
theorem valid_ofAutomaton (wellFormed : grammar.WellFormed)
    (proper : automaton.Proper grammar) {table : Table}
    (result : ofAutomaton grammar automaton anyLookahead = .ok table) :
    table.Valid := by
  obtain ⟨-, terminalCount, rules⟩ := ofAutomaton_eq_ok result
  have width := size_columns_ofAutomaton wellFormed result
  obtain ⟨cells, log⟩ := filled_of_ofAutomaton wellFormed proper result
  have declared : table.rules.size = grammar.rules.size := by
    rw [rules, Array.size_map]
  have below {row : Array Action} (member : row ∈ table.rows)
      {action : Action} (inRow : action ∈ row) :
      action.Below table.stateCount table.rules.size := by
    obtain ⟨column, inside, rfl⟩ := Array.mem_iff_getElem.mp inRow
    have own := (cells row member).below column
    rwa [Array.getD_eq_getD_getElem?, Array.getElem?_eq_getElem inside,
      ← declared] at own
  constructor
  · rw [width, terminalCount]
    exact RowFilling.terminals_le_columnCount wellFormed
  · intro row member
    refine ⟨(cells row member).size.trans width.symm, ?_,
      fun action inRow => below member inRow⟩
    intro column inside
    have own := (cells row member).ofKind column
    rwa [Array.getD_eq_getD_getElem?, Array.getElem?_eq_getElem inside,
      ← terminalCount] at own
  · intro final member
    obtain ⟨row, listed, inside, inRow⟩ :=
      (finals_ofAutomaton result).2 final member
    exact ⟨inside, below listed inRow⟩
  · intro conflict member
    rw [terminalCount, declared]
    exact log.conflicts conflict member
  · intro state member
    obtain ⟨conflict, logged, rfl⟩ := log.tallied.states state member
    exact (log.conflicts conflict logged).state
  · exact log.tallied.distinct

end Table

end LRTables
