import LRTables.Proofs.Conflicts

/-!
# Tables of automata

The table of a framed automaton has the row of every reachable state.  It says
nothing that the automaton does not say, and all that it says when no conflict
is logged.  Without competing actions it is filled without conflicts.
-/

namespace LRTables

namespace Automaton

variable {grammar : Grammar} {automaton : Automaton}

theorem Framed.edged (wellFormed : grammar.WellFormed)
    (framed : automaton.Framed grammar) (number : Nat) :
    RowFilling.Edged grammar (automaton.state number) := by
  constructor
  · exact framed.keyed number
  · intro edge member
    obtain ⟨symbol, target⟩ := edge
    have found := (framed.keyed.mem_successors).mp member
    have scans := framed.scanned number symbol target found
    obtain ⟨item, -, scanned⟩ := State.mem_scannedSymbols.mp scans
    exact wellFormed.right_declared item.rule symbol
      (Item.scanned_mem_right scanned)

/-- All lookaheads of the automaton are terminals of the grammar. -/
def Terminated (grammar : Grammar) (automaton : Automaton) : Prop :=
  ∀ number < automaton.size, (automaton.state number).Terminated grammar

end Automaton

namespace Table

variable {grammar : Grammar} {automaton : Automaton} {anyLookahead : Bool}

/-- Fill one more row. -/
def fillRow (grammar : Grammar) (anyLookahead : Bool) (automaton : Automaton) :
    Array (Array Action) × ConflictLog → Nat →
      Except ConstructionError (Array (Array Action) × ConflictLog)
  | (rows, log), number =>
    if automaton.reachable.getD number false then do
      let filling ← RowFilling.ofState grammar anyLookahead number
        (automaton.state number) log
      return (rows.push filling.row, filling.log)
    else
      return (rows.push (Array.replicate grammar.columnCount .error), log)

/-- Fill the first rows. -/
def fillFirst (grammar : Grammar) (anyLookahead : Bool)
    (automaton : Automaton) (count : Nat) :
    Except ConstructionError (Array (Array Action) × ConflictLog) :=
  (List.range count).foldlM (fillRow grammar anyLookahead automaton)
    (#[], ConflictLog.empty)

theorem fillRows_eq :
    fillRows grammar anyLookahead automaton automaton.reachable =
      fillFirst grammar anyLookahead automaton automaton.size :=
  rfl

theorem fillFirst_succ (count : Nat) :
    fillFirst grammar anyLookahead automaton (count + 1) =
      (fillFirst grammar anyLookahead automaton count).bind fun filled =>
        fillRow grammar anyLookahead automaton filled count := by
  rw [fillFirst, List.range_succ, List.foldlM_append]
  refine bind_congr fun filled => ?_
  simp

/-- The rows that have been filled, and where the log stands. -/
structure Filled (grammar : Grammar) (anyLookahead : Bool)
    (automaton : Automaton) (count : Nat)
    (filled : Array (Array Action) × ConflictLog) : Prop where
  size : filled.1.size = count
  row : ∀ number < count, automaton.reachable.getD number false = true →
    ∃ before after,
      RowFilling.ofState grammar anyLookahead number
          (automaton.state number) before =
        .ok { row := filled.1.getD number #[]
              log := after } ∧
        (filled.2.conflicts = #[] → after.conflicts = #[])
  blank : ∀ number < count, automaton.reachable.getD number false ≠ true →
    filled.1.getD number #[] = Array.replicate grammar.columnCount .error
  log : filled.2.conflicts = #[] → filled.2 = ConflictLog.empty

theorem getD_push {rows : Array (Array Action)} {row : Array Action}
    {number : Nat} :
    (rows.push row).getD number #[] =
      if number = rows.size then row else rows.getD number #[] := by
  simp only [Array.getD_eq_getD_getElem?, Array.getElem?_push]
  split <;> rfl

/-- The row of a reachable state comes next. -/
theorem Filled.push {count : Nat} {rows : Array (Array Action)}
    {log : ConflictLog} {final : RowFilling}
    (holds : Filled grammar anyLookahead automaton count (rows, log))
    (reachable : automaton.reachable.getD count false = true)
    (entered : RowFilling.ofState grammar anyLookahead count
      (automaton.state count) log = .ok final)
    (unlogged : final.log.conflicts = #[] → final.log = log) :
    Filled grammar anyLookahead automaton (count + 1)
      (rows.push final.row, final.log) := by
  obtain ⟨size, row, blank, logged⟩ := holds
  dsimp only at size row blank logged
  constructor
  · rw [Array.size_push, size]
  · intro number member isReachable
    dsimp only
    rw [getD_push, size]
    by_cases same : number = count
    · subst same
      rw [if_pos rfl]
      exact ⟨log, final.log, entered, fun clean => clean⟩
    · rw [if_neg same]
      obtain ⟨before, after, filled, clean⟩ :=
        row number (by omega) isReachable
      refine ⟨before, after, filled, ?_⟩
      intro empty
      rw [unlogged empty] at empty
      exact clean empty
  · intro number member unreachable
    dsimp only
    have different : number ≠ count := by
      intro same
      subst same
      exact unreachable reachable
    rw [getD_push, size, if_neg different]
    exact blank number (by omega) unreachable
  · intro empty
    change final.log.conflicts = #[] at empty
    show final.log = ConflictLog.empty
    have same := unlogged empty
    rw [same] at empty ⊢
    exact logged empty

/-- The blank row of a state that is not reachable comes next. -/
theorem Filled.pushBlank {count : Nat} {rows : Array (Array Action)}
    {log : ConflictLog}
    (holds : Filled grammar anyLookahead automaton count (rows, log))
    (unreachable : automaton.reachable.getD count false ≠ true) :
    Filled grammar anyLookahead automaton (count + 1)
      (rows.push (Array.replicate grammar.columnCount .error), log) := by
  obtain ⟨size, row, blank, logged⟩ := holds
  dsimp only at size row blank logged
  constructor
  · rw [Array.size_push, size]
  · intro number member isReachable
    dsimp only
    have different : number ≠ count := by
      intro same
      subst same
      exact unreachable isReachable
    rw [getD_push, size, if_neg different]
    exact row number (by omega) isReachable
  · intro number member idle
    dsimp only
    rw [getD_push, size]
    by_cases same : number = count
    · rw [if_pos same]
    · rw [if_neg same]
      exact blank number (by omega) idle
  · exact logged

theorem Filled.next (wellFormed : grammar.WellFormed)
    (framed : automaton.Framed grammar)
    (terminated : automaton.Terminated grammar) {count : Nat}
    (inside : count < automaton.size)
    {filled more : Array (Array Action) × ConflictLog}
    (holds : Filled grammar anyLookahead automaton count filled)
    (result : fillRow grammar anyLookahead automaton filled count =
      .ok more) :
    Filled grammar anyLookahead automaton (count + 1) more := by
  obtain ⟨rows, log⟩ := filled
  simp only [fillRow] at result
  by_cases reachable : automaton.reachable.getD count false = true
  · rw [if_pos reachable] at result
    obtain ⟨final, entered, isMore⟩ := ok_of_bind result
    cases isMore
    exact holds.push reachable entered fun clean =>
      (RowFilling.complete_ofState wellFormed (framed.edged wellFormed count)
        (terminated count inside) entered clean).1
  · rw [if_neg reachable] at result
    cases result
    exact holds.pushBlank reachable

theorem filled_of_fillFirst (wellFormed : grammar.WellFormed)
    (framed : automaton.Framed grammar)
    (terminated : automaton.Terminated grammar) {count : Nat}
    (inside : count ≤ automaton.size)
    {filled : Array (Array Action) × ConflictLog}
    (result : fillFirst grammar anyLookahead automaton count = .ok filled) :
    Filled grammar anyLookahead automaton count filled := by
  induction count generalizing filled with
  | zero =>
      cases result
      constructor
      · rfl
      · intro number member
        exact absurd member (Nat.not_lt_zero _)
      · intro number member
        exact absurd member (Nat.not_lt_zero _)
      · intro _
        rfl
  | succ count ih =>
      rw [fillFirst_succ] at result
      obtain ⟨filled, before, last⟩ := ok_of_bind result
      exact (ih (by omega) before).next wellFormed framed terminated
        (by omega) last

/-- A row of the table as it was filled. -/
def filling (table : Table) (number : Nat) : RowFilling :=
  { row := table.rows.getD number #[]
    log := table.log }

theorem cell_filling (table : Table) (number column : Nat) :
    (table.filling number).cell column = table.cell number column :=
  rfl

/-- What every table says about its automaton. -/
structure Reflects (grammar : Grammar) (anyLookahead : Bool)
    (automaton : Automaton) (table : Table) : Prop where
  terminalCount : table.terminalCount = grammar.terminals.size
  rules : table.rules = grammar.rules.map fun rule =>
    { column := grammar.columnOf (.nonterminal rule.left)
      length := rule.right.length
      hasCode := rule.hasCode }
  justified : ∀ word number, automaton.Leads word number →
    RowFilling.Justified grammar anyLookahead (automaton.state number)
      (table.filling number)

theorem ofAutomaton_eq_ok {table : Table}
    (result : ofAutomaton grammar automaton anyLookahead = .ok table) :
    fillFirst grammar anyLookahead automaton automaton.size =
        .ok (table.rows, table.log) ∧
      table.terminalCount = grammar.terminals.size ∧
      table.rules = grammar.rules.map fun rule =>
        { column := grammar.columnOf (.nonterminal rule.left)
          length := rule.right.length
          hasCode := rule.hasCode } := by
  rw [ofAutomaton, fillRows_eq] at result
  cases filled : fillFirst grammar anyLookahead automaton automaton.size with
  | error error =>
      rw [filled] at result
      cases result
  | ok pair =>
      rw [filled] at result
      cases result
      exact ⟨rfl, rfl, rfl⟩

theorem reflects_ofAutomaton (wellFormed : grammar.WellFormed)
    (framed : automaton.Framed grammar)
    (terminated : automaton.Terminated grammar) {table : Table}
    (result : ofAutomaton grammar automaton anyLookahead = .ok table) :
    table.Reflects grammar anyLookahead automaton := by
  obtain ⟨rows, terminalCount, rules⟩ := ofAutomaton_eq_ok result
  have filled := filled_of_fillFirst wellFormed framed terminated
    (Nat.le_refl _) rows
  constructor
  · exact terminalCount
  · exact rules
  · intro word number leads
    have inside := framed.lt_size leads
    obtain ⟨before, after, entered, -⟩ := filled.row number inside
      (framed.reachable_iff.mpr ⟨word, leads⟩)
    have justified := RowFilling.justified_ofState wellFormed
      (framed.edged wellFormed number) (terminated number inside) entered
    exact ⟨justified.size, justified.shift, justified.goto, justified.reduce,
      justified.accept, justified.nonterminal⟩

theorem complete_ofAutomaton (wellFormed : grammar.WellFormed)
    (framed : automaton.Framed grammar)
    (terminated : automaton.Terminated grammar) {table : Table}
    (result : ofAutomaton grammar automaton anyLookahead = .ok table)
    (clean : table.log.conflicts = #[]) {word : List Symbol} {number : Nat}
    (leads : automaton.Leads word number) :
    RowFilling.Complete grammar anyLookahead (automaton.state number)
      (table.filling number) := by
  obtain ⟨rows, -, -⟩ := ofAutomaton_eq_ok result
  have filled := filled_of_fillFirst wellFormed framed terminated
    (Nat.le_refl _) rows
  have inside := framed.lt_size leads
  obtain ⟨before, after, entered, logged⟩ := filled.row number inside
    (framed.reachable_iff.mpr ⟨word, leads⟩)
  obtain ⟨-, complete⟩ := RowFilling.complete_ofState wellFormed
    (framed.edged wellFormed number) (terminated number inside) entered
    (logged clean)
  exact ⟨complete.reduce, complete.accept, complete.shift⟩

theorem log_eq_empty (wellFormed : grammar.WellFormed)
    (framed : automaton.Framed grammar)
    (terminated : automaton.Terminated grammar) {table : Table}
    (result : ofAutomaton grammar automaton anyLookahead = .ok table)
    (clean : table.log.conflicts = #[]) : table.log = ConflictLog.empty := by
  obtain ⟨rows, -, -⟩ := ofAutomaton_eq_ok result
  exact (filled_of_fillFirst wellFormed framed terminated (Nat.le_refl _)
    rows).log clean

/-- The log of the first rows tells which reductions compete, and nothing
else. -/
structure Tells (grammar : Grammar) (anyLookahead : Bool)
    (automaton : Automaton) (count : Nat) (log : ConflictLog) : Prop where
  counted : log.Counted
  competes : ∀ conflict ∈ log.conflicts,
    (∃ word, automaton.Leads word conflict.state) ∧
      conflict.Competes grammar anyLookahead (automaton.state conflict.state)
  logged : ∀ word, ∀ number < count, automaton.Leads word number →
    ∀ rule other terminal,
      (automaton.state number).Reduces grammar anyLookahead rule terminal →
      (automaton.state number).Reduces grammar anyLookahead other terminal →
      rule ≠ other →
        ∃ conflict ∈ log.conflicts, conflict.Concerns number terminal rule

theorem tells_empty :
    Tells grammar anyLookahead automaton 0 ConflictLog.empty := by
  constructor
  · rfl
  · intro conflict member
    exact absurd member (Array.not_mem_empty conflict)
  · intro word number inside
    exact absurd inside (Nat.not_lt_zero number)

theorem Tells.next {count : Nat} {log : ConflictLog} {final : RowFilling}
    (tells : Tells grammar anyLookahead automaton count log)
    (reachable : ∃ word, automaton.Leads word count)
    (recorded : RowFilling.Recorded grammar anyLookahead count
      (automaton.state count) log
      (Entry.ofState grammar anyLookahead (automaton.state count)).reverse
      final) :
    Tells grammar anyLookahead automaton (count + 1) final.log := by
  constructor
  · exact recorded.counted tells.counted
  · intro conflict member
    rcases recorded.competes conflict member with old | ⟨rfl, competes⟩
    · exact tells.competes conflict old
    · exact ⟨reachable, competes⟩
  · intro word number inside leads rule other terminal reduces otherReduces
      different
    rcases Nat.lt_succ_iff_lt_or_eq.mp inside with before | rfl
    · obtain ⟨conflict, member, concerns⟩ := tells.logged word number before
        leads rule other terminal reduces otherReduces different
      exact ⟨conflict, recorded.keeps conflict member, concerns⟩
    · apply recorded.logged rule other terminal _ _ different
      · exact List.mem_reverse.mpr (State.reduce_mem_entries.mpr reduces)
      · exact List.mem_reverse.mpr (State.reduce_mem_entries.mpr otherReduces)

theorem Tells.skip {count : Nat} {log : ConflictLog}
    (tells : Tells grammar anyLookahead automaton count log)
    (unreachable : ∀ word, ¬ automaton.Leads word count) :
    Tells grammar anyLookahead automaton (count + 1) log := by
  refine ⟨tells.counted, tells.competes, ?_⟩
  intro word number inside leads
  rcases Nat.lt_succ_iff_lt_or_eq.mp inside with before | rfl
  · exact tells.logged word number before leads
  · exact absurd leads (unreachable word)

/-- If reductions compete with each other at most, there is a table, and its
log tells where they do. -/
theorem ofAutomaton_of_tame (wellFormed : grammar.WellFormed)
    (framed : automaton.Framed grammar)
    (terminated : automaton.Terminated grammar)
    (tame : ∀ word number, automaton.Leads word number →
      (automaton.state number).Tame grammar anyLookahead) :
    ∃ table, ofAutomaton grammar automaton anyLookahead = .ok table ∧
      Tells grammar anyLookahead automaton automaton.size table.log := by
  have first : ∀ count ≤ automaton.size, ∃ rows log,
      fillFirst grammar anyLookahead automaton count = .ok (rows, log) ∧
        Tells grammar anyLookahead automaton count log := by
    intro count inside
    induction count with
    | zero => exact ⟨#[], ConflictLog.empty, rfl, tells_empty⟩
    | succ count ih =>
        obtain ⟨rows, log, before, tells⟩ := ih (by omega)
        rw [fillFirst_succ, before]
        simp only [Except.bind, fillRow]
        by_cases reachable : automaton.reachable.getD count false = true
        · rw [if_pos reachable]
          obtain ⟨word, leads⟩ := framed.reachable_iff.mp reachable
          obtain ⟨final, entered, recorded⟩ :=
            RowFilling.ofState_of_tame wellFormed
              (framed.edged wellFormed count) (terminated count (by omega))
              (tame word count leads) count log
          refine ⟨rows.push final.row, final.log, ?_,
            tells.next ⟨word, leads⟩ recorded⟩
          rw [entered]
          rfl
        · rw [if_neg reachable]
          refine ⟨_, log, rfl, tells.skip ?_⟩
          exact fun word leads =>
            reachable (framed.reachable_iff.mpr ⟨word, leads⟩)
  obtain ⟨rows, log, filled, tells⟩ := first automaton.size (Nat.le_refl _)
  rw [ofAutomaton, fillRows_eq, filled]
  exact ⟨_, rfl, tells⟩

/-- Without competing actions there is a table without conflicts. -/
theorem ofAutomaton_of_unambiguous (wellFormed : grammar.WellFormed)
    (framed : automaton.Framed grammar)
    (terminated : automaton.Terminated grammar)
    (unambiguous : ∀ word number, automaton.Leads word number →
      (automaton.state number).Unambiguous grammar anyLookahead) :
    ∃ table, ofAutomaton grammar automaton anyLookahead = .ok table ∧
      table.log = ConflictLog.empty := by
  obtain ⟨table, filled, tells⟩ := ofAutomaton_of_tame wellFormed framed
    terminated fun word number leads => (unambiguous word number leads).tame
  refine ⟨table, filled,
    log_eq_empty wellFormed framed terminated filled ?_⟩
  apply Array.eq_empty_iff_forall_not_mem.mpr
  intro conflict member
  obtain ⟨⟨word, leads⟩, competes⟩ := tells.competes conflict member
  obtain ⟨other, -, different, reduces, otherReduces⟩ := competes.exists_other
  exact different ((unambiguous word conflict.state leads).reduceReduce other
    conflict.reduce conflict.lookahead otherReduces reduces)

end Table

end LRTables
