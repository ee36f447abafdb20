import LRTables.Proofs.Contests
import LRTables.Proofs.GeneratedParsers

/-!
# Contested tables

Every contest for a cell of a table is decided and logged, whatever automaton
the table was filled from, and the counts of its log are those of the
conflicts.
-/

namespace LRTables

namespace Automaton

variable {grammar : Grammar} {automaton : Automaton}

/-- The automata from which tables are filled, and whether lookaheads are left
out of account. -/
inductive Tabulated (grammar : Grammar) : Automaton → Bool → Prop
  | plain {automaton : Automaton} :
      collect? grammar (FirstSets.ofGrammar grammar) .lr0 = some automaton →
      Tabulated grammar automaton true
  | withLookaheads {options : Options} {automaton : Automaton} :
      collect? grammar (FirstSets.ofGrammar grammar) options.precision =
        some automaton →
      Tabulated grammar automaton false
  | traced {base : Automaton} :
      collect? grammar (FirstSets.ofGrammar grammar) .lr0 = some base →
      Tabulated grammar
        (base.traceLanes grammar (FirstSets.ofGrammar grammar)).automaton false
  | split {base marked : Automaton} {region : Region} {table : Table}
      {limit : Nat} {strategy : SplitStrategy} {splitting : Splitting} :
      collect? grammar (FirstSets.ofGrammar grammar) .lr0 = some base →
      Table.ofAutomaton grammar
        (base.traceLanes grammar (FirstSets.ofGrammar grammar)).automaton
          false = .ok table →
      (base.traceLanes grammar
        (FirstSets.ofGrammar grammar)).automaton.markConflictLanes grammar
          (FirstSets.ofGrammar grammar) table.log = (marked, region) →
      Construction.split limit grammar (FirstSets.ofGrammar grammar) strategy
        marked region = .ok splitting →
      Tabulated grammar splitting.automaton false

theorem Tabulated.adequate {anyLookahead : Bool}
    (wellFormed : grammar.WellFormed) (unused : grammar.GoalUnused)
    (tabulated : automaton.Tabulated grammar anyLookahead) :
    automaton.Adequate grammar anyLookahead := by
  have exact := FirstSets.exact_ofGrammar wellFormed
  cases tabulated with
  | plain collected =>
      exact adequate_of_collect? wellFormed unused exact collected
  | withLookaheads collected =>
      exact adequate_of_collect?_tracks wellFormed unused exact
        (Grammar.tracksContexts_precision _) collected
  | traced collected =>
      obtain ⟨traced, unrolled⟩ := Construction.tracedFrom_of_collect?
        wellFormed unused exact collected
      exact (traced.faithful wellFormed unused exact unrolled).adequate
        wellFormed unused exact
  | @split base marked region table limit strategy splitting collected filled
      marks divided =>
      obtain ⟨traced, unrolled⟩ := Construction.tracedFrom_of_collect?
        wellFormed unused exact collected
      have faithful := @Construction.faithful_split grammar _ wellFormed unused
        exact limit strategy base _ table.log splitting traced unrolled
        (by rw [marks]; exact divided)
      exact faithful.adequate wellFormed unused exact

theorem Framed.successor?_endOfInput (framed : automaton.Framed grammar)
    (endUnused : grammar.EndUnused) (number : Nat) :
    (automaton.state number).successor? (.terminal Terminal.endOfInput) =
      none := by
  cases edge : (automaton.state number).successor?
      (.terminal Terminal.endOfInput) with
  | none => rfl
  | some target =>
      have scans := framed.scanned number _ target edge
      obtain ⟨item, -, scanned⟩ := State.mem_scannedSymbols.mp scans
      exact absurd (Item.scanned_mem_right scanned)
        (endUnused.not_mem_right item.rule)

end Automaton

namespace Table

variable {grammar : Grammar} {automaton : Automaton} {anyLookahead : Bool}
  {table : Table} {filled more : Array (Array Action) × ConflictLog}
  {count : Nat}

/-- How the contests stand when the first rows are filled. -/
structure Contested (grammar : Grammar) (anyLookahead : Bool)
    (automaton : Automaton) (count : Nat)
    (filled : Array (Array Action) × ConflictLog) : Prop where
  size : filled.1.size = count
  contests : ∀ number < count, automaton.reachable.getD number false = true →
    (automaton.state number).Contested grammar anyLookahead
      (RowFilling.mk (filled.1.getD number #[]) filled.2).cell
      (filled.2.loggedAt number)
  blank : ∀ number, automaton.reachable.getD number false ≠ true →
    ∀ column, (RowFilling.mk (filled.1.getD number #[]) filled.2).cell column =
      .error
  fresh : ∀ number terminal, count ≤ number ∨
    automaton.reachable.getD number false ≠ true →
      filled.2.loggedAt number terminal = 0
  recounted : filled.2.Recounted

theorem contested_empty :
    Contested grammar anyLookahead automaton 0 (#[], .empty) := by
  constructor
  · rfl
  · intro number inside
    exact absurd inside (Nat.not_lt_zero number)
  · intro number _ column
    rfl
  · intro number terminal _
    rfl
  · exact ConflictLog.recounted_empty

/-- The row of a reachable state comes next. -/
theorem Contested.push {rows : Array (Array Action)} {log later : ConflictLog}
    {row : Array Action}
    (contested :
      Contested grammar anyLookahead automaton count (rows, log))
    (reachable : automaton.reachable.getD count false = true)
    (own : (automaton.state count).Contested grammar anyLookahead
      (RowFilling.mk row later).cell (later.loggedAt count))
    (elsewhere : ∀ other terminal, other ≠ count →
      later.loggedAt other terminal = log.loggedAt other terminal)
    (recount : later.Recounted) :
    Contested grammar anyLookahead automaton (count + 1)
      (rows.push row, later) := by
  obtain ⟨size, contests, blank, fresh, -⟩ := contested
  dsimp only at size contests blank fresh
  have getD (number : Nat) : (rows.push row).getD number #[] =
      if number = count then row else rows.getD number #[] := by
    rw [getD_push, size]
  constructor
  · simp [size]
  · intro number isNumber isReachable
    dsimp only
    rw [getD]
    by_cases same : number = count
    · subst same
      rw [if_pos rfl]
      exact own
    · rw [if_neg same]
      have logged : later.loggedAt number = log.loggedAt number :=
        funext fun terminal => elsewhere number terminal same
      rw [logged]
      exact contests number (by omega) isReachable
  · intro number unreachable column
    dsimp only
    have different : number ≠ count := fun same =>
      unreachable (same ▸ reachable)
    rw [getD, if_neg different]
    exact blank number unreachable column
  · intro number terminal idle
    dsimp only
    rcases idle with after | unreachable
    · rw [elsewhere number terminal (by omega)]
      exact fresh number terminal (Or.inl (by omega))
    · rw [elsewhere number terminal
        fun same => unreachable (same ▸ reachable)]
      exact fresh number terminal (Or.inr unreachable)
  · exact recount

/-- The blank row of a state that is not reachable comes next. -/
theorem Contested.pushBlank {rows : Array (Array Action)} {log : ConflictLog}
    (contested :
      Contested grammar anyLookahead automaton count (rows, log))
    (unreachable : automaton.reachable.getD count false ≠ true)
    (width : Nat) :
    Contested grammar anyLookahead automaton (count + 1)
      (rows.push (Array.replicate width .error), log) := by
  obtain ⟨size, contests, blank, fresh, recounted⟩ := contested
  dsimp only at size contests blank fresh recounted
  constructor
  · simp [size]
  · intro number isNumber isReachable
    have different : number ≠ count := fun same =>
      unreachable (same ▸ isReachable)
    dsimp only
    rw [getD_push, size, if_neg different]
    exact contests number (by omega) isReachable
  · intro number idle column
    dsimp only
    rw [getD_push]
    split
    · simp only [RowFilling.cell, Array.getD_eq_getD_getElem?,
        Array.getElem?_replicate]
      split <;> rfl
    · exact blank number idle column
  · intro number terminal idle
    apply fresh number terminal
    rcases idle with after | unreachable
    · exact Or.inl (by omega)
    · exact Or.inr unreachable
  · exact recounted

section Contested

variable (wellFormed : grammar.WellFormed) (unused : grammar.GoalUnused)
  (endUnused : grammar.EndUnused)
  (adequate : automaton.Adequate grammar anyLookahead)

include wellFormed unused endUnused adequate in
theorem Contested.next (inside : count < automaton.size)
    (contested : Contested grammar anyLookahead automaton count filled)
    (result : fillRow grammar anyLookahead automaton filled count =
      .ok more) :
    Contested grammar anyLookahead automaton (count + 1) more := by
  obtain ⟨rows, log⟩ := filled
  simp only [fillRow] at result
  by_cases reachable : automaton.reachable.getD count false = true
  · rw [if_pos reachable] at result
    obtain ⟨final, made, isMore⟩ := ok_of_bind result
    cases isMore
    have framed := adequate.framed
    obtain ⟨word, leads⟩ := framed.reachable_iff.mp reachable
    have within : ∀ item ∈ (automaton.state count).items,
        item.dot ≤ (grammar.right item.rule).length := fun item member =>
      ((framed.mem_items wellFormed unused leads).mp member).dot_le
    obtain ⟨own, elsewhere, recount⟩ := RowFilling.contests_ofState wellFormed
      (framed.edged wellFormed count) (adequate.terminated count inside)
      (framed.successor?_endOfInput endUnused count)
      (framed.regular count inside).distinct within
      (fun terminal => contested.fresh count terminal
        (Or.inl (Nat.le_refl count))) made
    exact contested.push reachable own elsewhere (recount contested.recounted)
  · rw [if_neg reachable] at result
    cases result
    exact contested.pushBlank reachable _

include wellFormed unused endUnused adequate in
theorem contested_fillFirst (inside : count ≤ automaton.size)
    (result : fillFirst grammar anyLookahead automaton count = .ok filled) :
    Contested grammar anyLookahead automaton count filled := by
  induction count generalizing filled with
  | zero =>
      cases result
      exact contested_empty
  | succ count ih =>
      rw [fillFirst_succ] at result
      obtain ⟨earlier, before, last⟩ := ok_of_bind result
      exact (ih (by omega) before).next wellFormed unused endUnused adequate
        (by omega) last

end Contested

end Table

namespace Grammar

variable {grammar : Grammar} {options : Options} {output : Output}

/-- What is generated is a table of one of the automata from which tables are
filled. -/
theorem tabulated_of_generateWithin {limit : Nat}
    (result : grammar.generateWithin limit options = .ok output) :
    ∃ automaton anyLookahead,
      Automaton.Tabulated grammar automaton anyLookahead ∧
        Table.ofAutomaton grammar automaton anyLookahead =
          .ok output.table := by
  have built := built_of_generateWithin result
  have byLanes {strategy : Option SplitStrategy}
      (result : (Construction.byLanes limit grammar
        (FirstSets.ofGrammar grammar) strategy).built = .ok output) :
      ∃ automaton anyLookahead,
        Automaton.Tabulated grammar automaton anyLookahead ∧
          Table.ofAutomaton grammar automaton anyLookahead =
            .ok output.table := by
    obtain ⟨base, collected, traced⟩ :=
      Construction.exists_base_of_byLanes result
    cases Construction.yields_of_ofTraced traced with
    | unsplit filled => exact ⟨_, false, .traced collected, filled⟩
    | unaffected filled => exact ⟨_, false, .traced collected, filled⟩
    | split filled _ _ divided _ splitFilled =>
        exact ⟨_, false, .split collected filled rfl divided, splitFilled⟩
  rw [constructWithin] at built
  split at built
  · obtain ⟨automaton, collected, built⟩ := ok_of_bind built
    obtain ⟨table, filled, final⟩ := ok_of_bind built
    cases final
    exact ⟨automaton, true,
      .plain (Construction.collect?_of_collect collected), filled⟩
  · obtain ⟨collected, filled⟩ :=
      Construction.collect?_of_withLookaheads built
    exact ⟨_, false, .withLookaheads collected, filled⟩
  · exact byLanes built
  · exact byLanes built

end Grammar

/-- In every table that a construction fills, the actions that a reachable
state offers on a terminal compete for the cell: one of them gets it, if there
is any, and each but the first is logged once.  The rows of the other states
are blank, and the counts of the log are those of its conflicts. -/
theorem contests_logged {grammar : Grammar} (accepted : grammar.Accepted)
    (unused : grammar.GoalUnused) (endUnused : grammar.EndUnused) :
    (∀ automaton anyLookahead table,
      Automaton.Tabulated grammar automaton anyLookahead →
      Table.ofAutomaton grammar automaton anyLookahead = .ok table →
        (∀ word number, automaton.Leads word number →
          ∀ terminal < grammar.terminals.size, ∃ contenders : Finset Action,
            (∀ action, action ∈ contenders ↔
              (automaton.state number).Contends grammar anyLookahead terminal
                action) ∧
            Contest contenders (table.cell number terminal)
              (table.log.loggedAt number terminal)) ∧
        (∀ number, (∀ word, ¬ automaton.Leads word number) →
          ∀ column, table.cell number column = .error) ∧
        table.log.Recounted) ∧
    ∀ limit options output, grammar.generateWithin limit options = .ok output →
      ∃ automaton anyLookahead,
        Automaton.Tabulated grammar automaton anyLookahead ∧
          Table.ofAutomaton grammar automaton anyLookahead =
            .ok output.table := by
  have wellFormed := accepted.wellFormed
  refine ⟨?_, fun _ _ _ => Grammar.tabulated_of_generateWithin⟩
  intro automaton anyLookahead table tabulated filled
  have adequate := tabulated.adequate wellFormed unused
  have framed := adequate.framed
  have contested := Table.contested_fillFirst wellFormed unused endUnused
    adequate (Nat.le_refl _) (Table.ofAutomaton_eq_ok filled).1
  refine ⟨?_, ?_, contested.recounted⟩
  · intro word number leads
    exact contested.contests number (framed.lt_size leads)
      (framed.reachable_iff.mpr ⟨word, leads⟩)
  · intro number unreachable
    apply contested.blank number
    intro reachable
    obtain ⟨word, leads⟩ := framed.reachable_iff.mp reachable
    exact unreachable word leads

/-- After `a` a shift and two reductions compete for the cell of `t`. -/
theorem contests_logged_overtaken : ∃ output contenders,
    Grammar.overtaken.generateWithin 0 .standard = .ok output ∧
      Automaton.Tabulated .overtaken output.automaton false ∧
      Table.ofAutomaton .overtaken output.automaton false =
        .ok output.table ∧
      output.automaton.Leads [.terminal 2] 2 ∧
      (∀ action, action ∈ contenders ↔
        (output.automaton.state 2).Contends .overtaken false 3 action) ∧
      Contest contenders (output.table.cell 2 3)
        (output.table.log.loggedAt 2 3) ∧
      contenders.card = 3 ∧
      output.table.cell 2 3 = .reduce 1 ∧
      output.table.log.loggedAt 2 3 = 2 ∧
      output.table.log.Recounted := by
  obtain ⟨output, result, leads, -, cell, conflicts, -⟩ :=
    exists_output_overtaken
  obtain ⟨collected, filled⟩ := Construction.collect?_of_withLookaheads
    (Grammar.built_of_generateWithin result)
  have tabulated : Automaton.Tabulated .overtaken output.automaton false :=
    .withLookaheads collected
  obtain ⟨contests, -, recounted⟩ :=
    (contests_logged accepted_overtaken goalUnused_overtaken
      endUnused_overtaken).1 output.automaton false output.table tabulated
      filled
  obtain ⟨contenders, mem_contenders, contest⟩ :=
    contests [.terminal 2] 2 leads 3 (by decide)
  have logged : output.table.log.loggedAt 2 3 = 2 := by
    have counted := congrArg (Array.countP fun place => decide
      (place.1 = 2 ∧ place.2 = 3)) conflicts
    rwa [Array.countP_map] at counted
  have card : contenders.card = 3 := by
    have others := contest.logged
    omega
  exact ⟨output, contenders, result, tabulated, filled, leads, mem_contenders,
    contest, card, cell, logged, recounted⟩

end LRTables
