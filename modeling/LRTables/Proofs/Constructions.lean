import LRTables.Construction
import LRTables.Proofs.FaithfulAutomata

/-!
# Constructions

Whatever way a table is constructed, it is the table of an adequate automaton,
and with lookaheads of a faithful one.
-/

namespace LRTables

open Automaton

namespace Construction

variable {grammar : Grammar} {first : FirstSets} {output : Output}
  (wellFormed : grammar.WellFormed) (unused : grammar.GoalUnused)
  (exact : first.Exact grammar)

/-- The table is that of an adequate automaton. -/
def Adequate (grammar : Grammar) (table : Table) : Prop :=
  ∃ anyLookahead, ∃ automaton : Automaton,
    automaton.Adequate grammar anyLookahead ∧
      Table.ofAutomaton grammar automaton anyLookahead = .ok table

theorem collect?_of_collect {precision : Precision} {automaton : Automaton}
    (result : collect grammar first precision = .ok automaton) :
    collect? grammar first precision = some automaton := by
  rw [collect] at result
  split at result
  · rename_i found
    cases result
    exact found
  · cases result

theorem collect_of_collect? {precision : Precision} {automaton : Automaton}
    (found : collect? grammar first precision = some automaton) :
    collect grammar first precision = .ok automaton := by
  rw [collect, found]

include wellFormed unused exact in
theorem adequate_plain (result : plain grammar first = .ok output) :
    Adequate grammar output.table := by
  rw [plain] at result
  obtain ⟨automaton, collected, result⟩ := ok_of_bind result
  obtain ⟨table, filled, final⟩ := ok_of_bind result
  cases final
  exact ⟨true, automaton, adequate_of_collect? wellFormed unused exact
    (collect?_of_collect collected), filled⟩

/-- With lookaheads, the automaton is faithful, and the table is that of a
faithful automaton. -/
structure Faithful (grammar : Grammar) (first : FirstSets)
    (output : Output) : Prop where
  automaton : output.automaton.Faithful grammar first
  table : ∃ automaton : Automaton, automaton.Faithful grammar first ∧
    Table.ofAutomaton grammar automaton false = .ok output.table

include wellFormed unused exact in
theorem Faithful.adequate (faithful : Faithful grammar first output) :
    Adequate grammar output.table := by
  obtain ⟨automaton, source, filled⟩ := faithful.table
  exact ⟨false, automaton, source.adequate wellFormed unused exact, filled⟩

theorem collect?_of_withLookaheads {precision : Precision}
    (result : withLookaheads grammar first precision = .ok output) :
    Automaton.collect? grammar first precision = some output.automaton ∧
      Table.ofAutomaton grammar output.automaton false =
        .ok output.table := by
  rw [withLookaheads] at result
  obtain ⟨automaton, collected, result⟩ := ok_of_bind result
  obtain ⟨table, filled, final⟩ := ok_of_bind result
  cases final
  exact ⟨collect?_of_collect collected, filled⟩

include wellFormed unused exact in
theorem faithful_withLookaheads {precision : Precision}
    (tracks : precision.tracksContexts = true)
    (result : withLookaheads grammar first precision = .ok output) :
    Faithful grammar first output := by
  obtain ⟨collected, filled⟩ := collect?_of_withLookaheads result
  have faithful :=
    faithful_of_collect? wellFormed unused exact tracks collected
  exact ⟨faithful, output.automaton, faithful, filled⟩

include wellFormed unused exact in
theorem faithful_split {limit : Nat} {strategy : SplitStrategy}
    {base automaton : Automaton} {log : ConflictLog} {splitting : Splitting}
    (traced : TracedFrom grammar first base automaton)
    (unrolled : base.All (State.Unrolled grammar))
    (result : split limit grammar first strategy
      (automaton.markConflictLanes grammar first log).1
      (automaton.markConflictLanes grammar first log).2 = .ok splitting) :
    splitting.automaton.Faithful grammar first := by
  have marked := traced.mark log
  have intact := marked.intact wellFormed unused exact
  have faithful := marked.faithful wellFormed unused exact unrolled
  have all := faithful.all
  cases strategy with
  | pager =>
      obtain ⟨done, divided, regenerated⟩ := ok_of_bind result
      have sustains :=
        (sustains_evident wellFormed unused exact True).unrolled
      have kept := PagerSplitting.kept_splitByPager wellFormed unused exact
        sustains intact marked.enlarges all divided
      exact Splitting.faithful_regenerate wellFormed unused exact kept
        regenerated
  | clusters =>
      obtain ⟨done, divided, regenerated⟩ := ok_of_bind result
      have genuine := Region.genuine_mark traced log
      have sustains :=
        (sustains_evident wellFormed unused exact False).unrolled
      have kept := ClusterSplitting.kept_splitByClusters wellFormed unused
        exact sustains genuine intact marked.enlarges all divided
      exact Splitting.faithful_regenerate wellFormed unused exact kept
        regenerated

/-- What comes of a traced automaton: its own table, or the table of a split if
there are reduce/reduce conflicts and lanes that lead to them. -/
inductive Yields (limit : Nat) (grammar : Grammar) (first : FirstSets)
    (tracing : Tracing) (output : Output) : Option SplitStrategy → Prop where
  | unsplit {chosen : Option SplitStrategy} :
      Table.ofAutomaton grammar tracing.automaton false = .ok output.table →
      output.automaton = tracing.automaton →
      chosen = none ∨ output.table.log.reduceReduce = 0 →
      Yields limit grammar first tracing output chosen
  | unaffected {strategy : SplitStrategy} :
      Table.ofAutomaton grammar tracing.automaton false = .ok output.table →
      output.automaton = (tracing.automaton.markConflictLanes grammar first
        output.table.log).1 →
      (tracing.automaton.markConflictLanes grammar first
        output.table.log).2.isEmpty = true →
      Yields limit grammar first tracing output (some strategy)
  | split {strategy : SplitStrategy} {table : Table} {done : Splitting} :
      Table.ofAutomaton grammar tracing.automaton false = .ok table →
      table.log.reduceReduce ≠ 0 →
      (tracing.automaton.markConflictLanes grammar first
        table.log).2.isEmpty = false →
      Construction.split limit grammar first strategy
        (tracing.automaton.markConflictLanes grammar first table.log).1
        (tracing.automaton.markConflictLanes grammar first table.log).2 =
          .ok done →
      output.automaton = done.automaton →
      Table.ofAutomaton grammar done.automaton false = .ok output.table →
      Yields limit grammar first tracing output (some strategy)

theorem yields_of_ofTraced {limit lr0States : Nat}
    {chosen : Option SplitStrategy} {tracing : Tracing}
    (result : ofTraced limit grammar first chosen lr0States tracing =
      .ok output) : Yields limit grammar first tracing output chosen := by
  rw [ofTraced] at result
  obtain ⟨table, filled, result⟩ := ok_of_bind result
  cases chosen with
  | none =>
      cases result
      exact .unsplit filled rfl (Or.inl rfl)
  | some strategy =>
      dsimp only at result
      split at result
      · rename_i none
        cases result
        exact .unsplit filled rfl (Or.inr none)
      · rename_i contested
        split at result
        · rename_i unaffected
          cases result
          exact .unaffected filled rfl unaffected
        · rename_i affected
          obtain ⟨done, divided, result⟩ := ok_of_bind result
          obtain ⟨last, lastFilled, final⟩ := ok_of_bind result
          cases final
          exact .split filled contested (Bool.not_eq_true _ ▸ affected) divided
            rfl lastFilled

include wellFormed unused exact in
theorem faithful_ofTraced {limit lr0States : Nat}
    {strategy : Option SplitStrategy} {base : Automaton} {tracing : Tracing}
    (traced : TracedFrom grammar first base tracing.automaton)
    (unrolled : base.All (State.Unrolled grammar))
    (result : ofTraced limit grammar first strategy lr0States tracing =
      .ok output) :
    Faithful grammar first output := by
  have faithful := traced.faithful wellFormed unused exact unrolled
  cases yields_of_ofTraced result with
  | unsplit filled same =>
      exact ⟨same ▸ faithful, tracing.automaton, faithful, filled⟩
  | unaffected filled same =>
      have marked := (traced.mark output.table.log).faithful wellFormed unused
        exact unrolled
      exact ⟨same ▸ marked, tracing.automaton, faithful, filled⟩
  | split _ _ _ divided same filled =>
      have split :=
        faithful_split wellFormed unused exact traced unrolled divided
      exact ⟨same ▸ split, _, split, filled⟩

theorem unsplit_of_ofTraced {limit lr0States : Nat} {tracing : Tracing}
    (result : ofTraced limit grammar first none lr0States tracing =
      .ok output) :
    output.automaton = tracing.automaton ∧
      Table.ofAutomaton grammar tracing.automaton false =
        .ok output.table := by
  cases yields_of_ofTraced result with
  | unsplit filled same => exact ⟨same, filled⟩

theorem exists_base_of_byLanes {limit : Nat}
    {strategy : Option SplitStrategy}
    (result : (byLanes limit grammar first strategy).built = .ok output) :
    ∃ base : Automaton,
      Automaton.collect? grammar first .lr0 = some base ∧
        ofTraced limit grammar first strategy base.reachableStates.length
          (base.traceLanes grammar first) = .ok output := by
  rw [byLanes] at result
  split at result
  · cases result
  · rename_i base collected
    exact ⟨base, collect?_of_collect collected, result⟩

theorem built_byLanes {limit : Nat} {strategy : Option SplitStrategy}
    {base : Automaton}
    (collected : Automaton.collect? grammar first .lr0 = some base) :
    (byLanes limit grammar first strategy).built =
      ofTraced limit grammar first strategy base.reachableStates.length
        (base.traceLanes grammar first) := by
  rw [byLanes, collect_of_collect? collected]

include wellFormed unused exact in
theorem tracedFrom_of_collect? {base : Automaton}
    (collected : Automaton.collect? grammar first .lr0 = some base) :
    TracedFrom grammar first base (base.traceLanes grammar first).automaton ∧
      base.All (State.Unrolled grammar) := by
  have lookaheadless :=
    lookaheadless_of_collect? wellFormed unused exact collected
  have unrolled := collected_of_collect? wellFormed unused exact
    (Collecting.keeps_unrolled wellFormed unused exact) collected
  exact ⟨lookaheadless.tracedFrom wellFormed unused,
    fun number inside => (unrolled.states number inside).2⟩

include wellFormed unused exact in
theorem faithful_byLanes {limit : Nat} {strategy : Option SplitStrategy}
    (result : (byLanes limit grammar first strategy).built = .ok output) :
    Faithful grammar first output := by
  obtain ⟨base, collected, result⟩ := exists_base_of_byLanes result
  obtain ⟨traced, unrolled⟩ :=
    tracedFrom_of_collect? wellFormed unused exact collected
  exact faithful_ofTraced wellFormed unused exact traced unrolled result

end Construction

namespace Grammar

variable {grammar : Grammar} {options : Options} {output : Output}
  (wellFormed : grammar.WellFormed) (unused : grammar.GoalUnused)

theorem tracksContexts_precision (options : Options) :
    options.precision.tracksContexts = true := by
  rw [Options.precision]
  split <;> rfl

include wellFormed unused in
theorem faithful_constructWithin {limit : Nat} (mode : options.mode ≠ .lr0)
    (result : (grammar.constructWithin limit options).built = .ok output) :
    Construction.Faithful grammar (FirstSets.ofGrammar grammar) output := by
  have exact := FirstSets.exact_ofGrammar wellFormed
  rw [constructWithin] at result
  split at result
  · rename_i plain
    exact absurd plain mode
  · exact Construction.faithful_withLookaheads wellFormed unused exact
      (tracksContexts_precision options) result
  · exact Construction.faithful_byLanes wellFormed unused exact result
  · exact Construction.faithful_byLanes wellFormed unused exact result

include wellFormed unused in
theorem adequate_constructWithin {limit : Nat}
    (result : (grammar.constructWithin limit options).built = .ok output) :
    Construction.Adequate grammar output.table := by
  have exact := FirstSets.exact_ofGrammar wellFormed
  by_cases mode : options.mode = .lr0
  · rw [constructWithin, mode] at result
    exact Construction.adequate_plain wellFormed unused exact result
  · exact (faithful_constructWithin wellFormed unused mode result).adequate
      wellFormed unused exact

theorem built_of_generateWithin {limit : Nat}
    (result : grammar.generateWithin limit options = .ok output) :
    (grammar.constructWithin limit options).built = .ok output := by
  rw [generateWithin] at result
  obtain ⟨built, construction, checked⟩ := ok_of_bind result
  rw [checkExpected] at checked
  split at checked
  · cases checked
  · cases checked
    exact construction

theorem generateWithin_of_built {limit : Nat}
    (lenient : options.strict = false)
    (built : (grammar.constructWithin limit options).built = .ok output) :
    grammar.generateWithin limit options = .ok output := by
  rw [generateWithin, built]
  show grammar.checkExpected options output = _
  rw [checkExpected, lenient]
  rfl

include wellFormed unused in
theorem adequate_generateWithin {limit : Nat}
    (result : grammar.generateWithin limit options = .ok output) :
    Construction.Adequate grammar output.table :=
  adequate_constructWithin wellFormed unused (built_of_generateWithin result)

end Grammar

end LRTables
