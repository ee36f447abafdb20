import LRTables.Proofs.Constructions
import LRTables.Proofs.PropagationSteps
import LRTables.Proofs.SplitSteps

/-!
# Failures

A construction may run into its limits, and a table may be refused, but no
transition ever brings an item that its target does not have.
-/

namespace LRTables

/-- The result is no failure for want of a core configuration. -/
def FindsCores {Value : Type} (result : Except ConstructionError Value) :
    Prop :=
  ∀ state rule dot, result ≠ .error (.missingCore state rule dot)

/-- Where a fold fails, one of its steps does. -/
theorem exists_error_of_foldlM {Value Entry : Type}
    {step : Value → Entry → Except ConstructionError Value}
    {entries : List Entry} {initial : Value} {error : ConstructionError}
    (failed : entries.foldlM step initial = .error error) :
    ∃ value entry, step value entry = .error error := by
  induction entries generalizing initial with
  | nil => cases failed
  | cons entry rest ih =>
      rw [List.foldlM_cons] at failed
      cases result : step initial entry with
      | error other =>
          rw [result] at failed
          cases failed
          exact ⟨initial, entry, result⟩
      | ok value =>
          rw [result] at failed
          exact ih failed

namespace FindsCores

variable {Value Result Entry : Type}

theorem ok (value : Value) : FindsCores (.ok value) := by
  intro state rule dot failure
  cases failure

theorem error {error : ConstructionError}
    (other : ∀ state rule dot, error ≠ .missingCore state rule dot) :
    FindsCores (.error error : Except ConstructionError Value) := by
  intro state rule dot failure
  cases failure
  exact other state rule dot rfl

theorem unfinished :
    FindsCores (.error .unfinished : Except ConstructionError Value) := by
  apply error
  intro state rule dot same
  cases same

theorem bind {source : Except ConstructionError Value}
    {next : Value → Except ConstructionError Result}
    (before : FindsCores source)
    (after : ∀ value, source = .ok value → FindsCores (next value)) :
    FindsCores (source.bind next) := by
  cases source with
  | error failed =>
      intro state rule dot failure
      cases failure
      exact before state rule dot rfl
  | ok value => exact after value rfl

theorem foldlM {step : Value → Entry → Except ConstructionError Value}
    (each : ∀ value entry, FindsCores (step value entry))
    (entries : List Entry) (initial : Value) :
    FindsCores (entries.foldlM step initial) := by
  intro state rule dot failed
  obtain ⟨value, entry, failed⟩ := exists_error_of_foldlM failed
  exact each value entry state rule dot failed

end FindsCores

namespace RowFilling

variable {grammar : Grammar} {anyLookahead : Bool} {filling : RowFilling}

theorem findsCores_clash {state rule : Nat} :
    FindsCores (.error (.acceptReduceClash state rule) :
      Except ConstructionError RowFilling) := by
  apply FindsCores.error
  intro _ _ _ same
  cases same

theorem findsCores_addAccept (state : Nat) :
    FindsCores (filling.addAccept anyLookahead state) := by
  unfold addAccept
  dsimp only
  split
  · split
    · exact .ok _
    · exact findsCores_clash
  · exact .ok _

theorem findsCores_addReduce (state rule terminal : Nat) :
    FindsCores (addReduce grammar anyLookahead state rule filling
      terminal) := by
  unfold addReduce
  dsimp only
  split
  · exact .ok _
  · split
    · exact .ok _
    · exact .ok _
  · split
    · exact .ok _
    · exact findsCores_clash
  · split
    · exact .ok _
    · exact .ok _
    · exact .ok _
  · exact .ok _

theorem findsCores_addFinal (state : Nat) (configuration : Configuration) :
    FindsCores (addFinal grammar anyLookahead state filling
      configuration) := by
  unfold addFinal
  dsimp only
  split
  · split
    · exact findsCores_addAccept state
    · exact .ok _
  · exact .foldlM (fun _ _ => findsCores_addReduce _ _ _) _ _

theorem findsCores_ofState (number : Nat) (state : State)
    (log : ConflictLog) :
    FindsCores (ofState grammar anyLookahead number state log) :=
  .foldlM (fun _ _ => findsCores_addFinal _ _) _ _

end RowFilling

theorem Table.findsCores_ofAutomaton {grammar : Grammar}
    {automaton : Automaton} {anyLookahead : Bool} :
    FindsCores (ofAutomaton grammar automaton anyLookahead) := by
  rw [ofAutomaton]
  apply FindsCores.bind
  · apply FindsCores.foldlM
    intro filled number
    dsimp only
    split
    · exact (RowFilling.findsCores_ofState _ _ _).bind fun _ _ => .ok _
    · exact .ok _
  · exact fun _ _ => .ok _

theorem PagerSplitting.eq_unfinished_of_run {grammar : Grammar}
    {first : FirstSets} {region : Region} {limit : Nat}
    {pager : PagerSplitting} {error : ConstructionError}
    (failed : run grammar first region limit pager = .error error) :
    error = .unfinished := by
  induction limit generalizing pager with
  | zero =>
      cases failed
      rfl
  | succ limit ih =>
      rw [run] at failed
      split at failed
      · cases failed
      · exact ih failed

namespace ClusterSplitting

variable {grammar : Grammar} {first : FirstSets} {region : Region}
  {error : ConstructionError}

theorem eq_unfinished_of_run {limit : Nat} {growing : ClusterSplitting}
    (failed : run grammar first region limit growing = .error error) :
    error = .unfinished := by
  induction limit generalizing growing with
  | zero =>
      cases failed
      rfl
  | succ limit ih =>
      rw [run] at failed
      split at failed
      · cases failed
      · exact ih failed

theorem eq_unfinished_of_growFrom {state : ClusterSplitting × Nat} {head : Nat}
    (failed : growFrom grammar first region state head = .error error) :
    error = .unfinished := by
  obtain ⟨growing, limit⟩ := state
  rw [growFrom] at failed
  split at failed
  · cases failed
  · exact eq_unfinished_of_run failed

theorem eq_unfinished_of_splitByClusters {limit : Nat} {automaton : Automaton}
    (failed : region.splitByClusters limit grammar first automaton =
      .error error) : error = .unfinished := by
  rw [Region.splitByClusters] at failed
  cases grown : region.heads.foldlM (growFrom grammar first region)
      (begin grammar first automaton region, limit) with
  | error other =>
      rw [grown] at failed
      cases failed
      obtain ⟨state, head, stopped⟩ := exists_error_of_foldlM grown
      exact eq_unfinished_of_growFrom stopped
  | ok final =>
      rw [grown] at failed
      cases failed

end ClusterSplitting

namespace Construction

open Automaton

variable {grammar : Grammar} {first : FirstSets} {base automaton : Automaton}
  {limit : Nat} {strategy : SplitStrategy} {region : Region}
  {splitting : Splitting}

/-- Split a region without computing its contexts anew. -/
def divide (limit : Nat) (grammar : Grammar) (first : FirstSets)
    (strategy : SplitStrategy) (automaton : Automaton) (region : Region) :
    Except ConstructionError Splitting :=
  match strategy with
  | .pager => region.splitByPager grammar first automaton
  | .clusters => region.splitByClusters limit grammar first automaton

theorem split_eq : split limit grammar first strategy automaton region =
    (divide limit grammar first strategy automaton region).bind
      (Splitting.regenerate grammar first) := by
  cases strategy with
  | pager => rfl
  | clusters => rfl

theorem eq_unfinished_of_divide {error : ConstructionError}
    (failed : divide limit grammar first strategy automaton region =
      .error error) : error = .unfinished := by
  cases strategy with
  | pager => exact PagerSplitting.eq_unfinished_of_run failed
  | clusters => exact ClusterSplitting.eq_unfinished_of_splitByClusters failed

section Traced

variable {log : ConflictLog} (wellFormed : grammar.WellFormed)
  (unused : grammar.GoalUnused) (exact : first.Exact grammar)
  (traced : TracedFrom grammar first base automaton)
  (unrolled : base.All (State.Unrolled grammar))

include wellFormed unused exact traced unrolled in
/-- What is kept while a traced automaton is split, and by which steps it is
split. -/
theorem kept_divide
    (result : divide limit grammar first strategy
      (automaton.markConflictLanes grammar first log).1
      (automaton.markConflictLanes grammar first log).2 = .ok splitting) :
    splitting.Kept grammar first
        (fun state => state.Evident grammar ∧ state.Unrolled grammar) base ∧
      Splitting.Steps grammar first
        (automaton.markConflictLanes grammar first log).2
        (Splitting.begin (automaton.markConflictLanes grammar first log).1
          (automaton.markConflictLanes grammar first log).2) splitting := by
  have marked := traced.mark log
  have intact := marked.intact wellFormed unused exact
  have faithful := marked.faithful wellFormed unused exact unrolled
  have all := faithful.all
  cases strategy with
  | pager =>
      have sustains :=
        (sustains_evident wellFormed unused exact True).unrolled
      exact ⟨PagerSplitting.kept_splitByPager wellFormed unused exact sustains
          intact marked.enlarges all result,
        Splitting.steps_splitByPager wellFormed unused exact sustains intact
          marked.enlarges all marked.original result⟩
  | clusters =>
      have genuine := Region.genuine_mark traced log
      have sustains :=
        (sustains_evident wellFormed unused exact False).unrolled
      exact ⟨ClusterSplitting.kept_splitByClusters wellFormed unused exact
          sustains genuine intact marked.enlarges all result,
        ClusterSplitting.steps_splitByClusters wellFormed unused exact sustains
          genuine intact marked.enlarges all marked.original result⟩

include wellFormed unused exact traced unrolled in
/-- A split of a traced automaton fails only at a limit. -/
theorem eq_unfinished_of_split {error : ConstructionError}
    (failed : split limit grammar first strategy
      (automaton.markConflictLanes grammar first log).1
      (automaton.markConflictLanes grammar first log).2 = .error error) :
    error = .unfinished := by
  rw [split_eq] at failed
  cases divided : divide limit grammar first strategy
      (automaton.markConflictLanes grammar first log).1
      (automaton.markConflictLanes grammar first log).2 with
  | error other =>
      rw [divided] at failed
      cases failed
      exact eq_unfinished_of_divide divided
  | ok splitting =>
      rw [divided] at failed
      obtain ⟨kept, -⟩ :=
        kept_divide wellFormed unused exact traced unrolled divided
      rcases kept.regenerate_cases wellFormed unused exact
        (sustains_evident wellFormed unused exact False).unrolled with
        stopped | ⟨done, ends, -⟩
      · cases stopped.symm.trans failed
        rfl
      · cases ends.symm.trans failed

include wellFormed unused exact traced unrolled in
theorem findsCores_split :
    FindsCores (split limit grammar first strategy
      (automaton.markConflictLanes grammar first log).1
      (automaton.markConflictLanes grammar first log).2) := by
  intro state rule dot failed
  cases eq_unfinished_of_split wellFormed unused exact traced unrolled failed

include wellFormed unused exact traced unrolled in
theorem findsCores_ofTraced {lr0States : Nat}
    {strategy : Option SplitStrategy} {tracing : Tracing}
    (same : tracing.automaton = automaton) :
    FindsCores (ofTraced limit grammar first strategy lr0States tracing) := by
  subst same
  rw [ofTraced]
  refine Table.findsCores_ofAutomaton.bind fun table _ => ?_
  cases strategy with
  | none => exact .ok _
  | some strategy =>
      dsimp only
      split
      · exact .ok _
      · split
        · exact .ok _
        · refine (findsCores_split wellFormed unused exact traced
            unrolled).bind fun splitting _ => ?_
          exact Table.findsCores_ofAutomaton.bind fun _ _ => .ok _

end Traced

variable (wellFormed : grammar.WellFormed) (unused : grammar.GoalUnused)
  (exact : first.Exact grammar)

theorem findsCores_collect {precision : Precision} :
    FindsCores (collect grammar first precision) := by
  rw [collect]
  split
  · exact .ok _
  · exact .unfinished

include wellFormed unused exact in
theorem findsCores_byLanes {strategy : Option SplitStrategy} :
    FindsCores (byLanes limit grammar first strategy).built := by
  rw [byLanes]
  split
  · rename_i failed result
    intro state rule dot failure
    cases failure
    exact findsCores_collect state rule dot result
  · rename_i base result
    obtain ⟨traced, unrolled⟩ := tracedFrom_of_collect? wellFormed unused exact
      (collect?_of_collect result)
    exact findsCores_ofTraced wellFormed unused exact traced unrolled rfl

end Construction

/-- Whatever way a table is constructed, no transition brings an item that its
target does not have. -/
theorem Grammar.findsCores_generateWithin {grammar : Grammar}
    (wellFormed : grammar.WellFormed) (unused : grammar.GoalUnused)
    (limit : Nat) (options : Options) :
    FindsCores (grammar.generateWithin limit options) := by
  have exact := FirstSets.exact_ofGrammar wellFormed
  rw [generateWithin]
  apply FindsCores.bind
  · rw [constructWithin]
    split
    · refine Construction.findsCores_collect.bind fun _ _ => ?_
      exact Table.findsCores_ofAutomaton.bind fun _ _ => .ok _
    · refine Construction.findsCores_collect.bind fun _ _ => ?_
      exact Table.findsCores_ofAutomaton.bind fun _ _ => .ok _
    · exact Construction.findsCores_byLanes wellFormed unused exact
    · exact Construction.findsCores_byLanes wellFormed unused exact
  · intro output _
    rw [checkExpected]
    split
    · apply FindsCores.error
      intro _ _ _ same
      cases same
    · exact .ok _

end LRTables
