import LRTables.Proofs.Contention
import LRTables.Proofs.SplitStarts

/-!
# The precision of splits

If no word calls for two competing actions, a split by weak compatibility ends
with an automaton in which no actions compete.  So lane tracing with such
splits yields a table without conflicts wherever canonical states do.
-/

namespace LRTables

open Automaton

variable {grammar : Grammar} {first : FirstSets} {base automaton : Automaton}

theorem Splitting.Kept.mono {splitting : Splitting} {good weaker : State → Prop}
    (kept : splitting.Kept grammar first good base)
    (implies : ∀ state, good state → weaker state) :
    splitting.Kept grammar first weaker base := by
  constructor
  · exact kept.intact
  · exact kept.enlarges
  · exact kept.families
  · exact fun number inside => implies _ (kept.good number inside)

/-- What holds of every state in the course of a split. -/
def Guarded (grammar : Grammar) (state : State) : Prop :=
  (state.Evident grammar ∧ state.Grounded grammar grammar.Rivals) ∧
    state.Unrolled grammar

namespace Automaton

/-- Where there is one state for each core, it has what an attested state with
that core has. -/
theorem Faithful.hasContext_of_admits (wellFormed : grammar.WellFormed)
    (unused : grammar.GoalUnused) (exact : first.Exact grammar)
    (faithful : automaton.Faithful grammar first) (apart : automaton.Apart)
    {number : Nat} (inside : number < automaton.size) {word : List Symbol}
    {item : Item} {terminal : Nat}
    (kernel : (automaton.state number).HasKernel grammar word)
    (ascending : Item.Ascending (automaton.state number).coreItems)
    (admits : grammar.Admits word item terminal) :
    (automaton.state number).HasContext item terminal := by
  have framed := faithful.framed
  obtain ⟨place, leads⟩ :=
    framed.exists_leads wellFormed unused faithful.total admits.valid
  have same : place = number :=
    apart place (framed.lt_size leads) number inside
      (framed.coreItems_eq wellFormed unused leads kernel ascending)
  exact same ▸ faithful.saturated.hasContext wellFormed unused exact framed
    leads admits

theorem Faithful.exists_clean_table (wellFormed : grammar.WellFormed)
    (deterministic : grammar.Deterministic)
    (faithful : automaton.Faithful grammar first)
    (grounded : ∀ word number, automaton.Leads word number →
      (automaton.state number).Grounded grammar grammar.Rivals) :
    ∃ table, Table.ofAutomaton grammar automaton false = .ok table ∧
      table.log = ConflictLog.empty := by
  have framed := faithful.framed
  apply Table.ofAutomaton_of_unambiguous wellFormed framed
    (faithful.evident.terminated wellFormed)
  intro word number leads
  have inside := framed.lt_size leads
  exact deterministic.unambiguous (framed.regular number inside)
    (framed.closed number inside) (framed.scanned number)
    (faithful.evident number inside).attested (fun _ _ => Grammar.Rivals.finals)
    (grounded word number leads)

end Automaton

namespace PagerSplitting

variable {region : Region} {good : State → Prop} {pager : PagerSplitting}
  {number : Nat}

theorem Settling.rooted
    (settling : Settling grammar first good automaton region number [] pager)
    {word : List Symbol} {source : Nat}
    (leads : pager.splitting.automaton.Leads word source) :
    Rooted pager.splitting.automaton source := by
  cases leads with
  | start => exact Or.inl rfl
  | step before edge =>
      right
      exact List.ne_nil_of_mem (settling.parented.knows _ _ _ edge)

/-- Once no state waits, no lookahead is missing. -/
theorem Settling.saturated (wellFormed : grammar.WellFormed)
    (unused : grammar.GoalUnused) (exact : first.Exact grammar)
    (settling : Settling grammar first good automaton region number [] pager)
    (evident : ∀ state, good state → state.Evident grammar)
    (faithful : automaton.Faithful grammar first) (apart : automaton.Apart)
    (served : pager.queue.waiting = []) :
    pager.splitting.automaton.Saturated grammar first := by
  have intact := settling.kept.intact
  have framed := intact.framed
  constructor
  · exact intact.goal
  · intro word source leads
    exact intact.closed source (framed.lt_size leads)
  · intro word source leads symbol target edge
    cases inRegion : region.contains
        (pager.splitting.automaton.prototype target) with
    | true =>
        apply settling.feeds source symbol target edge inRegion
        · rw [served]
          exact List.not_mem_nil
        · exact settling.rooted leads
        · exact fun remains => List.not_mem_nil remains.2
    | false =>
        -- The target is as it was, with all that its core can have.
        have targetInside := framed.bounded _ _ _ edge
        have sourceInside := framed.lt_size leads
        obtain ⟨same, alike⟩ := settling.outside target targetInside inRegion
        have inside : target < automaton.size :=
          same ▸ settling.original target targetInside
        intro item terminal has scans
        obtain ⟨front, kernel, admits⟩ := (evident _ (settling.kept.good source
          sourceInside)).attested.context item terminal has
        have after := kernel.step wellFormed unused
          (framed.regular source sourceInside)
          (framed.closed source sourceInside) (framed.edges _ _ _ edge)
        have core := alike.sameItems.coreItems
        apply alike.hasContext_iff.mpr
        apply faithful.hasContext_of_admits wellFormed unused exact apart inside
          (after.transfer core.symm)
        · rw [← core]
          exact framed.ascending_coreItems (leads.step edge)
        · exact .advance admits scans

end PagerSplitting

namespace Splitting

variable {splitting : Splitting}

/-- If a saturated automaton whose overlaps are grounded is computed anew, its
table has no conflicts. -/
theorem exists_clean_regenerate (wellFormed : grammar.WellFormed)
    (unused : grammar.GoalUnused) (exact : first.Exact grammar)
    (deterministic : grammar.Deterministic)
    (kept : splitting.Kept grammar first (Guarded grammar) base)
    (saturated : splitting.automaton.Saturated grammar first) :
    ∃ done table, splitting.regenerate grammar first = .ok done ∧
      Table.ofAutomaton grammar done.automaton false = .ok table ∧
      table.log = ConflictLog.empty := by
  have framed := kept.intact.framed
  obtain ⟨done, result, same, enclosed⟩ := exists_regenerate wellFormed unused
    exact (kept.mono fun _ guarded => guarded.1.1) saturated
  have faithful := faithful_regenerate wellFormed unused exact
    (kept.mono fun _ guarded => ⟨guarded.1.1, guarded.2⟩) result
  obtain ⟨table, filled, log⟩ := faithful.exists_clean_table wellFormed
    deterministic (by
      intro word number leads
      have before := framed.leads_detach.mp (same.leads_iff.mp leads)
      have inside := framed.lt_size before
      have items := (alike_detach number).sameItems.trans
        (same.sameItems number (by rwa [size_detach]))
      exact (kept.good number inside).1.2.enclosed
        (enclosed word number before) items.coreItems)
  exact ⟨done, table, result, filled, log⟩

end Splitting

section Traced

variable {log : ConflictLog} (wellFormed : grammar.WellFormed)
  (unused : grammar.GoalUnused) (exact : first.Exact grammar)
  (deterministic : grammar.Deterministic)
  (collected : collect? grammar first .lr0 = some base)
  (traced : TracedFrom grammar first base automaton)
  (unrolled : base.All (State.Unrolled grammar))

include wellFormed unused exact deterministic traced unrolled in
/-- Outside the region rivals share no lookahead. -/
theorem Automaton.TracedFrom.grounded_outside
    (tells : Table.Tells grammar false automaton automaton.size log)
    (number : Nat)
    (inside : number <
      (automaton.markConflictLanes grammar first log).1.size)
    (outside : number ∉
      (automaton.markConflictLanes grammar first log).2.states) :
    ((automaton.markConflictLanes grammar first log).1.state
      number).Grounded grammar grammar.Rivals := by
  intro here there rivals terminal hasHere hasThere
  have marked := traced.mark log
  rw [marked.retraced.size] at inside
  have unmarked {item : Item}
      (has : ((automaton.markConflictLanes grammar first log).1.state
        number).HasContext item terminal) :
      (automaton.state number).HasContext item terminal :=
    (traced.hasContext_iff wellFormed unused exact inside).mpr
      ((marked.hasContext_iff wellFormed unused exact inside).mp has)
  obtain ⟨word, leads⟩ := traced.lookaheadless.reached number inside
  obtain ⟨⟨index, -, isMember⟩, -⟩ := traced.onLane_of_rivals wellFormed unused
    exact (traced.tame wellFormed unused exact deterministic unrolled) tells
    unrolled rivals (traced.retraced.sameFrame.leads_iff.mpr leads)
    (unmarked hasHere) (unmarked hasThere)
  exact absurd (contains_iff.mp (contains_mark.mpr ⟨_, isMember, rfl⟩))
    outside

include wellFormed unused exact collected traced unrolled in
/-- What holds before the first transition into the conflict lanes is made
again. -/
theorem Automaton.TracedFrom.begins {matters : Item → Item → Prop}
    (hereditary : grammar.Hereditary matters)
    (grounded : ∀ number <
      (automaton.markConflictLanes grammar first log).1.size,
      number ∉ (automaton.markConflictLanes grammar first log).2.states →
        ((automaton.markConflictLanes grammar first log).1.state
          number).Grounded grammar matters) :
    PagerSplitting.Settling grammar first (fun state =>
        (state.Evident grammar ∧ state.Grounded grammar matters) ∧
          state.Unrolled grammar)
      (automaton.markConflictLanes grammar first log).1
      (automaton.markConflictLanes grammar first log).2 start []
      (.begin grammar first (automaton.markConflictLanes grammar first log).1
        (automaton.markConflictLanes grammar first log).2) ∧
    PagerSplitting.Sorted grammar
      (automaton.markConflictLanes grammar first log).1 ∧
    (PagerSplitting.begin grammar first
      (automaton.markConflictLanes grammar first log).1
      (automaton.markConflictLanes grammar first
        log).2).splitting.automaton.size =
      (automaton.markConflictLanes grammar first log).1.size := by
  have marked := traced.mark log
  refine ⟨?_, ?_, Splitting.size_resetAll _⟩
  · apply PagerSplitting.settling_begin wellFormed unused exact hereditary
      marked unrolled grounded
    intro number listed
    obtain ⟨member, isMember, rfl⟩ :=
      contains_mark.mp (contains_iff.mpr listed)
    have holds := Automaton.holds_of_mem_context (context_of_laneMembers
      (traced.terminated wellFormed unused exact) isMember)
    rw [marked.retraced.size, ← traced.retraced.size]
    exact holds.1
  · exact PagerSplitting.sorted_traced wellFormed unused exact collected marked

include wellFormed unused exact collected traced unrolled in
/-- A split of the conflict lanes ends, no lookahead is missing then, and
overlaps that are grounded outside the region are grounded in all states. -/
theorem Automaton.TracedFrom.exists_settled {matters : Item → Item → Prop}
    (hereditary : grammar.Hereditary matters)
    (grounded : ∀ number <
      (automaton.markConflictLanes grammar first log).1.size,
      number ∉ (automaton.markConflictLanes grammar first log).2.states →
        ((automaton.markConflictLanes grammar first log).1.state
          number).Grounded grammar matters) :
    ∃ splitting,
      (automaton.markConflictLanes grammar first log).2.splitByPager grammar
        first (automaton.markConflictLanes grammar first log).1 =
          .ok splitting ∧
      splitting.Kept grammar first (fun state => (state.Evident grammar ∧
          state.Grounded grammar matters) ∧ state.Unrolled grammar)
        (automaton.markConflictLanes grammar first log).1 ∧
      splitting.automaton.Saturated grammar first := by
  have marked := traced.mark log
  have faithful := marked.faithful wellFormed unused exact unrolled
  obtain ⟨settling, sorted, size⟩ := traced.begins wellFormed unused exact
    collected unrolled hereditary grounded
  have sustains := (sustains_grounded wellFormed unused exact
    hereditary).unrolled
  obtain ⟨final, last, run, settled, served⟩ := settling.exists_run wellFormed
    unused exact sustains sorted (sorted.apart_of_size settling size)
    (settling.potential_lt_stepBound wellFormed unused sorted size)
  refine ⟨final.splitting, run, settled.kept, ?_⟩
  exact settled.saturated wellFormed unused exact
    (fun _ guarded => guarded.1.1) faithful marked.apart served

include wellFormed unused exact deterministic collected traced unrolled in
/-- A split of the conflict lanes does not fail and leaves no conflicts. -/
theorem Automaton.TracedFrom.exists_clean_split (limit : Nat)
    (tells : Table.Tells grammar false automaton automaton.size log) :
    ∃ splitting table,
      Construction.split limit grammar first .pager
        (automaton.markConflictLanes grammar first log).1
        (automaton.markConflictLanes grammar first log).2 = .ok splitting ∧
      Table.ofAutomaton grammar splitting.automaton false = .ok table ∧
      table.log = ConflictLog.empty := by
  obtain ⟨splitting, divided, kept, saturated⟩ := traced.exists_settled
    wellFormed unused exact collected unrolled
    (Grammar.hereditary_rivals grammar)
    (traced.grounded_outside wellFormed unused exact deterministic unrolled
      tells)
  obtain ⟨done, table, regenerated, filled, clean⟩ :=
    Splitting.exists_clean_regenerate wellFormed unused exact deterministic
      kept saturated
  refine ⟨done, table, ?_, filled, clean⟩
  rw [Construction.split, divided]
  exact regenerated

end Traced

namespace Construction

variable (wellFormed : grammar.WellFormed) (unused : grammar.GoalUnused)
  (exact : first.Exact grammar) (deterministic : grammar.Deterministic)

include wellFormed unused exact deterministic in
/-- Lane tracing with splits leaves no conflicts. -/
theorem exists_clean_byLanes (limit : Nat) :
    ∃ output,
      (byLanes limit grammar first (some .pager)).built = .ok output ∧
      output.table.log = ConflictLog.empty := by
  obtain ⟨base, collected⟩ := exists_collect? wellFormed exact .lr0
  obtain ⟨traced, unrolled⟩ :=
    tracedFrom_of_collect? wellFormed unused exact collected
  have terminated := traced.terminated wellFormed unused exact
  obtain ⟨table, filled, tells⟩ :=
    traced.exists_table wellFormed unused exact deterministic unrolled
  rw [built_byLanes collected]
  by_cases clean : table.log.conflicts = #[]
  · have log :=
      Table.log_eq_empty wellFormed traced.framed terminated filled clean
    have none : table.log.reduceReduce = 0 := by
      rw [log]
      rfl
    rw [ofTraced, filled]
    exact ⟨_, if_pos none, log⟩
  · have some : table.log.reduceReduce ≠ 0 := by
      rw [tells.counted]
      exact fun none => clean (Array.eq_empty_of_size_eq_zero none)
    have region := traced.isEmpty_region wellFormed unused exact unrolled
      deterministic tells clean
    obtain ⟨splitting, last, divided, splitFilled, log⟩ :=
      traced.exists_clean_split wellFormed unused exact deterministic collected
        unrolled limit tells
    rw [ofTraced, filled]
    simp only [Except.bind, bind, if_neg some, region, divided, splitFilled]
    exact ⟨_, rfl, log⟩

end Construction

namespace Grammar

/-- Whether conflicts are a failure depends on the log alone. -/
theorem generateWithin_of_log {limit : Nat} {options other : Options}
    {one output : Output}
    (result : grammar.generateWithin limit options = .ok one)
    (built : (grammar.constructWithin limit other).built = .ok output)
    (strict : other.strict = options.strict)
    (log : output.table.log = one.table.log) :
    grammar.generateWithin limit other = .ok output := by
  rw [generateWithin] at result
  obtain ⟨constructed, -, checked⟩ := ok_of_bind result
  rw [generateWithin, built]
  show grammar.checkExpected other output = _
  rw [checkExpected] at checked ⊢
  split at checked
  · cases checked
  · rename_i expected
    cases checked
    rw [strict, log, if_neg expected]
/-- If no word calls for two competing actions, lane tracing with splits has a
result. -/
theorem Deterministic.exists_output (deterministic : grammar.Deterministic)
    (wellFormed : grammar.WellFormed) (unused : grammar.GoalUnused)
    (limit : Nat) : ∃ output, grammar.generateWithin limit
      (Options.standard.withMode (.laneTracing .pager)) = .ok output := by
  obtain ⟨output, built, -⟩ := Construction.exists_clean_byLanes wellFormed
    unused (FirstSets.exact_ofGrammar wellFormed) deterministic limit
  exact ⟨output, generateWithin_of_built rfl built⟩

end Grammar

/-- If canonical states yield a table without conflicts, so does lane tracing
with splits by weak compatibility. -/
theorem lane_tracing_precise (accepted : grammar.Accepted)
    (unused : grammar.GoalUnused) {limit : Nat} {options : Options}
    {canonical : Output}
    (result : grammar.generateWithin limit options.canonical = .ok canonical)
    (clean : canonical.table.log.conflicts = #[]) :
    ∃ output,
      grammar.generateWithin limit
          (options.withMode (.laneTracing .pager)) = .ok output ∧
        output.table.log.conflicts = #[] := by
  have wellFormed := accepted.wellFormed
  have exact := FirstSets.exact_ofGrammar wellFormed
  obtain ⟨deterministic, log⟩ :=
    grammar.deterministic_of_canonical wellFormed unused result clean
  obtain ⟨output, built, empty⟩ := Construction.exists_clean_byLanes wellFormed
    unused exact deterministic limit
  exact ⟨output, Grammar.generateWithin_of_log result built rfl
    (empty.trans log.symm), congrArg ConflictLog.conflicts empty⟩

/-- Tracing leaves conflicts in the state to which both lanes lead, but none is
left by the split. -/
theorem lane_tracing_precise_crossed :
    ∃ canonical output automaton region,
      Grammar.crossed.generateWithin 0 Options.standard.canonical =
          .ok canonical ∧
        canonical.table.log.conflicts = #[] ∧
        Construction.Contended .crossed (.ofGrammar .crossed) automaton
          region ∧
        Grammar.crossed.generateWithin 0
            (Options.standard.withMode (.laneTracing .pager)) = .ok output ∧
        output.table.log.conflicts = #[] := by
  obtain ⟨canonical, result, clean, -⟩ := exists_canonical_crossed
  obtain ⟨automaton, region, contended⟩ := exists_contended_crossed
  obtain ⟨output, traced, noConflicts⟩ :=
    lane_tracing_precise accepted_crossed goalUnused_crossed result clean
  exact ⟨canonical, output, automaton, region, result, clean, contended, traced,
    noConflicts⟩

end LRTables
