import LRTables.Lane.PagerSplit
import LRTables.Proofs.Splittings

/-!
# Splitting by weak compatibility leaves the automaton intact
-/

namespace LRTables

namespace PagerSplitting

variable {grammar : Grammar} {first : FirstSets} {base automaton : Automaton}
  {region : Region} {pager : PagerSplitting} {clean : Prop}
  {good : State → Prop} (wellFormed : grammar.WellFormed)
  (unused : grammar.GoalUnused) (exact : first.Exact grammar)
  (sustains : Sustains grammar first clean good)

/-- A copy that has all that arrives is chosen, else the target of before or a
copy with which it can be merged, else a new copy. -/
theorem choose_cases {splitting chosen : Splitting} {current target : Nat}
    {incoming : List Configuration}
    (result : choose grammar first splitting current incoming =
      (target, chosen)) :
    (chosen = splitting ∧
      target ∈ splitting.families.copiesOf
        (splitting.automaton.prototype current) ∧
      (splitting.automaton.state target).covers incoming = true) ∨
    (∀ copy ∈ splitting.families.copiesOf
        (splitting.automaton.prototype current),
      (splitting.automaton.state copy).covers incoming = false) ∧
    ((chosen = splitting.countMerge ∧
      (target = current ∨ target ∈ splitting.families.copiesOf
        (splitting.automaton.prototype current)) ∧
      (splitting.automaton.state target).Receives incoming) ∨
    (chosen = splitting.clone grammar first
        (splitting.automaton.prototype current) ∧
      target = splitting.automaton.size ∧
      ∀ copy ∈ splitting.families.copiesOf
          (splitting.automaton.prototype current),
        ¬ (splitting.automaton.state copy).Receives incoming)) := by
  unfold choose at result
  dsimp only at result
  split at result
  · rename_i covering found
    cases result
    exact Or.inl ⟨rfl, Splitting.mem_copiesOf_of_covering? found,
      Splitting.covers_of_covering? found⟩
  · rename_i missing
    refine Or.inr ⟨Splitting.not_covers_of_covering? missing, ?_⟩
    split at result
    · rename_i candidate found
      cases result
      have receives : (splitting.automaton.state target).Receives incoming :=
        List.find?_some (p := fun candidate => weaklyCompatible
          ((splitting.automaton.state candidate).coreContexts.zip
            (incoming.map Configuration.context))) found
      exact Or.inl ⟨rfl, List.mem_cons.mp (List.mem_of_find?_eq_some found),
        receives⟩
    · rename_i incompatible
      cases result
      exact Or.inr ⟨rfl, rfl, fun copy member =>
        List.find?_eq_none.mp incompatible copy
          (List.mem_cons_of_mem _ member)⟩

include wellFormed unused exact sustains in
theorem chosen_choose {splitting chosen : Splitting}
    {source current target : Nat} {symbol : Symbol}
    {incoming : List Configuration}
    (kept : splitting.Kept grammar first good base)
    (fits : splitting.automaton.Fits grammar source symbol current)
    (result : choose grammar first splitting current incoming =
      (target, chosen)) :
    Splitting.Chosen grammar first clean good base incoming splitting
      (splitting.automaton.prototype current) target chosen := by
  have inside := fits.target_lt
  obtain ⟨rfl, copy, covers⟩ |
    ⟨-, ⟨rfl, among, receives⟩ | ⟨rfl, rfl, -⟩⟩ := choose_cases result
  · exact kept.chosen_copy copy fun _ => Or.inl covers
  · have counted : Splitting.Kept grammar first good base
        splitting.countMerge :=
      kept.enlarge kept.intact (.refl _) kept.good rfl
    rcases among with rfl | copy
    · exact ⟨counted, .refl _, inside, rfl, fun _ => Or.inr receives⟩
    · obtain ⟨copyInside, same⟩ := kept.families _ target copy
      exact ⟨counted, .refl _, copyInside, same, fun _ => Or.inr receives⟩
  · have fitsPrototype := fits.copy kept.intact
      (kept.intact.prototype_lt current inside)
      (kept.intact.prototype_idem current inside)
    exact kept.chosen_clone wellFormed unused exact sustains
      (kept.intact.prototype_lt current inside)
      (kept.intact.prototype_idem current inside) fitsPrototype.moved

/-- A transition is left alone, or the target that is chosen for it takes in
what arrives and, if it is another one, gets the transition. -/
theorem remake_split (pager : PagerSplitting) (source current : Nat)
    (symbol : Symbol) {incoming : List Configuration}
    (arriving : (pager.splitting.automaton.state source).successorCores grammar
      true symbol = incoming) :
    ((pager.splitting.automaton.state current).covers incoming = true ∧
      remake grammar first source pager (symbol, current) = pager) ∨
    ∃ target splitting merged grown,
      (pager.splitting.automaton.state current).covers incoming = false ∧
      choose grammar first pager.splitting current incoming =
        (target, splitting) ∧
      splitting.automaton.absorb grammar first target incoming =
        (merged, grown) ∧
      remake grammar first source pager (symbol, current) =
        if target = current then
          { splitting := { splitting with automaton := merged }
            queue := if grown then pager.queue.push target else pager.queue }
        else
          { splitting :=
              { splitting with automaton := merged.relink source symbol target }
            queue := (if grown then pager.queue.push target
              else pager.queue).push target } := by
  subst arriving
  rw [remake]
  dsimp only
  split
  · rename_i covers
    exact Or.inl ⟨covers, rfl⟩
  · rename_i lacks
    rw [Bool.not_eq_true] at lacks
    exact Or.inr ⟨_, _, _, _, lacks, rfl, rfl, rfl⟩

include wellFormed unused exact sustains in
theorem kept_remake {source : Nat} {edge : Symbol × Nat}
    (kept : pager.splitting.Kept grammar first good base)
    (fits : pager.splitting.automaton.Fits grammar source edge.1 edge.2) :
    (remake grammar first source pager edge).splitting.Kept grammar first
        good base ∧
      pager.splitting.automaton.Enlarges
        (remake grammar first source pager edge).splitting.automaton := by
  obtain ⟨symbol, current⟩ := edge
  have intact := kept.intact
  have inside := fits.target_lt
  have original := intact.prototype_idem current inside
  have fitsPrototype := fits.copy intact (intact.prototype_lt current inside)
    original
  obtain ⟨-, same⟩ | ⟨target, splitting, merged, grown, -, choice, absorbed,
      next⟩ := @remake_split grammar first pager source current symbol _ rfl
  · rw [same]
    exact ⟨kept, .refl _⟩
  · have chosen := chosen_choose wellFormed unused exact sustains kept fits
      choice
    obtain ⟨mergedIntact, enlarges, all, relinked⟩ :=
      chosen.take wellFormed unused exact sustains kept fitsPrototype original
        absorbed
    rw [next]
    split
    · exact ⟨chosen.kept.enlarge mergedIntact enlarges all rfl,
        chosen.enlarges.trans enlarges⟩
    · have redirected := enlarges.trans
        (merged.enlarges_relink source symbol target)
      exact ⟨chosen.kept.enlarge relinked redirected
          (sustains.relink all source symbol target) rfl,
        chosen.enlarges.trans redirected⟩

include wellFormed unused exact sustains in
theorem kept_remakeEdges {source : Nat} {edges : List (Symbol × Nat)}
    (kept : pager.splitting.Kept grammar first good base)
    (fits : ∀ edge ∈ edges,
      pager.splitting.automaton.Fits grammar source edge.1 edge.2) :
    (edges.foldl (remake grammar first source) pager).splitting.Kept grammar
      first good base := by
  induction edges generalizing pager with
  | nil => exact kept
  | cons edge rest ih =>
      obtain ⟨remade, enlarges⟩ := kept_remake wellFormed unused exact sustains kept
        (fits edge List.mem_cons_self)
      apply ih remade
      intro other later
      exact (fits other (List.mem_cons_of_mem _ later)).enlarge enlarges

include wellFormed unused exact sustains in
theorem kept_remakeAll {number : Nat}
    (kept : pager.splitting.Kept grammar first good base) :
    (remakeAll grammar first region pager number).splitting.Kept grammar first
      good base := by
  unfold remakeAll
  dsimp only
  split
  · exact kept
  · apply kept_remakeEdges wellFormed unused exact sustains kept
    intro edge member
    have present := (List.mem_filter.mp member).1
    have framed := kept.intact.framed
    exact framed.fits (framed.keyed.mem_successors.mp present)

include wellFormed unused exact sustains in
theorem kept_run {limit : Nat} {splitting : Splitting}
    (kept : pager.splitting.Kept grammar first good base)
    (result : run grammar first region limit pager = .ok splitting) :
    splitting.Kept grammar first good base := by
  induction limit generalizing pager with
  | zero => cases result
  | succ limit ih =>
      rw [run] at result
      split at result
      · cases result
        exact kept
      · apply ih _ result
        apply kept_remakeAll wellFormed unused exact sustains
        exact kept

include wellFormed unused exact sustains in
theorem kept_splitByPager (intact : automaton.Intact grammar first)
    (enlarges : base.Enlarges automaton) (all : automaton.All good)
    {splitting : Splitting}
    (result : region.splitByPager grammar first automaton = .ok splitting) :
    splitting.Kept grammar first good base := by
  refine kept_run wellFormed unused exact sustains ?_ result
  exact (Splitting.kept_begin intact enlarges all region).resetAll wellFormed
    unused exact sustains region.states

end PagerSplitting

end LRTables
