import LRTables.Proofs.Nestings
import LRTables.Proofs.Regenerations
import Mathlib.Algebra.Order.BigOperators.Group.Finset

/-!
# How a split begins

Before transitions are made again, the contexts are reset throughout the
region.  Only there do rivals share lookaheads, so that no state has an overlap
without a reason from then on, and every state with a transition into the
region waits.
-/

namespace LRTables

namespace Families

/-- The family of a state of the region has all states that are copies of
it. -/
theorem mem_copiesOf_ofRegion {automaton : Automaton} {region : Region}
    {number : Nat} (inside : number < automaton.size)
    (inRegion : region.contains (automaton.prototype number) = true) :
    number ∈ (ofRegion automaton region).copiesOf
      (automaton.prototype number) := by
  have collected (numbers : List Nat) (families : Families)
      (listed : number ∈ numbers ∨
        number ∈ families.copiesOf (automaton.prototype number)) :
      number ∈ (numbers.foldl (fun (families : Families) other =>
        if region.contains (automaton.prototype other) then
          families.add (automaton.prototype other) other
        else families) families).copiesOf (automaton.prototype number) := by
    induction numbers generalizing families with
    | nil => exact listed.resolve_left List.not_mem_nil
    | cons head rest ih =>
        apply ih
        rcases listed with listed | already
        · rcases List.mem_cons.mp listed with rfl | later
          · right
            simp [inRegion, copiesOf_add]
          · exact Or.inl later
        · right
          dsimp only
          split
          · rw [copiesOf_add]
            split
            · rename_i same
              rw [same] at already
              exact List.mem_append_left _ already
            · exact already
          · exact already
  exact collected (List.range automaton.size) []
    (Or.inl (List.mem_range.mpr inside))

end Families

namespace Splitting

variable {grammar : Grammar} {first : FirstSets} {splitting : Splitting}
  {number : Nat}

theorem families_resetAll (numbers : List Nat) :
    (numbers.foldl (reset grammar first) splitting).families =
      splitting.families := by
  induction numbers generalizing splitting with
  | nil => rfl
  | cons head rest ih => exact ih

theorem size_resetAll (numbers : List Nat) :
    (numbers.foldl (reset grammar first) splitting).automaton.size =
      splitting.automaton.size := by
  induction numbers generalizing splitting with
  | nil => rfl
  | cons head rest ih => exact ih.trans (Automaton.size_modify _)

theorem state_resetAll {numbers : List Nat} (apart : number ∉ numbers) :
    (numbers.foldl (reset grammar first) splitting).automaton.state number =
      splitting.automaton.state number := by
  induction numbers generalizing splitting with
  | nil => rfl
  | cons head rest ih =>
      rw [List.mem_cons, not_or] at apart
      obtain ⟨different, later⟩ := apart
      exact (ih later).trans (Automaton.state_modify_ne different)

theorem parented_resetAll (parented : splitting.automaton.Parented)
    (numbers : List Nat) :
    (numbers.foldl (reset grammar first)
      splitting).automaton.Parented := by
  induction numbers generalizing splitting with
  | nil => exact parented
  | cons head rest ih => exact ih (parented.reset head)

/-- Overlaps are grounded in all states once they are reset wherever they were
not. -/
theorem Kept.grounded_resetAll {base : Automaton}
    {matters : Item → Item → Prop} {numbers : List Nat}
    (wellFormed : grammar.WellFormed) (unused : grammar.GoalUnused)
    (exact : first.Exact grammar) (hereditary : grammar.Hereditary matters)
    (kept : splitting.Kept grammar first (State.Evident grammar) base)
    (others : ∀ number < splitting.automaton.size, number ∉ numbers →
      (splitting.automaton.state number).Grounded grammar matters) :
    (numbers.foldl (Splitting.reset grammar first)
      splitting).automaton.All fun state =>
      state.Grounded grammar matters := by
  induction numbers generalizing splitting with
  | nil => exact fun number inside => others number inside List.not_mem_nil
  | cons head rest ih =>
      have sustains := @sustains_evident grammar first wellFormed unused exact
        True
      apply ih (kept.reset wellFormed unused exact sustains head)
      intro number inside later
      change number < (splitting.automaton.modify head _).size at inside
      rw [Automaton.size_modify] at inside
      change ((splitting.automaton.modify head _).state number).Grounded
        grammar matters
      by_cases isHead : number = head
      · subst isHead
        rw [Automaton.state_modify_self inside]
        exact State.grounded_resetContexts wellFormed unused exact hereditary
          (kept.intact.framed.regular number inside)
          (kept.good number inside).attested.exists_word
      · rw [Automaton.state_modify_ne isHead]
        apply others number inside
        rw [List.mem_cons, not_or]
        exact ⟨isHead, later⟩

end Splitting

namespace PagerSplitting

variable {grammar : Grammar} {first : FirstSets} {base automaton : Automaton}
  {region : Region} {matters : Item → Item → Prop}

section Begin

variable (wellFormed : grammar.WellFormed) (unused : grammar.GoalUnused)
  (exact : first.Exact grammar) (hereditary : grammar.Hereditary matters)
  (traced : Automaton.TracedFrom grammar first base automaton)
  (unrolled : base.All (State.Unrolled grammar))
  (grounded : ∀ number < automaton.size, number ∉ region.states →
    (automaton.state number).Grounded grammar matters)

include wellFormed unused exact hereditary traced unrolled grounded in
theorem kept_begin :
    (begin grammar first automaton region).splitting.Kept grammar first
      (fun state => (state.Evident grammar ∧
        state.Grounded grammar matters) ∧ state.Unrolled grammar)
      automaton := by
  have faithful := traced.faithful wellFormed unused exact unrolled
  have intact := traced.intact wellFormed unused exact
  have evident := Splitting.kept_begin intact (.refl automaton)
    faithful.evident region
  have sustains := @sustains_evident grammar first wellFormed unused exact
    True
  have kept := (Splitting.kept_begin intact (.refl automaton)
    (fun number inside =>
      ⟨faithful.evident number inside, faithful.unrolled number inside⟩)
    region).resetAll wellFormed unused exact sustains.unrolled region.states
  have overlaps := evident.grounded_resetAll wellFormed unused exact hereditary
    grounded
  constructor
  · exact kept.intact
  · exact kept.enlarges
  · exact kept.families
  · intro number inside
    obtain ⟨isEvident, isUnrolled⟩ := kept.good number inside
    exact ⟨⟨isEvident, overlaps number inside⟩, isUnrolled⟩

include wellFormed unused exact hereditary traced unrolled grounded in
/-- What holds when a split begins. -/
theorem settling_begin
    (within : ∀ number ∈ region.states, number < automaton.size) :
    Settling grammar first
      (fun state => (state.Evident grammar ∧
        state.Grounded grammar matters) ∧ state.Unrolled grammar)
      automaton region Automaton.start []
      (begin grammar first automaton region) := by
  have kept := kept_begin wellFormed unused exact hereditary traced unrolled
    grounded
  have size : (begin grammar first automaton region).splitting.automaton.size =
      automaton.size :=
    Splitting.size_resetAll region.states
  have parented :
      (begin grammar first automaton region).splitting.automaton.Parented :=
    Splitting.parented_resetAll
      (traced.retraced.parented traced.lookaheadless.parented) region.states
  have families :
      (begin grammar first automaton region).splitting.families =
        .ofRegion automaton region :=
    Splitting.families_resetAll region.states
  have prototype {number : Nat} (inside : number <
      (begin grammar first automaton region).splitting.automaton.size) :
      (begin grammar first automaton region).splitting.automaton.prototype
        number = number := by
    rw [size] at inside
    rw [kept.enlarges.prototype number inside, traced.prototype_eq inside]
  have waits {number : Nat} :
      number ∈ (begin grammar first automaton region).queue.waiting ↔
        (∃ target ∈ region.states, number ∈
          ((begin grammar first automaton region).splitting.automaton.state
            target).parents) ∨ number ∈ region.states := by
    rw [begin, WorkQueue.mem_ofList, List.mem_append, List.mem_flatMap]
  constructor
  · exact kept
  · exact parented
  · intro number inside
    rw [prototype inside]
    exact size ▸ inside
  · intro number inside inRegion
    have same := prototype inside
    rw [same] at inRegion
    rw [same, families]
    rw [size] at inside
    have original := traced.prototype_eq inside
    have member := Families.mem_copiesOf_ofRegion inside
      (original.symm ▸ inRegion)
    rwa [original] at member
  · intro number inside apart
    have same := prototype inside
    refine ⟨same, ?_⟩
    rw [same] at apart
    have outside : number ∉ region.states := by
      intro member
      rw [Automaton.contains_iff.mpr member] at apart
      cases apart
    have unchanged : (begin grammar first automaton
        region).splitting.automaton.state number = automaton.state number :=
      Splitting.state_resetAll outside
    rw [unchanged]
    exact .refl _
  · intro number member
    rcases waits.mp member with ⟨target, -, parent⟩ | listed
    · exact parented.lt_size target number parent
    · rw [size]
      exact within number listed
  · exact List.nodup_nil
  · exact nofun
  · intro source symbol target edge inRegion quiet
    have inside := kept.intact.framed.bounded _ _ _ edge
    rw [prototype inside] at inRegion
    refine absurd (waits.mpr (Or.inl ⟨target, ?_, ?_⟩)) quiet
    · exact Automaton.contains_iff.mp inRegion
    · exact parented.knows _ _ _ edge

theorem sorted_traced (wellFormed : grammar.WellFormed)
    (unused : grammar.GoalUnused) (exact : first.Exact grammar)
    (collected : Automaton.collect? grammar first .lr0 = some base)
    (traced : Automaton.TracedFrom grammar first base automaton) :
    Sorted grammar automaton := by
  refine ⟨?_, traced.apart⟩
  have listed := Automaton.collected_of_collect? wellFormed unused exact
    (Collecting.keeps_listed wellFormed unused exact) collected
  intro number inside
  rw [traced.retraced.size] at inside
  exact (listed.states number inside).2.congr
    (traced.retraced.sameItems number).coreItems

end Begin

open Finset in
/-- The limit of a split is above its potential. -/
theorem Settling.potential_lt_stepBound {good : State → Prop} {number : Nat}
    {pager : PagerSplitting}
    (wellFormed : grammar.WellFormed) (unused : grammar.GoalUnused)
    (sorted : Sorted grammar automaton)
    (settling : Settling grammar first good automaton region number [] pager)
    (size : pager.splitting.automaton.size = automaton.size) :
    potential grammar pager < stepBound grammar automaton := by
  have framed := settling.kept.intact.framed
  have waiting : pager.queue.waiting.length ≤ automaton.size := by
    have subset : pager.queue.waiting ⊆ List.range automaton.size := by
      intro other member
      exact List.mem_range.mpr (size ▸ settling.waiting other member)
    have bound := (pager.queue.nodup.subperm subset).length_le
    rwa [List.length_range] at bound
  have room := settling.kept.roomIn_le settling.original sorted
  rw [size] at room
  have hunger : pager.splitting.automaton.hungerIn grammar ≤
      automaton.size * grammar.columnCount := by
    have bound := sum_le_card_nsmul (range pager.splitting.automaton.size)
      (pager.splitting.automaton.hunger grammar) grammar.columnCount
      fun other _ => framed.hunger_le wellFormed unused other
    rw [card_range] at bound
    rw [Automaton.hungerIn, ← size]
    exact bound
  have roomCost := Nat.mul_le_mul_right (grammar.columnCount + 1) room
  have fewer : (grammar.stateBound - pager.splitting.automaton.size) *
      stateCost grammar ≤ grammar.stateBound * stateCost grammar :=
    Nat.mul_le_mul_right _ (Nat.sub_le _ _)
  have own : automaton.size * grammar.growthBound * (grammar.columnCount + 1) +
      automaton.size * grammar.columnCount =
        automaton.size * stateCost grammar := by
    rw [stateCost, Nat.mul_add automaton.size, Nat.mul_assoc]
  have cost : stateCost grammar ≤
      (grammar.growthBound + 1) * (grammar.columnCount + 2) := by
    rw [stateCost, Nat.add_mul, Nat.mul_add _ _ 2, Nat.mul_succ]
    omega
  have whole := Nat.mul_le_mul_left (automaton.size + grammar.stateBound) cost
  rw [Nat.add_mul] at whole
  rw [potential, stepBound, Nat.mul_assoc]
  omega

theorem Sorted.apart_of_size {pager : PagerSplitting} {good : State → Prop}
    {number : Nat}
    (sorted : Sorted grammar automaton)
    (settling : Settling grammar first good automaton region number [] pager)
    (size : pager.splitting.automaton.size = automaton.size) :
    Settling.Apart grammar pager :=
  ⟨_, settling.kept.distinguished_of_size sorted size⟩

end PagerSplitting

end LRTables
