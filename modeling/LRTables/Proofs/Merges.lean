import LRTables.Automaton.Merging
import LRTables.Proofs.Successors

/-!
# Merging into a state

What arrives at a state with the same core items is compared with what is
there, and may be added to it.
-/

namespace LRTables

theorem joinsCleanly_iff {here there : TerminalSet × TerminalSet} :
    joinsCleanly here there = true ↔
      (∃ terminal, terminal ∈ here.1 ∧ terminal ∈ there.1) ∨
      (∃ terminal, terminal ∈ here.2 ∧ terminal ∈ there.2) ∨
      ∀ terminal, ¬ (terminal ∈ here.1 ∧ terminal ∈ there.2) ∧
        ¬ (terminal ∈ there.1 ∧ terminal ∈ here.2) := by
  have meets (left right : TerminalSet) :
      (!left.isDisjoint right) = true ↔
        ∃ terminal, terminal ∈ left ∧ terminal ∈ right := by
    rw [Bool.not_eq_true', ← Bool.not_eq_true, TerminalSet.isDisjoint_iff]
    push Not
    rfl
  simp only [joinsCleanly, Bool.or_eq_true, Bool.and_eq_true, meets,
    TerminalSet.isDisjoint_iff, or_assoc, not_and, ← forall_and]

theorem joinsCleanly_symm {here there : TerminalSet × TerminalSet}
    (cleanly : joinsCleanly here there = true) :
    joinsCleanly there here = true := by
  rw [joinsCleanly_iff] at *
  rcases cleanly with ⟨terminal, left, right⟩ | ⟨terminal, left, right⟩ | apart
  · exact Or.inl ⟨terminal, right, left⟩
  · exact Or.inr (Or.inl ⟨terminal, right, left⟩)
  · refine Or.inr (Or.inr fun terminal => ?_)
    exact ⟨(apart terminal).2, (apart terminal).1⟩

theorem weaklyCompatible_iff {entries : List (TerminalSet × TerminalSet)} :
    weaklyCompatible entries = true ↔
      entries.Pairwise fun here there => joinsCleanly here there = true := by
  induction entries with
  | nil => simp [weaklyCompatible]
  | cons entry rest ih =>
      rw [weaklyCompatible, Bool.and_eq_true, List.all_eq_true, ih,
        List.pairwise_cons]

theorem joinsCleanly_of_subset {here there : TerminalSet × TerminalSet}
    (hereSubset : ∀ terminal ∈ here.2, terminal ∈ here.1)
    (thereSubset : ∀ terminal ∈ there.2, terminal ∈ there.1) :
    joinsCleanly here there = true := by
  rw [joinsCleanly_iff]
  by_cases shared : ∃ terminal, terminal ∈ here.1 ∧ terminal ∈ there.1
  · exact Or.inl shared
  · right
    right
    intro terminal
    constructor
    · intro both
      exact shared ⟨terminal, both.1, thereSubset terminal both.2⟩
    · intro both
      exact shared ⟨terminal, hereSubset terminal both.2, both.1⟩

theorem weaklyCompatible_of_subset {entries : List (TerminalSet × TerminalSet)}
    (subset : ∀ entry ∈ entries, ∀ terminal ∈ entry.2, terminal ∈ entry.1) :
    weaklyCompatible entries = true := by
  rw [weaklyCompatible_iff]
  apply List.pairwise_of_forall_mem_list
  intro here hereListed there thereListed
  exact joinsCleanly_of_subset (subset here hereListed)
    (subset there thereListed)

namespace State

variable {grammar : Grammar} {first : FirstSets} {state : State}
  {cores : List Configuration}

theorem weaklyCompatible_of_covers (covers : state.covers cores = true) :
    weaklyCompatible
      (state.coreContexts.zip (cores.map Configuration.context)) = true := by
  apply weaklyCompatible_of_subset
  rw [State.covers, List.all_eq_true] at covers
  rw [List.zip_map_right]
  intro entry listed
  obtain ⟨pair, member, rfl⟩ := List.mem_map.mp listed
  exact TerminalSet.isSubset_iff.mp (covers pair member)

/-- The state has the given core configurations, up to their contexts. -/
structure Matches (grammar : Grammar) (state : State)
    (cores : List Configuration) : Prop where
  regular : state.Regular grammar
  items : state.coreItems = cores.map Configuration.item

/-- The core items of the state are those of the given configurations, and
none occurs twice in the state. -/
structure Aligned (state : State) (cores : List Configuration) : Prop where
  distinct : state.Distinct
  coreCount_le : state.coreCount ≤ state.configurations.size
  items : state.coreItems = cores.map Configuration.item

theorem Matches.aligned (matching : state.Matches grammar cores) :
    state.Aligned cores :=
  ⟨matching.regular.distinct, matching.regular.coreCount_le, matching.items⟩

namespace Aligned

theorem length (aligned : state.Aligned cores) :
    cores.length = state.coreCount := by
  have lengths := congrArg List.length aligned.items
  rw [coreItems_eq aligned.coreCount_le] at lengths
  simpa using lengths.symm

theorem item (aligned : state.Aligned cores) {index : Nat}
    (inside : index < cores.length) :
    (state.configuration index).item = cores[index].item := by
  have items := aligned.items
  rw [coreItems_eq aligned.coreCount_le] at items
  have same := congrArg (fun items => items[index]?) items
  simpa [inside, aligned.length ▸ inside] using same

theorem lt_size (aligned : state.Aligned cores) {index : Nat}
    (inside : index < cores.length) :
    index < state.configurations.size :=
  Nat.lt_of_lt_of_le (aligned.length ▸ inside) aligned.coreCount_le

theorem hasContext_iff (aligned : state.Aligned cores) {index : Nat}
    (inside : index < cores.length) {terminal : Nat} :
    state.HasContext cores[index].item terminal ↔
      terminal ∈ (state.configuration index).context := by
  rw [← aligned.item inside]
  exact aligned.distinct.hasContext_iff (aligned.lt_size inside)

theorem arrives_iff (aligned : state.Aligned cores) {index : Nat}
    (inside : index < cores.length) {terminal : Nat} :
    Arrives cores cores[index].item terminal ↔
      terminal ∈ cores[index].context := by
  constructor
  · intro arrives
    obtain ⟨configuration, member, same, inContext⟩ := arrives
    obtain ⟨other, otherInside, rfl⟩ := List.getElem_of_mem member
    have equal : other = index := by
      apply aligned.distinct other index
        (aligned.lt_size otherInside) (aligned.lt_size inside)
      rw [aligned.item otherInside, aligned.item inside, same]
    subst equal
    exact inContext
  · intro inContext
    exact ⟨cores[index], List.getElem_mem inside, rfl, inContext⟩

theorem exists_index (aligned : state.Aligned cores) {item : Item}
    (core : item ∈ state.coreItems) :
    ∃ index, ∃ inside : index < cores.length, cores[index].item = item := by
  rw [aligned.items] at core
  obtain ⟨configuration, member, rfl⟩ := List.mem_map.mp core
  obtain ⟨index, inside, rfl⟩ := List.getElem_of_mem member
  exact ⟨index, inside, rfl⟩

end Aligned

theorem Arrives.mem_items {item : Item} {terminal : Nat}
    (arrives : Arrives cores item terminal) :
    item ∈ cores.map Configuration.item := by
  obtain ⟨configuration, member, same, -⟩ := arrives
  exact List.mem_map.mpr ⟨configuration, member, same⟩

theorem coreContexts_getElem? {index : Nat}
    (aligned : state.Aligned cores) (inside : index < cores.length) :
    state.coreContexts[index]? =
      some (state.configuration index).context := by
  rw [coreContexts_eq aligned.coreCount_le]
  simp [aligned.length ▸ inside]

theorem length_coreContexts (aligned : state.Aligned cores) :
    state.coreContexts.length = cores.length := by
  rw [coreContexts_eq aligned.coreCount_le, aligned.length]
  simp

/-- What arrives is already there. -/
theorem covers_iff (aligned : state.Aligned cores) :
    state.covers cores = true ↔
      ∀ item terminal, Arrives cores item terminal →
        state.HasContext item terminal := by
  have length := length_coreContexts aligned
  rw [covers, List.all_eq_true]
  constructor
  · intro all item terminal arrives
    obtain ⟨configuration, member, rfl, inContext⟩ := arrives
    obtain ⟨index, inside, rfl⟩ := List.getElem_of_mem member
    rw [aligned.hasContext_iff inside]
    have paired : ((state.configuration index).context, cores[index]) ∈
        state.coreContexts.zip cores := by
      apply List.mem_of_getElem? (i := index)
      rw [List.getElem?_zip_eq_some]
      exact ⟨coreContexts_getElem? aligned inside,
        List.getElem?_eq_getElem inside⟩
    exact TerminalSet.isSubset_iff.mp (all _ paired) terminal inContext
  · intro subset entry member
    obtain ⟨index, found⟩ := List.mem_iff_getElem?.mp member
    rw [List.getElem?_zip_eq_some] at found
    obtain ⟨context, core⟩ := found
    obtain ⟨inside, equal⟩ := List.getElem?_eq_some_iff.mp core
    rw [coreContexts_getElem? aligned inside, Option.some.injEq] at context
    apply TerminalSet.isSubset_iff.mpr
    intro terminal inContext
    rw [← equal] at inContext
    rw [← context, ← aligned.hasContext_iff inside]
    exact subset _ terminal ((aligned.arrives_iff inside).mpr inContext)

/-- Equal contexts: what arrives is what is there. -/
theorem coreContexts_eq_iff (aligned : state.Aligned cores) :
    state.coreContexts = cores.map Configuration.context ↔
      ∀ item ∈ state.coreItems, ∀ terminal,
        state.HasContext item terminal ↔ Arrives cores item terminal := by
  have length := length_coreContexts aligned
  constructor
  · intro same item core terminal
    obtain ⟨index, inside, rfl⟩ := aligned.exists_index core
    rw [aligned.hasContext_iff inside, aligned.arrives_iff inside]
    have equal := congrArg (fun contexts => contexts[index]?) same
    simp only [coreContexts_getElem? aligned inside, List.getElem?_map,
      List.getElem?_eq_getElem inside, Option.map_some,
      Option.some.injEq] at equal
    rw [equal]
  · intro same
    apply List.ext_getElem?
    intro index
    by_cases inside : index < cores.length
    · rw [coreContexts_getElem? aligned inside, List.getElem?_map,
        List.getElem?_eq_getElem inside, Option.map_some]
      refine congrArg some (TerminalSet.ext fun terminal => ?_)
      rw [← aligned.hasContext_iff inside, ← aligned.arrives_iff inside]
      apply same
      rw [aligned.items]
      exact List.mem_map_of_mem (List.getElem_mem inside)
    · rw [List.getElem?_eq_none (by omega),
        List.getElem?_eq_none (by simp; omega)]

/-- Two core items do not come to overlap by a merge alone. -/
def JoinCleanly (state : State) (cores : List Configuration)
    (here there : Item) : Prop :=
  (∃ terminal, state.HasContext here terminal ∧
      state.HasContext there terminal) ∨
    (∃ terminal, Arrives cores here terminal ∧
      Arrives cores there terminal) ∨
    ∀ terminal,
      ¬ (state.HasContext here terminal ∧ Arrives cores there terminal) ∧
        ¬ (state.HasContext there terminal ∧ Arrives cores here terminal)

/-- Whatever is asked of any two entries, of what is there and what arrives, is
asked of any two core items. -/
theorem Aligned.pairwise_zip_iff (aligned : state.Aligned cores)
    {test : TerminalSet × TerminalSet → TerminalSet × TerminalSet → Prop}
    {holds : Item → Item → Prop}
    (symm : ∀ one other, test one other → test other one)
    (means : ∀ left right, (leftInside : left < cores.length) →
      (rightInside : right < cores.length) →
        (test ((state.configuration left).context, cores[left].context)
            ((state.configuration right).context, cores[right].context) ↔
          holds cores[left].item cores[right].item)) :
    (state.coreContexts.zip (cores.map Configuration.context)).Pairwise test ↔
      ∀ here ∈ state.coreItems, ∀ there ∈ state.coreItems, here ≠ there →
        holds here there := by
  have length : (state.coreContexts.zip
      (cores.map Configuration.context)).length = cores.length := by
    rw [List.length_zip, length_coreContexts aligned, List.length_map,
      Nat.min_self]
  have value {index : Nat} (inside : index < cores.length)
      (bound : index < (state.coreContexts.zip
        (cores.map Configuration.context)).length) :
      (state.coreContexts.zip (cores.map Configuration.context))[index] =
        ((state.configuration index).context, cores[index].context) := by
    apply (List.getElem?_eq_some_iff.mp _).2
    rw [List.getElem?_zip_eq_some, coreContexts_getElem? aligned inside,
      List.getElem?_map, List.getElem?_eq_getElem inside]
    exact ⟨rfl, rfl⟩
  rw [List.pairwise_iff_getElem]
  constructor
  · intro pairwise here hereCore there thereCore different
    obtain ⟨left, leftInside, rfl⟩ := aligned.exists_index hereCore
    obtain ⟨right, rightInside, rfl⟩ := aligned.exists_index thereCore
    rw [← means left right leftInside rightInside]
    rcases Nat.lt_trichotomy left right with before | rfl | after
    · have tested := pairwise left right (length ▸ leftInside)
        (length ▸ rightInside) before
      rwa [value leftInside, value rightInside] at tested
    · exact absurd rfl different
    · have tested := pairwise right left (length ▸ rightInside)
        (length ▸ leftInside) after
      rw [value leftInside, value rightInside] at tested
      exact symm _ _ tested
  · intro all left right leftInside rightInside before
    have leftCore : left < cores.length := length ▸ leftInside
    have rightCore : right < cores.length := length ▸ rightInside
    rw [value leftCore, value rightCore, means left right leftCore rightCore]
    apply all
    · rw [aligned.items]
      exact List.mem_map_of_mem (List.getElem_mem leftCore)
    · rw [aligned.items]
      exact List.mem_map_of_mem (List.getElem_mem rightCore)
    · intro same
      rw [← aligned.item leftCore, ← aligned.item rightCore] at same
      have equal := aligned.distinct left right
        (aligned.lt_size leftCore) (aligned.lt_size rightCore) same
      omega

theorem weaklyCompatible_zip_iff (aligned : state.Aligned cores) :
    weaklyCompatible
        (state.coreContexts.zip (cores.map Configuration.context)) = true ↔
      ∀ here ∈ state.coreItems, ∀ there ∈ state.coreItems, here ≠ there →
        state.JoinCleanly cores here there := by
  rw [weaklyCompatible_iff]
  apply aligned.pairwise_zip_iff
  · exact fun _ _ => joinsCleanly_symm
  · intro left right leftInside rightInside
    rw [joinsCleanly_iff, JoinCleanly]
    simp only [aligned.hasContext_iff leftInside,
      aligned.hasContext_iff rightInside, aligned.arrives_iff leftInside,
      aligned.arrives_iff rightInside]

theorem joinContexts_sameItems (contexts : List TerminalSet) :
    state.SameItems (state.joinContexts contexts) := by
  constructor
  · rfl
  · rfl
  · simp [joinContexts]
  · intro index inside
    simp [joinContexts, configuration, Array.getD_eq_getD_getElem?, inside]

theorem configuration_joinContexts {contexts : List TerminalSet} {index : Nat}
    (inside : index < state.configurations.size) :
    (state.joinContexts contexts).configuration index =
      { state.configuration index with
        context := (state.configuration index).context ∪
          contexts.getD index ∅ } := by
  simp [joinContexts, configuration, Array.getD_eq_getD_getElem?, inside]

theorem OriginatorsSound.joinContexts (sound : state.OriginatorsSound grammar)
    (contexts : List TerminalSet) :
    (state.joinContexts contexts).OriginatorsSound grammar := by
  have same := @joinContexts_sameItems state contexts
  intro index inside origin member
  rw [same.size] at inside
  rw [same.item index inside, same.size]
  rw [configuration_joinContexts inside] at member
  obtain ⟨originInside, dot, scanned⟩ := sound index inside origin member
  refine ⟨originInside, dot, ?_⟩
  rw [same.item origin originInside]
  exact scanned

theorem hasContext_joinContexts (aligned : state.Aligned cores)
    {item : Item} {terminal : Nat} :
    (state.joinContexts (cores.map Configuration.context)).HasContext item
        terminal ↔
      state.HasContext item terminal ∨ Arrives cores item terminal := by
  have same := @joinContexts_sameItems state
    (cores.map Configuration.context)
  constructor
  · intro has
    obtain ⟨index, inside, rfl, member⟩ := has
    rw [same.size] at inside
    rw [same.item index inside]
    rw [configuration_joinContexts inside] at member
    rcases TerminalSet.mem_union.mp member with old | new
    · exact Or.inl ⟨index, inside, rfl, old⟩
    · by_cases core : index < cores.length
      · right
        rw [aligned.item core, aligned.arrives_iff core]
        simpa [core] using new
      · exfalso
        simp [core] at new
  · intro either
    rcases either with old | arrives
    · obtain ⟨index, inside, rfl, member⟩ := old
      refine ⟨index, same.size.symm ▸ inside, same.item index inside, ?_⟩
      rw [configuration_joinContexts inside]
      exact TerminalSet.mem_union.mpr (Or.inl member)
    · obtain ⟨index, inside, rfl⟩ := aligned.exists_index
        (aligned.items.symm ▸ arrives.mem_items)
      have member := (aligned.arrives_iff inside).mp arrives
      have bound := aligned.lt_size inside
      refine ⟨index, same.size.symm ▸ bound, ?_, ?_⟩
      · rw [same.item index bound, aligned.item inside]
      · rw [configuration_joinContexts bound]
        apply TerminalSet.mem_union.mpr
        right
        simpa [inside] using member

/-- The state with what arrives joined to it and closed again. -/
def joined (grammar : Grammar) (first : FirstSets) (state : State)
    (cores : List Configuration) : State :=
  ((state.joinContexts (cores.map Configuration.context)).close grammar first
    true).1

theorem absorb_eq : state.absorb grammar first cores =
    if state.covers cores then (state, false)
    else (state.joined grammar first cores, true) :=
  rfl

/-- What arrives is now there, and the rest follows from it by closure. -/
structure Joined (grammar : Grammar) (first : FirstSets)
    (cores : List Configuration) (old new : State) : Prop where
  sameItems : old.SameItems new
  regular : new.Regular grammar
  closed : new.Closed grammar first true
  snug : new.Snug grammar
  core : ∀ item terminal, item.InKernel →
    (new.HasContext item terminal ↔
      old.HasContext item terminal ∨ Arrives cores item terminal)
  grows : ∀ item terminal, old.HasContext item terminal →
    new.HasContext item terminal
  links : new = { old with configurations := new.configurations }

/-- A state is closed again after what arrives was added to its contexts. -/
theorem Matches.joined_close (wellFormed : grammar.WellFormed)
    (unused : grammar.GoalUnused) (exact : first.Exact grammar)
    {changed : State} (matching : state.Matches grammar cores)
    (closed : state.ItemsClosed grammar) (snug : state.Snug grammar)
    (same : state.SameItems changed)
    (originators : changed.OriginatorsSound grammar)
    (contexts : ∀ item terminal, changed.HasContext item terminal ↔
      state.HasContext item terminal ∨ Arrives cores item terminal)
    (links : changed =
      { state with configurations := changed.configurations }) :
    Joined grammar first cores state (changed.close grammar first true).1 := by
  have regular := same.regular matching.regular originators
  have reclosed := regular.reclose wellFormed unused exact
    (same.itemsClosed closed)
  have changedSnug : changed.Snug grammar := by
    intro item terminal has
    rw [same.coreItems]
    rcases (contexts item terminal).mp has with old | arrives
    · apply (snug item terminal old).mono
      intro other _ token present
      exact (contexts other token).mpr (Or.inl present)
    · refine .kernel ?_ has
      show item ∈ state.coreItems
      rw [matching.items]
      exact arrives.mem_items
  constructor
  · exact same.trans reclosed.sameItems
  · exact reclosed.regular
  · exact reclosed.closed
  · exact changedSnug.close wellFormed exact regular
  · intro item terminal inKernel
    rw [← contexts]
    exact reclosed.core item terminal inKernel
  · intro item terminal has
    exact reclosed.grows item terminal
      ((contexts item terminal).mpr (Or.inl has))
  · rw [reclosed.links, links]

theorem Matches.joined (wellFormed : grammar.WellFormed)
    (unused : grammar.GoalUnused) (exact : first.Exact grammar)
    (matching : state.Matches grammar cores)
    (closed : state.ItemsClosed grammar) (snug : state.Snug grammar) :
    Joined grammar first cores state (state.joined grammar first cores) :=
  matching.joined_close wellFormed unused exact closed snug
    (joinContexts_sameItems _)
    (matching.regular.originators.joinContexts _)
    (fun _ _ => hasContext_joinContexts matching.aligned) rfl

end State

end LRTables
