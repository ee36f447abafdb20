import LRTables.Automaton.Basic
import Mathlib.Data.List.Nodup

/-!
# Configurations of a state

Configurations are reached by their index.  The lemmas here say what each
operation on a state does at one index, and what the lists made from a state
hold.
-/

namespace LRTables.State

variable {state : State}

theorem configuration_of_lt {index : Nat}
    (inside : index < state.configurations.size) :
    state.configuration index = state.configurations[index] := by
  simp [configuration, Array.getD, inside]

theorem getElem?_configurations {index : Nat}
    (inside : index < state.configurations.size) :
    state.configurations[index]? = some (state.configuration index) := by
  rw [configuration_of_lt inside, Array.getElem?_eq_getElem inside]

theorem configurations_toList (state : State) :
    state.configurations.toList =
      (List.range state.configurations.size).map state.configuration := by
  apply List.ext_getElem
  · simp
  · intro index inside _
    rw [Array.length_toList] at inside
    simp [configuration_of_lt inside]

theorem mem_configurations {configuration : Configuration} :
    configuration ∈ state.configurations ↔
      ∃ index < state.configurations.size,
        state.configuration index = configuration := by
  rw [← Array.mem_toList_iff, configurations_toList]
  simp

@[simp] theorem size_modify (index : Nat)
    (change : Configuration → Configuration) :
    (state.modify index change).configurations.size =
      state.configurations.size := by
  simp [modify]

theorem configuration_modify_self {index : Nat}
    {change : Configuration → Configuration}
    (inside : index < state.configurations.size) :
    (state.modify index change).configuration index =
      change (state.configuration index) := by
  simp [modify, configuration, Array.getD_eq_getD_getElem?,
    Array.getElem_modify, inside]

theorem configuration_modify_ne {index other : Nat}
    {change : Configuration → Configuration} (different : other ≠ index) :
    (state.modify index change).configuration other =
      state.configuration other := by
  simp [modify, configuration, Array.getD_eq_getD_getElem?,
    Array.getElem?_modify, different.symm]

theorem configuration_modify {index other : Nat}
    {change : Configuration → Configuration}
    (inside : index < state.configurations.size) :
    (state.modify index change).configuration other =
      if other = index then change (state.configuration other)
      else state.configuration other := by
  split
  · rename_i same
    subst same
    exact configuration_modify_self inside
  · rename_i different
    exact configuration_modify_ne different

theorem modify_eq_self {index : Nat} {change : Configuration → Configuration}
    (inside : index < state.configurations.size)
    (kept : change (state.configuration index) = state.configuration index) :
    state.modify index change = state := by
  have same : state.configurations.modify index change =
      state.configurations := by
    apply Array.ext
    · simp
    · intro other _ otherInside
      rw [Array.getElem_modify]
      split
      · rename_i equal
        subst equal
        rw [← configuration_of_lt inside, kept]
      · rfl
  rw [modify, same]

theorem configuration_modify_keeps {β : Type} {index other : Nat}
    {change : Configuration → Configuration} (component : Configuration → β)
    (keeps : ∀ configuration,
      component (change configuration) = component configuration) :
    component ((state.modify index change).configuration other) =
      component (state.configuration other) := by
  by_cases same : other = index
  · subst same
    by_cases inside : other < state.configurations.size
    · rw [configuration_modify_self inside, keeps]
    · simp [modify, configuration, Array.getD_eq_getD_getElem?, inside]
  · rw [configuration_modify_ne same]

/-- The state with one more configuration. -/
def append (state : State) (added : Configuration) : State :=
  { state with configurations := state.configurations.push added }

@[simp] theorem size_append (added : Configuration) :
    (state.append added).configurations.size =
      state.configurations.size + 1 := by
  simp [append]

theorem configuration_append_of_lt {added : Configuration} {index : Nat}
    (inside : index < state.configurations.size) :
    (state.append added).configuration index = state.configuration index := by
  simp [append, configuration, Array.getD_eq_getD_getElem?,
    Array.getElem?_push, Nat.ne_of_lt inside]

theorem configuration_append_size (added : Configuration) :
    (state.append added).configuration state.configurations.size = added := by
  simp [append, configuration, Array.getD_eq_getD_getElem?]

@[simp] theorem size_mapConfigurations
    (change : Configuration → Configuration) :
    (state.mapConfigurations change).configurations.size =
      state.configurations.size := by
  simp [mapConfigurations]

theorem configuration_mapConfigurations
    {change : Configuration → Configuration} {index : Nat}
    (inside : index < state.configurations.size) :
    (state.mapConfigurations change).configuration index =
      change (state.configuration index) := by
  simp [mapConfigurations, configuration, Array.getD_eq_getD_getElem?, inside]

/-- The items of all configurations. -/
def items (state : State) : List Item :=
  state.configurations.toList.map Configuration.item

/-- The items of the core configurations. -/
def coreItems (state : State) : List Item :=
  state.cores.map Configuration.item

theorem items_eq (state : State) :
    state.items = (List.range state.configurations.size).map fun index =>
      (state.configuration index).item := by
  rw [items, configurations_toList, List.map_map]
  rfl

theorem cores_eq (bound : state.coreCount ≤ state.configurations.size) :
    state.cores = (List.range state.coreCount).map state.configuration := by
  rw [cores, configurations_toList, ← List.map_take, List.take_range,
    Nat.min_eq_left bound]

theorem coreItems_eq (bound : state.coreCount ≤ state.configurations.size) :
    state.coreItems = (List.range state.coreCount).map fun index =>
      (state.configuration index).item := by
  rw [coreItems, cores_eq bound, List.map_map]
  rfl

theorem coreContexts_eq
    (bound : state.coreCount ≤ state.configurations.size) :
    state.coreContexts = (List.range state.coreCount).map fun index =>
      (state.configuration index).context := by
  rw [coreContexts, cores_eq bound, List.map_map]
  rfl

/-- States with the same items have them at the same places. -/
theorem item_of_items_eq {one other : State}
    (same : other.items = one.items) {index : Nat}
    (inside : index < one.configurations.size) :
    index < other.configurations.size ∧
      (other.configuration index).item = (one.configuration index).item := by
  rw [items_eq, items_eq] at same
  have length := congrArg List.length same
  simp only [List.length_map, List.length_range] at length
  have otherInside : index < other.configurations.size := by omega
  have place := congrArg (·[index]?) same
  simp only [List.getElem?_map, List.getElem?_range inside,
    List.getElem?_range otherInside, Option.map_some,
    Option.some.injEq] at place
  exact ⟨otherInside, place⟩

theorem mem_items {item : Item} :
    item ∈ state.items ↔
      ∃ index < state.configurations.size,
        (state.configuration index).item = item := by
  simp [items_eq]

theorem mem_coreItems (bound : state.coreCount ≤ state.configurations.size)
    {item : Item} :
    item ∈ state.coreItems ↔
      ∃ index < state.coreCount, (state.configuration index).item = item := by
  simp [coreItems_eq bound]

theorem coreItems_subset {item : Item} (member : item ∈ state.coreItems) :
    item ∈ state.items := by
  obtain ⟨configuration, inCores, rfl⟩ := List.mem_map.mp member
  exact List.mem_map_of_mem (List.mem_of_mem_take inCores)

/-- No item occurs twice. -/
def Distinct (state : State) : Prop :=
  ∀ first second, first < state.configurations.size →
    second < state.configurations.size →
    (state.configuration first).item = (state.configuration second).item →
    first = second

theorem distinct_iff_nodup : state.Distinct ↔ state.items.Nodup := by
  rw [items_eq]
  constructor
  · intro distinct
    refine List.Nodup.map_on ?_ List.nodup_range
    intro first firstInside second secondInside
    exact distinct first second (List.mem_range.mp firstInside)
      (List.mem_range.mp secondInside)
  · intro nodup first second firstInside secondInside
    exact List.inj_on_of_nodup_map nodup (List.mem_range.mpr firstInside)
      (List.mem_range.mpr secondInside)

theorem find?_eq_none {item : Item} :
    state.find? item = none ↔
      ∀ index < state.configurations.size,
        (state.configuration index).item ≠ item := by
  rw [find?, Array.findIdx?_eq_none_iff]
  simp only [mem_configurations, beq_eq_false_iff_ne]
  constructor
  · intro absent index inside
    exact absent _ ⟨index, inside, rfl⟩
  · rintro absent _ ⟨index, inside, rfl⟩
    exact absent index inside

theorem find?_spec {item : Item} {index : Nat}
    (found : state.find? item = some index) :
    index < state.configurations.size ∧
      (state.configuration index).item = item := by
  obtain ⟨inside, equal, -⟩ := Array.findIdx?_eq_some_iff_getElem.mp found
  refine ⟨inside, ?_⟩
  rw [configuration_of_lt inside]
  simpa using equal

theorem find?_eq_some (distinct : state.Distinct) {item : Item} {index : Nat} :
    state.find? item = some index ↔
      index < state.configurations.size ∧
        (state.configuration index).item = item := by
  constructor
  · exact find?_spec
  · rintro ⟨inside, rfl⟩
    cases found : state.find? (state.configuration index).item with
    | none => exact absurd rfl (find?_eq_none.mp found index inside)
    | some other =>
        obtain ⟨otherInside, equal⟩ := find?_spec found
        rw [distinct other index otherInside inside equal]

/-- The terminal is in the context of the item. -/
def HasContext (state : State) (item : Item) (terminal : Nat) : Prop :=
  ∃ index < state.configurations.size,
    (state.configuration index).item = item ∧
      terminal ∈ (state.configuration index).context

instance {item : Item} {terminal : Nat} :
    Decidable (state.HasContext item terminal) := by
  unfold HasContext
  infer_instance

theorem HasContext.mem_items {item : Item} {terminal : Nat}
    (has : state.HasContext item terminal) : item ∈ state.items := by
  obtain ⟨index, inside, equal, -⟩ := has
  exact State.mem_items.mpr ⟨index, inside, equal⟩

theorem Distinct.hasContext_iff (distinct : state.Distinct) {index : Nat}
    (inside : index < state.configurations.size) {terminal : Nat} :
    state.HasContext (state.configuration index).item terminal ↔
      terminal ∈ (state.configuration index).context := by
  constructor
  · intro has
    obtain ⟨other, otherInside, same, member⟩ := has
    rwa [distinct other index otherInside inside same] at member
  · intro member
    exact ⟨index, inside, rfl, member⟩

theorem size_ofCores (entry : Option Symbol) (cores : List Configuration) :
    (ofCores entry cores).configurations.size = cores.length := by
  simp [ofCores]

theorem configuration_ofCores {entry : Option Symbol}
    {cores : List Configuration} {index : Nat} (inside : index < cores.length) :
    (ofCores entry cores).configuration index = cores[index] := by
  simp [ofCores, configuration, Array.getD, inside]

end LRTables.State
