import LRTables.Proofs.ClosedStates

/-!
# Successors of a state

The core items of a successor are the advanced items of the state, in order.
The order makes the list of core items a function of the set of items.
-/

namespace LRTables

namespace Item

theorem precedes_iff {first second : Item} :
    first.precedes second = true ↔
      first.rule < second.rule ∨
        first.rule = second.rule ∧ first.dot ≤ second.dot := by
  simp [precedes]

theorem precedes_trans (first second third : Item)
    (earlier : first.precedes second = true)
    (later : second.precedes third = true) :
    first.precedes third = true := by
  rw [precedes_iff] at *
  omega

theorem precedes_total (first second : Item) :
    (first.precedes second || second.precedes first) = true := by
  rw [Bool.or_eq_true, precedes_iff, precedes_iff]
  omega

theorem precedes_antisymm {first second : Item}
    (forward : first.precedes second = true)
    (backward : second.precedes first = true) : first = second := by
  rw [precedes_iff] at forward backward
  cases first
  cases second
  simp only [Item.mk.injEq] at *
  omega

/-- A list of items in increasing order, each once. -/
structure Ascending (items : List Item) : Prop where
  nodup : items.Nodup
  sorted : items.Pairwise fun first second => first.precedes second = true

theorem Ascending.eq_of_mem_iff {first second : List Item}
    (firstAscending : Ascending first) (secondAscending : Ascending second)
    (same : ∀ item, item ∈ first ↔ item ∈ second) : first = second := by
  apply @List.Perm.eq_of_pairwise Item fun first second =>
    first.precedes second = true
  · intro left right _ _ forward backward
    exact precedes_antisymm forward backward
  · exact firstAscending.sorted
  · exact secondAscending.sorted
  · exact (List.perm_ext_iff_of_nodup firstAscending.nodup
      secondAscending.nodup).mpr same

end Item

namespace State

variable {grammar : Grammar} {first : FirstSets} {contexts : Bool}
  {state : State} {symbol : Symbol}

/-- The core items of the successor on a symbol. -/
def successorItems (grammar : Grammar) (state : State) (symbol : Symbol) :
    List Item :=
  ((state.items.filter fun item =>
    item.scanned grammar == some symbol).map Item.advance).mergeSort
      Item.precedes

theorem mem_successorItems {item : Item} :
    item ∈ state.successorItems grammar symbol ↔
      ∃ origin ∈ state.items, origin.scanned grammar = some symbol ∧
        item = origin.advance := by
  simp only [successorItems, List.mem_mergeSort, List.mem_map,
    List.mem_filter, beq_iff_eq, and_assoc]
  simp only [eq_comm (a := item)]

theorem ascending_successorItems (distinct : state.Distinct) :
    Item.Ascending (state.successorItems grammar symbol) := by
  constructor
  · rw [successorItems, (List.mergeSort_perm _ _).nodup_iff]
    apply List.Nodup.map
    · intro left right equal
      exact Item.advance_injective equal
    · exact (distinct_iff_nodup.mp distinct).filter _
  · exact List.pairwise_mergeSort Item.precedes_trans Item.precedes_total _

theorem items_successorCores :
    (state.successorCores grammar contexts symbol).map Configuration.item =
      state.successorItems grammar symbol := by
  rw [successorCores, List.map_mergeSort (s := Item.precedes)]
  · rw [successorItems, items, List.map_map, List.filter_map, List.map_map]
    rfl
  · intro left _ right _
    rfl

theorem mem_successorCores {configuration : Configuration} :
    configuration ∈ state.successorCores grammar contexts symbol ↔
      ∃ index < state.configurations.size,
        (state.configuration index).item.scanned grammar = some symbol ∧
          configuration =
            .ofItem (state.configuration index).item.advance
              (if contexts then (state.configuration index).context
                else ∅) := by
  simp only [successorCores, List.mem_mergeSort, List.mem_map,
    List.mem_filter, beq_iff_eq, Array.mem_toList_iff, mem_configurations]
  constructor
  · intro found
    obtain ⟨_, ⟨⟨index, inside, rfl⟩, scanned⟩, rfl⟩ := found
    exact ⟨index, inside, scanned, rfl⟩
  · intro found
    obtain ⟨index, inside, scanned, rfl⟩ := found
    exact ⟨_, ⟨⟨index, inside, rfl⟩, scanned⟩, rfl⟩

theorem mem_scannedSymbols :
    symbol ∈ state.scannedSymbols grammar ↔
      ∃ item ∈ state.items, item.scanned grammar = some symbol := by
  rw [scannedSymbols, Ordered.mem_foldl_insert]
  simp [items]

theorem eq_of_successorItems_eq {scanned : Symbol}
    (scans : symbol ∈ state.scannedSymbols grammar)
    (same : state.successorItems grammar scanned =
      state.successorItems grammar symbol) : scanned = symbol := by
  obtain ⟨item, inside, isScanned⟩ := mem_scannedSymbols.mp scans
  have member : item.advance ∈ state.successorItems grammar scanned :=
    same ▸ mem_successorItems.mpr ⟨item, inside, isScanned, rfl⟩
  obtain ⟨origin, -, originScanned, advanced⟩ := mem_successorItems.mp member
  rw [Item.advance_injective advanced, originScanned] at isScanned
  exact Option.some.inj isScanned

theorem nodup_scannedSymbols (grammar : Grammar) (state : State) :
    (state.scannedSymbols grammar).Nodup :=
  Ordered.nodup_foldl_insert List.nodup_nil

namespace SameItems

variable {old new : State}

theorem successorItems (same : old.SameItems new) :
    new.successorItems grammar symbol = old.successorItems grammar symbol := by
  rw [State.successorItems, State.successorItems, same.items]

theorem mem_scannedSymbols (same : old.SameItems new) :
    symbol ∈ new.scannedSymbols grammar ↔
      symbol ∈ old.scannedSymbols grammar := by
  rw [State.mem_scannedSymbols, State.mem_scannedSymbols, same.items]

end SameItems

/-- Lookaheads that arrive with core configurations. -/
def Arrives (cores : List Configuration) (item : Item) (terminal : Nat) :
    Prop :=
  ∃ configuration ∈ cores, configuration.item = item ∧
    terminal ∈ configuration.context

theorem arrives_successorCores {item : Item} {terminal : Nat} :
    Arrives (state.successorCores grammar true symbol) item terminal ↔
      ∃ origin, state.HasContext origin terminal ∧
        origin.scanned grammar = some symbol ∧ item = origin.advance := by
  constructor
  · intro arrives
    obtain ⟨configuration, member, rfl, inContext⟩ := arrives
    obtain ⟨index, inside, scanned, rfl⟩ := mem_successorCores.mp member
    exact ⟨_, ⟨index, inside, rfl, inContext⟩, scanned, rfl⟩
  · intro found
    obtain ⟨_, ⟨index, inside, rfl, inContext⟩, scanned, rfl⟩ := found
    exact ⟨_, mem_successorCores.mpr ⟨index, inside, scanned, rfl⟩, rfl,
      inContext⟩

theorem not_arrives_successorCores {item : Item} {terminal : Nat} :
    ¬ Arrives (state.successorCores grammar false symbol) item terminal := by
  intro arrives
  obtain ⟨configuration, member, rfl, inContext⟩ := arrives
  obtain ⟨index, inside, scanned, rfl⟩ := mem_successorCores.mp member
  exact TerminalSet.not_mem_empty terminal inContext

theorem hasContext_ofCores {entry : Option Symbol}
    {cores : List Configuration} {item : Item} {terminal : Nat} :
    (ofCores entry cores).HasContext item terminal ↔
      Arrives cores item terminal := by
  constructor
  · intro has
    obtain ⟨index, inside, same, member⟩ := has
    rw [size_ofCores] at inside
    rw [configuration_ofCores inside] at same member
    exact ⟨cores[index], List.getElem_mem inside, same, member⟩
  · intro arrives
    obtain ⟨configuration, member, same, inContext⟩ := arrives
    obtain ⟨index, inside, rfl⟩ := List.getElem_of_mem member
    refine ⟨index, by rwa [size_ofCores], ?_⟩
    rw [configuration_ofCores inside]
    exact ⟨same, inContext⟩

theorem coreItems_ofCores (entry : Option Symbol)
    (cores : List Configuration) :
    (ofCores entry cores).coreItems = cores.map Configuration.item := by
  simp [coreItems, State.cores, ofCores]

theorem items_ofCores (entry : Option Symbol) (cores : List Configuration) :
    (ofCores entry cores).items = cores.map Configuration.item := by
  simp [items, ofCores]

/-- A state of fresh core configurations. -/
theorem regular_ofCores {entry : Option Symbol} {cores : List Configuration}
    (nodup : (cores.map Configuration.item).Nodup)
    (kernel : ∀ configuration ∈ cores, configuration.item.InKernel)
    (fresh : ∀ configuration ∈ cores, configuration.originators = []) :
    (ofCores entry cores).Regular grammar := by
  have size := size_ofCores entry cores
  constructor
  · rw [distinct_iff_nodup, items_ofCores]
    exact nodup
  · rw [size]
    exact Nat.le_refl _
  · intro index inside
    have inCores : index < cores.length := inside
    rw [configuration_ofCores inCores]
    exact kernel _ (List.getElem_mem inCores)
  · intro index past inside
    have outside : cores.length ≤ index := past
    omega
  · intro index inside
    apply Grammar.Spreads.kernel
    show _ ∈ (ofCores entry cores).coreItems
    rw [coreItems_ofCores, ← items_ofCores entry]
    exact State.mem_items.mpr ⟨index, inside, rfl⟩
  · intro index inside origin member
    rw [size] at inside
    rw [configuration_ofCores inside,
      fresh _ (List.getElem_mem inside)] at member
    cases member

theorem snug_ofCores (entry : Option Symbol) (cores : List Configuration) :
    (ofCores entry cores).Snug grammar := by
  intro item terminal has
  refine .kernel ?_ has
  rw [coreItems_ofCores, ← items_ofCores entry]
  exact has.mem_items

theorem regular_ofSuccessorCores {entry : Option Symbol}
    (distinct : state.Distinct) :
    (ofCores entry
      (state.successorCores grammar contexts symbol)).Regular grammar := by
  apply regular_ofCores
  · rw [items_successorCores]
    exact (ascending_successorItems distinct).nodup
  · intro configuration member
    obtain ⟨index, -, -, rfl⟩ := mem_successorCores.mp member
    exact Item.inKernel_advance _
  · intro configuration member
    obtain ⟨index, -, -, rfl⟩ := mem_successorCores.mp member
    rfl

end State

end LRTables
