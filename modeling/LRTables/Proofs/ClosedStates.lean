import LRTables.Proofs.Closure

/-!
# Closed states

The items of a closed state are those that its core items spread to, and its
lookaheads are those that its core carries.  Closing leaves the core as it is.
-/

namespace LRTables.State

variable {grammar : Grammar} {first : FirstSets} {contexts : Bool}
  {state : State}

/-- The core items come first; all else results from them by closure. -/
structure Regular (grammar : Grammar) (state : State) : Prop where
  distinct : state.Distinct
  coreCount_le : state.coreCount ≤ state.configurations.size
  kernel : ∀ index < state.coreCount,
    (state.configuration index).item.InKernel
  added : ∀ index, state.coreCount ≤ index →
    index < state.configurations.size →
      ¬ (state.configuration index).item.InKernel
  spreads : ∀ index < state.configurations.size,
    grammar.Spreads (· ∈ state.coreItems) (state.configuration index).item
  originators : state.OriginatorsSound grammar

/-- No lookahead is there without a reason. -/
def Snug (grammar : Grammar) (state : State) : Prop :=
  ∀ item terminal, state.HasContext item terminal →
    grammar.Carries (· ∈ state.coreItems) state.HasContext item terminal

namespace Regular

theorem mem_coreItems (regular : state.Regular grammar) {item : Item} :
    item ∈ state.coreItems ↔ item ∈ state.items ∧ item.InKernel := by
  rw [State.mem_coreItems regular.coreCount_le, mem_items]
  constructor
  · intro core
    obtain ⟨index, inside, rfl⟩ := core
    exact ⟨⟨index, Nat.lt_of_lt_of_le inside regular.coreCount_le, rfl⟩,
      regular.kernel index inside⟩
  · intro member
    obtain ⟨⟨index, inside, rfl⟩, inKernel⟩ := member
    by_cases core : index < state.coreCount
    · exact ⟨index, core, rfl⟩
    · exact absurd inKernel
        (regular.added index (Nat.le_of_not_lt core) inside)

theorem lt_coreCount (regular : state.Regular grammar) {index : Nat}
    (inside : index < state.configurations.size) :
    index < state.coreCount ↔ (state.configuration index).item.InKernel := by
  constructor
  · exact regular.kernel index
  · intro inKernel
    by_contra outside
    exact regular.added index (Nat.le_of_not_lt outside) inside inKernel

theorem hasContext_iff (regular : state.Regular grammar) {index : Nat}
    (inside : index < state.configurations.size) {terminal : Nat} :
    state.HasContext (state.configuration index).item terminal ↔
      terminal ∈ (state.configuration index).context :=
  regular.distinct.hasContext_iff inside

end Regular

theorem Provides.mem_items {origin rule : Nat} {lookaheads : TerminalSet}
    (provides : state.Provides origin lookaheads rule) :
    { rule, dot := 0 } ∈ state.items := by
  obtain ⟨index, inside, same, -⟩ := provides
  exact State.mem_items.mpr ⟨index, inside, same⟩

theorem Provides.hasContext {origin rule terminal : Nat}
    {lookaheads : TerminalSet}
    (provides : state.Provides origin lookaheads rule)
    (member : terminal ∈ lookaheads) :
    state.HasContext { rule, dot := 0 } terminal := by
  obtain ⟨index, inside, same, -, subset⟩ := provides
  exact ⟨index, inside, same, subset terminal member⟩

/-- The items alone are closed. -/
def ItemsClosed (grammar : Grammar) (state : State) : Prop :=
  ∀ item ∈ state.items, ∀ nonterminal,
    item.scanned grammar = some (.nonterminal nonterminal) →
      ∀ rule ∈ grammar.rulesOf nonterminal, { rule, dot := 0 } ∈ state.items

theorem Closed.itemsClosed (closed : state.Closed grammar first contexts) :
    state.ItemsClosed grammar := by
  intro item member nonterminal scanned rule ofRule
  obtain ⟨index, inside, rfl⟩ := State.mem_items.mp member
  exact (closed index inside nonterminal _ (Item.rest_of_scanned scanned) rule
    ofRule).mem_items

theorem ItemsClosed.mem_items (closed : state.ItemsClosed grammar)
    {kernel : Item → Prop}
    (subset : ∀ item, kernel item → item ∈ state.items) {item : Item}
    (spreads : grammar.Spreads kernel item) : item ∈ state.items := by
  induction spreads with
  | kernel member => exact subset _ member
  | closure _ scanned member ih => exact closed _ ih _ scanned _ member

theorem Closed.hasContext_of_carries (wellFormed : grammar.WellFormed)
    (exact : first.Exact grammar) (closed : state.Closed grammar first true)
    {kernel : Item → Prop} {context : Item → Nat → Prop}
    (items : ∀ item, kernel item → item ∈ state.items)
    (subset : ∀ item, kernel item → ∀ terminal, context item terminal →
      state.HasContext item terminal)
    {item : Item} {terminal : Nat}
    (carries : grammar.Carries kernel context item terminal) :
    state.HasContext item terminal := by
  induction carries with
  | kernel member inContext => exact subset _ member _ inContext
  | @generated item nonterminal rule terminal spreads scanned member begins =>
      have present := closed.itemsClosed.mem_items items spreads
      obtain ⟨index, inside, rfl⟩ := State.mem_items.mp present
      apply (closed index inside nonterminal _ (Item.rest_of_scanned scanned)
        rule member).hasContext
      rw [Closing.mem_generated exact (Grammar.declares_tail wellFormed _)]
      exact Or.inl begins
  | @inherited item nonterminal rule terminal _ scanned member vanishes ih =>
      obtain ⟨index, inside, rfl, inContext⟩ := ih
      apply (closed index inside nonterminal _ (Item.rest_of_scanned scanned)
        rule member).hasContext
      rw [Closing.mem_generated exact (Grammar.declares_tail wellFormed _)]
      exact Or.inr ⟨vanishes, inContext⟩

theorem Regular.mem_items (regular : state.Regular grammar)
    (closed : state.ItemsClosed grammar) {item : Item} :
    item ∈ state.items ↔ grammar.Spreads (· ∈ state.coreItems) item := by
  constructor
  · intro member
    obtain ⟨index, inside, rfl⟩ := State.mem_items.mp member
    exact regular.spreads index inside
  · intro spreads
    exact closed.mem_items (fun _ => coreItems_subset) spreads

theorem Closed.hasContext_of_hands (wellFormed : grammar.WellFormed)
    (exact : first.Exact grammar) (closed : state.Closed grammar first true)
    {item inner : Item} {terminal : Nat} (hands : grammar.Hands item inner)
    (has : state.HasContext item terminal) :
    state.HasContext inner terminal := by
  cases hands with
  | @intro nonterminal rule scanned member vanishes =>
      have carries : grammar.Carries (· ∈ state.items) state.HasContext
          { rule, dot := 0 } terminal :=
        .inherited (.kernel has.mem_items has) scanned member vanishes
      exact closed.hasContext_of_carries wellFormed exact
        (fun _ present => present) (fun _ _ _ has => has) carries

/-- The lookaheads of a closed state are those that its core carries. -/
theorem Snug.hasContext_iff (wellFormed : grammar.WellFormed)
    (exact : first.Exact grammar) (snug : state.Snug grammar)
    (closed : state.Closed grammar first true) {item : Item}
    {terminal : Nat} :
    state.HasContext item terminal ↔
      grammar.Carries (· ∈ state.coreItems) state.HasContext item
        terminal := by
  constructor
  · exact snug item terminal
  · intro carries
    exact closed.hasContext_of_carries wellFormed exact
      (fun _ => coreItems_subset) (fun _ _ _ has => has) carries

/-- The new state has the items of the old one at the same places. -/
structure SameItems (old new : State) : Prop where
  entry : new.entry = old.entry
  coreCount : new.coreCount = old.coreCount
  size : new.configurations.size = old.configurations.size
  item : ∀ index < old.configurations.size,
    (new.configuration index).item = (old.configuration index).item

namespace SameItems

variable {old new : State}

theorem refl (state : State) : state.SameItems state := by
  constructor
  · rfl
  · rfl
  · rfl
  · intro index _
    rfl

theorem trans {later : State} (first : old.SameItems new)
    (second : new.SameItems later) : old.SameItems later := by
  constructor
  · rw [second.entry, first.entry]
  · rw [second.coreCount, first.coreCount]
  · rw [second.size, first.size]
  · intro index inside
    rw [second.item index (first.size ▸ inside), first.item index inside]

theorem symm (same : old.SameItems new) : new.SameItems old := by
  constructor
  · exact same.entry.symm
  · exact same.coreCount.symm
  · exact same.size.symm
  · intro index inside
    exact (same.item index (same.size ▸ inside)).symm

theorem items (same : old.SameItems new) : new.items = old.items := by
  rw [items_eq, items_eq, same.size]
  apply List.map_congr_left
  intro index member
  exact same.item index (List.mem_range.mp member)

theorem coreItems (same : old.SameItems new) :
    new.coreItems = old.coreItems := by
  have split (state : State) :
      state.coreItems = state.items.take state.coreCount := by
    rw [State.coreItems, State.items, cores, List.map_take]
  rw [split, split, same.items, same.coreCount]

theorem regular (same : old.SameItems new) (regular : old.Regular grammar)
    (originators : new.OriginatorsSound grammar) : new.Regular grammar := by
  have inside {index : Nat} (member : index < new.configurations.size) :
      index < old.configurations.size := same.size ▸ member
  constructor
  · rw [distinct_iff_nodup, same.items, ← distinct_iff_nodup]
    exact regular.distinct
  · rw [same.coreCount, same.size]
    exact regular.coreCount_le
  · intro index core
    rw [same.coreCount] at core
    rw [same.item index (Nat.lt_of_lt_of_le core regular.coreCount_le)]
    exact regular.kernel index core
  · intro index past member
    rw [same.item index (inside member)]
    exact regular.added index (same.coreCount ▸ past) (inside member)
  · intro index member
    rw [same.item index (inside member), same.coreItems]
    exact regular.spreads index (inside member)
  · exact originators

end SameItems

theorem Extends.coreItems {old new : State} (grows : old.Extends new)
    (bound : old.coreCount ≤ old.configurations.size) :
    new.coreItems = old.coreItems := by
  have count : new.coreCount = old.coreCount := by rw [grows.frame]
  rw [coreItems_eq bound, coreItems_eq
    (count ▸ bound.trans grows.size_le), count]
  apply List.map_congr_left
  intro index member
  exact grows.item index
    (Nat.lt_of_lt_of_le (List.mem_range.mp member) bound)

theorem Extends.hasContext {old new : State} (grows : old.Extends new)
    {item : Item} {terminal : Nat} (has : old.HasContext item terminal) :
    new.HasContext item terminal := by
  obtain ⟨index, inside, same, member⟩ := has
  refine ⟨index, Nat.lt_of_lt_of_le inside grows.size_le, ?_, ?_⟩
  · rw [grows.item index inside, same]
  · exact grows.context index inside terminal member

theorem bounds_carries (wellFormed : grammar.WellFormed)
    (exact : first.Exact grammar) (kernel : Item → Prop)
    (context : Item → Nat → Prop) :
    ClosedBounds grammar first contexts (grammar.Spreads kernel)
      (grammar.Carries kernel context) := by
  intro item nonterminal tail rule lookaheads spreads rest member carried
  obtain ⟨scanned, rfl⟩ := Item.scanned_of_rest rest
  refine ⟨.closure spreads scanned member, ?_⟩
  intro terminal inLookaheads
  cases contexts with
  | false => exact absurd inLookaheads Closing.not_mem_generated
  | true =>
      rcases (Closing.mem_generated exact
        (Grammar.declares_tail wellFormed item)).mp inLookaheads with
        begins | ⟨vanishes, inherited⟩
      · exact .generated spreads scanned member begins
      · exact .inherited (carried terminal inherited) scanned member vanishes

end State

theorem Closing.addRule_of_ne {closing : Closing} {origin rule index : Nat}
    {lookaheads : TerminalSet}
    (inside : index < closing.state.configurations.size)
    (different : (closing.state.configuration index).item ≠
      { rule, dot := 0 }) :
    (closing.addRule origin lookaheads rule).state.configuration index =
      closing.state.configuration index := by
  cases found : closing.state.find? { rule, dot := 0 } with
  | none =>
      rw [addRule_absent found, State.configuration_append_of_lt inside]
  | some target =>
      rw [addRule_present found]
      apply State.configuration_modify_ne
      rintro rfl
      exact different (State.find?_spec found).2

namespace State

variable {grammar : Grammar} {first : FirstSets} {contexts : Bool}
  {state : State}

/-- Closing does not touch an item that nothing brings in. -/
theorem close_of_not_brought {index : Nat}
    (inside : index < state.configurations.size)
    (apart : ∀ (item : Item) (nonterminal : Nat),
      item.scanned grammar = some (.nonterminal nonterminal) →
        ∀ rule ∈ grammar.rulesOf nonterminal,
          (state.configuration index).item ≠ { rule, dot := 0 }) :
    (state.close grammar first contexts).1.configuration index =
      state.configuration index := by
  have kept := @close_induction grammar first contexts state
    (fun later => index < later.configurations.size ∧
      later.configuration index = state.configuration index)
    (by
      intro closing origin originInside holds
      rcases Closing.scans_or_idle grammar
          (closing.state.configuration origin).item with
        ⟨nonterminal, tail, rest⟩ | idle
      · rw [Closing.expand_of_scans rest]
        apply Closing.addRules_induction (fun later =>
          index < later.state.configurations.size ∧
            later.state.configuration index = state.configuration index) holds
        intro middle _ middleHolds rule member
        constructor
        · exact Nat.lt_of_lt_of_le middleHolds.1
            (middle.addRule_extends origin _ rule).size_le
        · rw [Closing.addRule_of_ne middleHolds.1, middleHolds.2]
          rw [middleHolds.2]
          exact apart _ nonterminal (Item.scanned_of_rest rest).1 rule member
      · rw [Closing.expand_of_idle idle]
        exact holds)
    ⟨inside, rfl⟩
  exact kept.2

theorem close_core (wellFormed : grammar.WellFormed)
    (unused : grammar.GoalUnused) {index : Nat}
    (inside : index < state.configurations.size)
    (core : (state.configuration index).item.InKernel) :
    (state.close grammar first contexts).1.configuration index =
      state.configuration index := by
  apply close_of_not_brought inside
  intro item nonterminal scanned rule member same
  exact Grammar.not_inKernel_closure wellFormed unused scanned member
    (same ▸ core)

theorem close_of_dot {index : Nat}
    (inside : index < state.configurations.size)
    (moved : (state.configuration index).item.dot ≠ 0) :
    (state.close grammar first contexts).1.configuration index =
      state.configuration index := by
  apply close_of_not_brought inside
  intro item nonterminal _ rule _ same
  exact moved (congrArg Item.dot same)

theorem close_coreCount :
    (state.close grammar first contexts).1.coreCount = state.coreCount := by
  rw [(@close_extends grammar first contexts state).frame]

theorem close_coreItems (bound : state.coreCount ≤ state.configurations.size) :
    (state.close grammar first contexts).1.coreItems = state.coreItems :=
  close_extends.coreItems bound

theorem close_entry :
    (state.close grammar first contexts).1.entry = state.entry := by
  rw [(@close_extends grammar first contexts state).frame]

theorem Regular.close (wellFormed : grammar.WellFormed)
    (unused : grammar.GoalUnused) (regular : state.Regular grammar) :
    (state.close grammar first contexts).1.Regular grammar := by
  have grows : state.Extends (state.close grammar first contexts).1 :=
    close_extends
  have distinct : (state.close grammar first contexts).1.Distinct :=
    close_distinct regular.distinct
  have count : (state.close grammar first contexts).1.coreCount =
      state.coreCount := close_coreCount
  have coreItems : (state.close grammar first contexts).1.coreItems =
      state.coreItems := close_coreItems regular.coreCount_le
  -- What is in the kernel was among the core items from the start.
  have bounds : ClosedBounds grammar first contexts
      (fun item => grammar.Spreads (· ∈ state.coreItems) item ∧
        (item.InKernel → item ∈ state.coreItems))
      fun _ _ => True := by
    intro item nonterminal tail rule context bound rest member _
    have scanned := (Item.scanned_of_rest rest).1
    refine ⟨⟨.closure bound.1 scanned member, ?_⟩, fun _ _ => trivial⟩
    intro inKernel
    exact absurd inKernel
      (Grammar.not_inKernel_closure wellFormed unused scanned member)
  have within := @close_within _ _ _ state _ _ bounds (by
    intro index inside
    refine ⟨⟨regular.spreads index inside, ?_⟩, fun _ _ => trivial⟩
    intro inKernel
    rw [regular.mem_coreItems]
    exact ⟨State.mem_items.mpr ⟨index, inside, rfl⟩, inKernel⟩)
  constructor
  · exact distinct
  · rw [count]
    exact regular.coreCount_le.trans grows.size_le
  · intro index core
    rw [count] at core
    rw [grows.item index (Nat.lt_of_lt_of_le core regular.coreCount_le)]
    exact regular.kernel index core
  · intro index past inside inKernel
    rw [count] at past
    have member := (within index inside).1.2 inKernel
    obtain ⟨other, otherCore, same⟩ :=
      (State.mem_coreItems regular.coreCount_le).mp member
    have otherInside := Nat.lt_of_lt_of_le otherCore regular.coreCount_le
    have equal := distinct other index
      (Nat.lt_of_lt_of_le otherInside grows.size_le) inside
      (by rw [grows.item other otherInside, same])
    omega
  · intro index inside
    rw [coreItems]
    exact (within index inside).1.1
  · exact close_originatorsSound regular.originators

theorem Snug.close (wellFormed : grammar.WellFormed)
    (exact : first.Exact grammar) (regular : state.Regular grammar)
    (snug : state.Snug grammar) :
    (state.close grammar first contexts).1.Snug grammar := by
  have within := @close_within _ _ contexts state _ _
    (bounds_carries wellFormed exact (· ∈ state.coreItems) state.HasContext)
    (by
      intro index inside
      refine ⟨regular.spreads index inside, ?_⟩
      intro terminal member
      exact snug _ terminal ⟨index, inside, rfl, member⟩)
  intro item terminal has
  obtain ⟨index, inside, rfl, member⟩ := has
  rw [close_coreItems regular.coreCount_le]
  apply ((within index inside).2 terminal member).mono
  intro item _ terminal old
  exact close_extends.hasContext old

/-- Closing a closed state again adds no items. -/
theorem ItemsClosed.close_sameItems (closed : state.ItemsClosed grammar)
    (distinct : state.Distinct) :
    state.SameItems (state.close grammar first contexts).1 := by
  have grows : state.Extends (state.close grammar first contexts).1 :=
    close_extends
  have bounds : ClosedBounds grammar first contexts (· ∈ state.items)
      fun _ _ => True := by
    intro item nonterminal tail rule context member rest ofRule _
    refine ⟨?_, fun _ _ => trivial⟩
    exact closed _ member _ (Item.scanned_of_rest rest).1 _ ofRule
  have within := @close_within _ _ _ state _ _ bounds (by
    intro index inside
    exact ⟨State.mem_items.mpr ⟨index, inside, rfl⟩, fun _ _ => trivial⟩)
  constructor
  · exact close_entry
  · exact close_coreCount
  · by_contra different
    have longer : state.configurations.size <
        (state.close grammar first contexts).1.configurations.size :=
      Nat.lt_of_le_of_ne grows.size_le (Ne.symm different)
    obtain ⟨index, inside, same⟩ :=
      State.mem_items.mp (within _ longer).1
    have equal := @close_distinct grammar first contexts state distinct
      index _ (Nat.lt_of_lt_of_le inside grows.size_le) longer
      (by rw [grows.item index inside, same])
    omega
  · exact grows.item

theorem SameItems.itemsClosed {old new : State} (same : old.SameItems new)
    (closed : old.ItemsClosed grammar) : new.ItemsClosed grammar := by
  intro item member nonterminal scanned rule ofRule
  rw [same.items] at *
  exact closed item member nonterminal scanned rule ofRule

/-- A closed state whose contexts were changed is closed again. -/
structure Reclosed (grammar : Grammar) (first : FirstSets)
    (changed new : State) : Prop where
  sameItems : changed.SameItems new
  regular : new.Regular grammar
  closed : new.Closed grammar first true
  core : ∀ item terminal, item.InKernel →
    (new.HasContext item terminal ↔ changed.HasContext item terminal)
  grows : ∀ item terminal, changed.HasContext item terminal →
    new.HasContext item terminal
  links : new = { changed with configurations := new.configurations }

theorem Regular.reclose (wellFormed : grammar.WellFormed)
    (unused : grammar.GoalUnused) (exact : first.Exact grammar)
    (regular : state.Regular grammar) (closed : state.ItemsClosed grammar) :
    state.Reclosed grammar first (state.close grammar first true).1 := by
  have same : state.SameItems (state.close grammar first true).1 :=
    closed.close_sameItems regular.distinct
  constructor
  · exact same
  · exact regular.close wellFormed unused
  · exact close_closed wellFormed exact
  · intro item terminal inKernel
    constructor
    · intro has
      obtain ⟨index, inside, rfl, member⟩ := has
      rw [same.size] at inside
      rw [same.item index inside] at inKernel ⊢
      rw [close_core wellFormed unused inside inKernel] at member
      exact ⟨index, inside, rfl, member⟩
    · exact close_extends.hasContext
  · intro item terminal
    exact close_extends.hasContext
  · exact close_extends.frame

end State

end LRTables
