import LRTables.Proofs.Originators

/-!
# Closures of given cores

What results from given core items with given lookaheads by closure is
determined configuration by configuration: the items in order, the least
lookaheads that the closure equations allow, and the originators.
-/

namespace LRTables

/-- A core item with the lookaheads that it is given. -/
structure Given where
  item : Item
  lookaheads : TerminalSet

namespace Given

variable {given : List Given} {extra : List TerminalSet}

/-- The item is given. -/
def Names (given : List Given) (item : Item) : Prop :=
  item ∈ given.map Given.item

/-- The item is given with the terminal among its lookaheads. -/
def Supplies (given : List Given) (item : Item) (terminal : Nat) : Prop :=
  ∃ core ∈ given, core.item = item ∧ terminal ∈ core.lookaheads

/-- Add lookaheads to the first entries, one set for each. -/
def enlarge (given : List Given) (extra : List TerminalSet) : List Given :=
  given.mapIdx fun index core =>
    { core with lookaheads := core.lookaheads ∪ extra.getD index ∅ }

theorem length_enlarge : (enlarge given extra).length = given.length := by
  rw [enlarge, List.length_mapIdx]

theorem map_item_enlarge :
    (enlarge given extra).map Given.item = given.map Given.item := by
  apply List.ext_getElem
  · simp [enlarge]
  · intro index inside _
    simp [enlarge]

theorem supplies_enlarge {item : Item} {terminal : Nat} :
    Supplies (enlarge given extra) item terminal ↔
      Supplies given item terminal ∨
        ∃ index, ∃ inside : index < given.length,
          given[index].item = item ∧ terminal ∈ extra.getD index ∅ := by
  constructor
  · rintro ⟨core, listed, rfl, member⟩
    obtain ⟨index, inside, rfl⟩ := List.getElem_of_mem listed
    rw [length_enlarge] at inside
    simp only [enlarge, List.getElem_mapIdx] at member ⊢
    rcases TerminalSet.mem_union.mp member with old | new
    · exact Or.inl ⟨given[index], List.getElem_mem inside, rfl, old⟩
    · exact Or.inr ⟨index, inside, rfl, new⟩
  · intro either
    have place {index : Nat} (inside : index < given.length) :
        { given[index] with
          lookaheads := given[index].lookaheads ∪ extra.getD index ∅ } ∈
          enlarge given extra := by
      rw [enlarge, List.mem_mapIdx]
      exact ⟨index, inside, rfl⟩
    rcases either with ⟨core, listed, rfl, old⟩ | ⟨index, inside, rfl, new⟩
    · obtain ⟨index, inside, rfl⟩ := List.getElem_of_mem listed
      exact ⟨_, place inside, rfl, TerminalSet.mem_union.mpr (Or.inl old)⟩
    · exact ⟨_, place inside, rfl, TerminalSet.mem_union.mpr (Or.inr new)⟩

end Given

namespace Grammar

/-- What the closure equations ask for: a lookahead of an item is given, can
begin the tail of an item that brings it in, or is handed on by such an item
when its tail can vanish. -/
def Requires (grammar : Grammar) (given : List Given)
    (context : Item → Nat → Prop) (item : Item) (terminal : Nat) : Prop :=
  Given.Supplies given item terminal ∨
    ∃ parent, grammar.Spreads (Given.Names given) parent ∧
      item ∈ parent.brings grammar ∧
      (grammar.Begins (parent.tail grammar) terminal ∨
        grammar.Vanishes (parent.tail grammar) ∧ context parent terminal)

variable {grammar : Grammar} {given : List Given} {item : Item}
  {terminal : Nat}

/-- What closure carries solves the equations. -/
theorem carries_iff_requires :
    grammar.Carries (Given.Names given) (Given.Supplies given) item
        terminal ↔
      grammar.Requires given
        (grammar.Carries (Given.Names given) (Given.Supplies given)) item
        terminal := by
  constructor
  · intro carries
    cases carries with
    | kernel _ supplied => exact Or.inl supplied
    | generated spreads scanned member begins =>
        exact Or.inr ⟨_, spreads,
          Item.mem_brings.mpr ⟨_, scanned, _, member, rfl⟩, Or.inl begins⟩
    | inherited carried scanned member vanishes =>
        exact Or.inr ⟨_, carried.spreads,
          Item.mem_brings.mpr ⟨_, scanned, _, member, rfl⟩,
          Or.inr ⟨vanishes, carried⟩⟩
  · rintro (supplied | ⟨parent, spreads, brought, passed⟩)
    · obtain ⟨core, member, same, -⟩ := id supplied
      exact .kernel (same ▸ List.mem_map_of_mem member) supplied
    · obtain ⟨nonterminal, scanned, rule, member, rfl⟩ :=
        Item.mem_brings.mp brought
      rcases passed with begins | ⟨vanishes, carried⟩
      · exact .generated spreads scanned member begins
      · exact .inherited carried scanned member vanishes

theorem Carries.least {context : Item → Nat → Prop}
    (allows : ∀ item terminal,
      grammar.Requires given context item terminal → context item terminal)
    (carries : grammar.Carries (Given.Names given) (Given.Supplies given) item
      terminal) : context item terminal := by
  induction carries with
  | kernel _ supplied => exact allows _ _ (Or.inl supplied)
  | generated spreads scanned member begins =>
      exact allows _ _ (Or.inr ⟨_, spreads,
        Item.mem_brings.mpr ⟨_, scanned, _, member, rfl⟩, Or.inl begins⟩)
  | inherited carried scanned member vanishes ih =>
      exact allows _ _ (Or.inr ⟨_, carried.spreads,
        Item.mem_brings.mpr ⟨_, scanned, _, member, rfl⟩,
        Or.inr ⟨vanishes, ih⟩⟩)

end Grammar

theorem Configuration.eq_of_components {one other : Configuration}
    (item : one.item = other.item) (context : one.context = other.context)
    (originators : one.originators = other.originators)
    (transitors : one.transitors = other.transitors)
    (marks : one.marks = other.marks) : one = other := by
  cases one
  cases other
  simp only [Configuration.mk.injEq]
  exact ⟨item, context, originators, transitors, marks⟩

namespace State

/-- A state with the given core. -/
def ofGiven (entry : Option Symbol) (given : List Given) : State :=
  .ofCores entry (given.map fun core => .ofItem core.item core.lookaheads)

/-- The state results from the given core by closure.  This determines it, as
there is only one way to fill in each configuration. -/
structure ClosedFrom (grammar : Grammar) (entry : Option Symbol)
    (given : List Given) (state : State) : Prop where
  frame : state =
    { ofGiven entry given with configurations := state.configurations }
  size_le : given.length ≤ state.configurations.size
  coreItems : state.coreItems = given.map Given.item
  distinct : state.Distinct
  unrolled : state.Unrolled grammar
  items : ∀ item, item ∈ state.items ↔
    grammar.Spreads (Given.Names given) item
  contexts : ∀ item terminal, state.HasContext item terminal ↔
    grammar.Carries (Given.Names given) (Given.Supplies given) item terminal
  originators : state.FullyCredited grammar
  unlinked : ∀ index < state.configurations.size,
    (state.configuration index).transitors = [] ∧
      (state.configuration index).marks = .none

variable {grammar : Grammar} {first : FirstSets} {contexts : Bool}
  {entry : Option Symbol} {given : List Given} {state : State}

theorem coreCount_ofGiven : (ofGiven entry given).coreCount = given.length := by
  simp [ofGiven, ofCores]

theorem size_ofGiven :
    (ofGiven entry given).configurations.size = given.length := by
  rw [ofGiven, size_ofCores, List.length_map]

theorem configuration_ofGiven {index : Nat} (inside : index < given.length) :
    (ofGiven entry given).configuration index =
      .ofItem given[index].item given[index].lookaheads := by
  rw [ofGiven, configuration_ofCores (by simpa using inside),
    List.getElem_map]

theorem items_ofGiven :
    (ofGiven entry given).items = given.map Given.item := by
  simp [ofGiven, ofCores, items, Configuration.ofItem, Function.comp_def]

theorem coreItems_ofGiven :
    (ofGiven entry given).coreItems = given.map Given.item := by
  have bound : (ofGiven entry given).coreCount ≤
      (ofGiven entry given).configurations.size := by
    rw [coreCount_ofGiven, size_ofGiven]
  rw [coreItems_eq bound, ← items_ofGiven, items_eq, size_ofGiven,
    coreCount_ofGiven]

theorem hasContext_ofGiven {item : Item} {terminal : Nat} :
    (ofGiven entry given).HasContext item terminal ↔
      Given.Supplies given item terminal := by
  constructor
  · rintro ⟨index, inside, rfl, member⟩
    rw [size_ofGiven] at inside
    rw [configuration_ofGiven inside] at member ⊢
    exact ⟨given[index], List.getElem_mem inside, rfl, member⟩
  · rintro ⟨core, listed, rfl, member⟩
    obtain ⟨index, inside, rfl⟩ := List.getElem_of_mem listed
    refine ⟨index, size_ofGiven.symm ▸ inside, ?_, ?_⟩
    · rw [configuration_ofGiven inside]
      rfl
    · rw [configuration_ofGiven inside]
      exact member

/-- Closing spreads the kernel and carries its lookaheads, if the state holds
nothing else before. -/
theorem hasContext_close_iff (wellFormed : grammar.WellFormed)
    (exact : first.Exact grammar) {kernel : Item → Prop}
    {context : Item → Nat → Prop}
    (within : state.Within (grammar.Spreads kernel)
      (grammar.Carries kernel context))
    (present : ∀ item, kernel item → item ∈ state.items)
    (subset : ∀ item, kernel item → ∀ terminal, context item terminal →
      state.HasContext item terminal) {item : Item} {terminal : Nat} :
    (state.close grammar first true).1.HasContext item terminal ↔
      grammar.Carries kernel context item terminal := by
  have grows : state.Extends (state.close grammar first true).1 :=
    close_extends
  constructor
  · rintro ⟨index, inside, rfl, member⟩
    exact (close_within (bounds_carries wellFormed exact kernel context) within
      index inside).2 terminal member
  · intro carries
    refine (close_closed wellFormed exact).hasContext_of_carries wellFormed
      exact ?_ ?_ carries
    · intro item member
      obtain ⟨index, inside, rfl⟩ := mem_items.mp (present item member)
      exact mem_items.mpr ⟨index, Nat.lt_of_lt_of_le inside grows.size_le,
        grows.item index inside⟩
    · intro item member terminal given
      exact grows.hasContext (subset item member terminal given)

theorem mem_items_close_iff (wellFormed : grammar.WellFormed)
    (exact : first.Exact grammar) {kernel : Item → Prop}
    (within : ∀ item ∈ state.items, grammar.Spreads kernel item)
    (present : ∀ item, kernel item → item ∈ state.items) {item : Item} :
    item ∈ (state.close grammar first contexts).1.items ↔
      grammar.Spreads kernel item := by
  have grows : state.Extends (state.close grammar first contexts).1 :=
    close_extends
  have bounds : ClosedBounds grammar first contexts (grammar.Spreads kernel)
      fun _ _ => True := by
    intro item nonterminal tail rule context spreads rest member _
    exact ⟨.closure spreads (Item.scanned_of_rest rest).1 member,
      fun _ _ => trivial⟩
  constructor
  · intro member
    obtain ⟨index, inside, rfl⟩ := mem_items.mp member
    refine (close_within bounds ?_ index inside).1
    intro other otherInside
    exact ⟨within _ (mem_items.mpr ⟨other, otherInside, rfl⟩),
      fun _ _ => trivial⟩
  · intro spreads
    refine (close_closed wellFormed exact).itemsClosed.mem_items ?_ spreads
    intro item member
    obtain ⟨index, inside, rfl⟩ := mem_items.mp (present item member)
    exact mem_items.mpr ⟨index, Nat.lt_of_lt_of_le inside grows.size_le,
      grows.item index inside⟩

theorem distinct_ofGiven {entry : Option Symbol}
    (nodup : (given.map Given.item).Nodup) :
    (ofGiven entry given).Distinct := by
  rw [distinct_iff_nodup, items_ofGiven]
  exact nodup

theorem unrolled_close_ofGiven (wellFormed : grammar.WellFormed)
    (exact : first.Exact grammar) (contexts : Bool) (entry : Option Symbol) :
    ((ofGiven entry given).close grammar first contexts).1.Unrolled grammar :=
  unrolled_close_ofCores wellFormed exact contexts entry _

theorem coreItems_close_ofGiven {entry : Option Symbol} :
    ((ofGiven entry given).close grammar first contexts).1.coreItems =
      given.map Given.item := by
  have bound : (ofGiven entry given).coreCount ≤
      (ofGiven entry given).configurations.size := by
    rw [coreCount_ofGiven, size_ofGiven]
  rw [close_coreItems bound, coreItems_ofGiven]

theorem fullyCredited_close_ofGiven (wellFormed : grammar.WellFormed)
    (exact : first.Exact grammar) (contexts : Bool) (entry : Option Symbol)
    (nodup : (given.map Given.item).Nodup) :
    ((ofGiven entry given).close grammar first contexts).1.FullyCredited
      grammar := by
  apply fullyCredited_close wellFormed exact (distinct_ofGiven nodup)
  intro index inside
  rw [size_ofGiven] at inside
  rw [configuration_ofGiven inside]
  rfl

theorem closedFrom_close (wellFormed : grammar.WellFormed)
    (exact : first.Exact grammar) (nodup : (given.map Given.item).Nodup) :
    ClosedFrom grammar entry given
      ((ofGiven entry given).close grammar first true).1 := by
  have grows : (ofGiven entry given).Extends
      ((ofGiven entry given).close grammar first true).1 := close_extends
  have named : ∀ item, Given.Names given item ↔
      item ∈ (ofGiven entry given).items := by
    intro item
    rw [items_ofGiven]
    rfl
  constructor
  · exact grows.frame
  · rw [← @size_ofGiven entry]
    exact grows.size_le
  · exact coreItems_close_ofGiven
  · exact close_distinct (distinct_ofGiven nodup)
  · exact unrolled_close_ofGiven wellFormed exact true entry
  · intro item
    apply mem_items_close_iff wellFormed exact
    · exact fun item member => .kernel ((named item).mpr member)
    · exact fun item member => (named item).mp member
  · intro item terminal
    apply hasContext_close_iff wellFormed exact
    · intro index inside
      have member := mem_items.mpr ⟨index, inside, rfl⟩
      refine ⟨.kernel ((named _).mpr member), ?_⟩
      intro terminal inContext
      exact .kernel ((named _).mpr member)
        (hasContext_ofGiven.mp ⟨index, inside, rfl, inContext⟩)
    · exact fun item member => (named item).mp member
    · exact fun item _ terminal supplied => hasContext_ofGiven.mpr supplied
  · exact fullyCredited_close_ofGiven wellFormed exact true entry nodup
  · intro index inside
    by_cases old : index < (ofGiven entry given).configurations.size
    · rw [grows.transitors index old, grows.marks index old]
      rw [size_ofGiven] at old
      rw [configuration_ofGiven old]
      exact ⟨rfl, rfl⟩
    · exact (grows.added index (Nat.le_of_not_lt old) inside).2

namespace ClosedFrom

/-- Only one state results from a given core. -/
theorem unique {other : State} (closed : ClosedFrom grammar entry given state)
    (too : ClosedFrom grammar entry given other) : state = other := by
  have items : other.items = state.items :=
    too.unrolled.items_eq closed.unrolled
      (too.coreItems.trans closed.coreItems.symm)
  have size : other.configurations.size = state.configurations.size := by
    have lengths := congrArg List.length items
    rwa [items_eq, items_eq, List.length_map, List.length_map,
      List.length_range, List.length_range] at lengths
  have configurations : state.configurations = other.configurations := by
    apply Array.ext size.symm
    intro index inside otherInside
    rw [← configuration_of_lt inside, ← configuration_of_lt otherInside]
    have item := (item_of_items_eq items inside).2
    apply Configuration.eq_of_components
    · exact item.symm
    · apply TerminalSet.ext
      intro terminal
      rw [← closed.distinct.hasContext_iff inside,
        ← too.distinct.hasContext_iff otherInside, item, closed.contexts,
        too.contexts]
    · rw [closed.originators index inside, too.originators index otherInside,
        item, size]
      symm
      apply bringers_congr
      intro origin before
      exact (item_of_items_eq items before).2
    · rw [(closed.unlinked index inside).1, (too.unlinked index otherInside).1]
    · rw [(closed.unlinked index inside).2, (too.unlinked index otherInside).2]
  rw [closed.frame, too.frame, configurations]

end ClosedFrom

end State

end LRTables
