import LRTables.Proofs.ClosedStates
import LRTables.Proofs.ItemOrder

/-!
# Originators

A configuration is brought in by every configuration that scans the left-hand
side of its rule.  The originators come in the order of their indices: when a
configuration is expanded again, it has been listed before.
-/

namespace LRTables

namespace State

/-- The configurations before `front` that bring in an item. -/
def bringers (grammar : Grammar) (state : State) (front : Nat) (item : Item) :
    List Nat :=
  (List.range front).filter fun origin =>
    decide (item ∈ (state.configuration origin).item.brings grammar)

variable {grammar : Grammar} {state : State} {front : Nat} {item : Item}

theorem mem_bringers {origin : Nat} :
    origin ∈ state.bringers grammar front item ↔
      origin < front ∧
        item ∈ (state.configuration origin).item.brings grammar := by
  rw [bringers, List.mem_filter, List.mem_range, decide_eq_true_iff]

theorem bringers_succ :
    state.bringers grammar (front + 1) item =
      if item ∈ (state.configuration front).item.brings grammar then
        Ordered.insert (state.bringers grammar front item) front
      else state.bringers grammar front item := by
  have fresh : front ∉ state.bringers grammar front item := by
    rw [mem_bringers]
    exact fun bring => Nat.lt_irrefl front bring.1
  rw [Ordered.insert, if_neg fresh, bringers, List.range_succ,
    List.filter_append, ← bringers]
  split <;> simp [*]

theorem bringers_congr {other : State}
    (same : ∀ index < front,
      (other.configuration index).item = (state.configuration index).item) :
    other.bringers grammar front item = state.bringers grammar front item := by
  apply List.filter_congr
  intro origin member
  rw [same origin (List.mem_range.mp member)]

/-- Every configuration lists the configurations before `front` that bring it
in, in order. -/
def Credited (grammar : Grammar) (state : State) (front : Nat) : Prop :=
  ∀ index < state.configurations.size,
    (state.configuration index).originators =
      state.bringers grammar front (state.configuration index).item

theorem originators_of_le {index : Nat}
    (outside : state.configurations.size ≤ index) :
    (state.configuration index).originators = [] := by
  simp [configuration, Array.getD_eq_getD_getElem?, outside, default,
    Configuration.ofItem]

end State

namespace Closing

variable {grammar : Grammar} {first : FirstSets} {contexts : Bool}
  {closing : Closing} {origin front : Nat} {lookaheads : TerminalSet}

theorem originators_addRule (distinct : closing.state.Distinct)
    {rule index : Nat}
    (inside : index < (closing.addRule origin lookaheads
      rule).state.configurations.size) :
    ((closing.addRule origin lookaheads rule).state.configuration
        index).originators =
      if ((closing.addRule origin lookaheads rule).state.configuration
          index).item = { rule, dot := 0 } then
        Ordered.insert (closing.state.configuration index).originators origin
      else (closing.state.configuration index).originators := by
  cases found : closing.state.find? { rule, dot := 0 } with
  | none =>
      rw [addRule_absent found] at inside ⊢
      rw [State.size_append] at inside
      rcases Nat.lt_succ_iff_lt_or_eq.mp inside with old | rfl
      · rw [State.configuration_append_of_lt old,
          if_neg (State.find?_eq_none.mp found index old)]
      · rw [State.configuration_append_size,
          State.originators_of_le (Nat.le_refl _)]
        exact (if_pos rfl).symm
  | some target =>
      obtain ⟨targetInside, item⟩ := State.find?_spec found
      rw [addRule_present found] at inside ⊢
      rw [State.size_modify] at inside
      by_cases same : index = target
      · subst same
        rw [State.configuration_modify_self inside]
        exact (if_pos item).symm
      · rw [State.configuration_modify_ne same, if_neg]
        intro equal
        exact same (distinct index target inside targetInside
          (equal.trans item.symm))

theorem item_addRule_of_le {rule index : Nat}
    (outside : closing.state.configurations.size ≤ index)
    (inside : index < (closing.addRule origin lookaheads
      rule).state.configurations.size) :
    ((closing.addRule origin lookaheads rule).state.configuration
      index).item = { rule, dot := 0 } := by
  cases found : closing.state.find? { rule, dot := 0 } with
  | none =>
      rw [addRule_absent found] at inside ⊢
      rw [State.size_append] at inside
      obtain rfl : index = closing.state.configurations.size := by omega
      rw [State.configuration_append_size]
      rfl
  | some target =>
      rw [addRule_present found, State.size_modify] at inside
      exact absurd inside (Nat.not_lt.mpr outside)

theorem insert_insert_self (members : List Nat) (member : Nat) :
    Ordered.insert (Ordered.insert members member) member =
      Ordered.insert members member := by
  have present : member ∈ Ordered.insert members member :=
    Ordered.mem_insert.mpr (Or.inr rfl)
  rw [Ordered.insert, if_pos present]

theorem originators_addRules (distinct : closing.state.Distinct)
    (rules : List Nat) {index : Nat}
    (inside : index < (closing.addRules origin lookaheads
      rules).state.configurations.size) :
    ((closing.addRules origin lookaheads rules).state.configuration
        index).originators =
      if ((closing.addRules origin lookaheads rules).state.configuration
            index).item ∈
          rules.map fun rule => ({ rule, dot := 0 } : Item) then
        Ordered.insert (closing.state.configuration index).originators origin
      else (closing.state.configuration index).originators := by
  -- The last rule is the one that has been brought in most recently.
  induction rules using List.reverseRecOn with
  | nil => simp [addRules]
  | append_singleton earlier rule ih =>
      have split : closing.addRules origin lookaheads (earlier ++ [rule]) =
          (closing.addRules origin lookaheads earlier).addRule origin
            lookaheads rule := by
        rw [addRules, List.foldl_append]
        rfl
      rw [split] at inside ⊢
      have middle : (closing.addRules origin lookaheads
          earlier).state.Distinct :=
        addRules_induction (fun closing => closing.state.Distinct) distinct
          fun _ _ holds _ _ => addRule_distinct holds
      have grows := (closing.addRules origin lookaheads
        earlier).addRule_extends origin lookaheads rule
      rw [originators_addRule middle inside, List.map_append, List.map_cons,
        List.map_nil]
      simp only [List.mem_append, List.mem_singleton]
      by_cases old : index < (closing.addRules origin lookaheads
          earlier).state.configurations.size
      · rw [ih old, grows.item index old]
        split
        · split
          · rw [if_pos (Or.inl ‹_›), insert_insert_self]
          · rw [if_pos (Or.inr ‹_›)]
        · split
          · rw [if_pos (Or.inl ‹_›)]
          · rw [if_neg (by tauto)]
      · have outside := Nat.le_of_not_lt old
        have before := (closing.addRules_precedes origin lookaheads
          earlier).extends_state.size_le.trans outside
        rw [State.originators_of_le outside, State.originators_of_le before,
          item_addRule_of_le outside inside, if_pos rfl, if_pos (Or.inr rfl)]

/-- Configurations behind the front have been listed wherever they bring
something in. -/
structure Crediting (grammar : Grammar) (base : List Item) (front : Nat)
    (closing : Closing) : Prop where
  unrolling : closing.Unrolling grammar base front
  distinct : closing.state.Distinct
  credited : closing.state.Credited grammar front

theorem originators_expand (distinct : closing.state.Distinct) {index : Nat}
    (inside : index < (closing.expand grammar first contexts
      origin).state.configurations.size) :
    ((closing.expand grammar first contexts origin).state.configuration
        index).originators =
      if ((closing.expand grammar first contexts origin).state.configuration
            index).item ∈
          (closing.state.configuration origin).item.brings grammar then
        Ordered.insert (closing.state.configuration index).originators origin
      else (closing.state.configuration index).originators := by
  rcases scans_or_idle grammar (closing.state.configuration origin).item with
    ⟨nonterminal, tail, rest⟩ | idle
  · rw [expand_of_scans rest] at inside ⊢
    rw [originators_addRules distinct _ inside, Item.brings, rest]
  · have nothing : (closing.state.configuration origin).item.brings grammar =
        [] := by
      simp only [Item.brings]
    rw [expand_of_idle idle, nothing, if_neg List.not_mem_nil]

/-- What has been listed for an item, also if it is about to be brought in. -/
theorem Crediting.originators {base : List Item}
    (crediting : closing.Crediting grammar base front) {new : State}
    (grows : closing.state.Extends new) (distinct : new.Distinct)
    {index : Nat} (inside : index < new.configurations.size) :
    (closing.state.configuration index).originators =
      closing.state.bringers grammar front (new.configuration index).item := by
  by_cases old : index < closing.state.configurations.size
  · rw [grows.item index old]
    exact crediting.credited index old
  · rw [State.originators_of_le (Nat.le_of_not_lt old)]
    symm
    rw [List.eq_nil_iff_forall_not_mem]
    intro origin bring
    obtain ⟨behind, brought⟩ := State.mem_bringers.mp bring
    -- What has been brought in has its place already.
    obtain ⟨place, placed, same⟩ := State.mem_items.mp
      (crediting.unrolling.settled origin behind _ brought)
    have equal := distinct place index
      (Nat.lt_of_lt_of_le placed grows.size_le) inside
      (by rw [grows.item place placed, same])
    exact old (equal ▸ placed)

theorem Crediting.expand_cases {base : List Item}
    (crediting : closing.Crediting grammar base front)
    {queue : WorkQueue Nat} {index : Nat}
    (popped : closing.queue.pop = some (index, queue)) :
    index < front ∧ Crediting grammar base front
        (expand grammar first contexts { closing with queue } index) ∨
      index = front ∧ Crediting grammar base (front + 1)
        (expand grammar first contexts { closing with queue } index) := by
  have grows := (expand_precedes grammar first contexts
    { closing with queue } index).extends_state
  have distinct : (expand grammar first contexts { closing with queue }
      index).state.Distinct := expand_distinct crediting.distinct
  have bringers : ∀ bound ≤ closing.state.configurations.size, ∀ item,
      (expand grammar first contexts { closing with queue }
          index).state.bringers grammar bound item =
        closing.state.bringers grammar bound item := by
    intro bound within item
    apply State.bringers_congr
    intro other before
    exact grows.item other (Nat.lt_of_lt_of_le before within)
  have originators : ∀ {other}, other < (expand grammar first contexts
        { closing with queue } index).state.configurations.size → _ :=
    fun inside => @originators_expand grammar first contexts
      { closing with queue } index crediting.distinct _ inside
  rcases @Unrolling.expand_cases grammar first contexts closing front base
      crediting.unrolling queue index popped with
    ⟨behind, unrolling⟩ | ⟨rfl, inside, unrolling⟩
  · refine Or.inl ⟨behind, unrolling, distinct, ?_⟩
    intro other otherInside
    rw [originators otherInside, crediting.originators grows distinct otherInside,
      bringers front crediting.unrolling.lined.front_le]
    split
    · rename_i brought
      rw [Ordered.insert, if_pos (State.mem_bringers.mpr ⟨behind, brought⟩)]
    · rfl
  · refine Or.inr ⟨rfl, unrolling, distinct, ?_⟩
    intro other otherInside
    rw [originators otherInside, crediting.originators grows distinct otherInside,
      bringers (index + 1) inside, State.bringers_succ]

end Closing

namespace State

variable {grammar : Grammar} {first : FirstSets} {contexts : Bool}
  {state : State}

/-- In a closed state every configuration lists those that bring it in. -/
def FullyCredited (grammar : Grammar) (state : State) : Prop :=
  state.Credited grammar state.configurations.size

theorem fullyCredited_close (wellFormed : grammar.WellFormed)
    (exact : first.Exact grammar) (distinct : state.Distinct)
    (plain : ∀ index < state.configurations.size,
      (state.configuration index).originators = []) :
    (state.close grammar first contexts).1.FullyCredited grammar := by
  obtain ⟨front, crediting⟩ := @Closing.run_induction grammar first contexts
    (fun closing => ∃ front, closing.Crediting grammar state.items front)
    (by
      rintro closing queue index popped ⟨front, crediting⟩
      rcases crediting.expand_cases popped with ⟨-, kept⟩ | ⟨-, moved⟩
      · exact ⟨front, kept⟩
      · exact ⟨front + 1, moved⟩)
    (state.closingLimit grammar) state.closingStart
    ⟨0, unrolling_closingStart, distinct, plain⟩
  have reached := crediting.unrolling.lined.front_of_empty
    (closing_ends wellFormed exact)
  rw [FullyCredited, close_eq, ← reached]
  exact crediting.credited

theorem ItemsClosed.mem_of_brings (closed : state.ItemsClosed grammar)
    {item inner : Item} (member : item ∈ state.items)
    (brought : inner ∈ item.brings grammar) : inner ∈ state.items := by
  obtain ⟨nonterminal, scanned, rule, ofRule, rfl⟩ :=
    Item.mem_brings.mp brought
  exact closed item member nonterminal scanned rule ofRule

/-- Closing a state that is closed already lists nothing anew. -/
theorem FullyCredited.close (credited : state.FullyCredited grammar)
    (closed : state.ItemsClosed grammar) (distinct : state.Distinct) :
    (state.close grammar first contexts).1.FullyCredited grammar := by
  have kept := @close_induction grammar first contexts state
    (fun later => later.items = state.items ∧
      ∀ index < state.configurations.size,
        (later.configuration index).originators =
          (state.configuration index).originators)
    (by
      rintro closing origin originInside ⟨same, originators⟩
      obtain ⟨originOld, originItem⟩ :=
        State.item_of_items_eq same.symm originInside
      have member : (closing.state.configuration origin).item ∈
          closing.state.items := mem_items.mpr ⟨origin, originInside, rfl⟩
      have later : (closing.expand grammar first contexts origin).state.items =
          state.items := by
        rw [Closing.items_expand, Ordered.foldl_insert_of_subset, same]
        intro inner brought
        rw [same] at member ⊢
        exact closed.mem_of_brings member brought
      refine ⟨later, ?_⟩
      intro index inside
      obtain ⟨inside', item⟩ := State.item_of_items_eq later inside
      have middle : closing.state.Distinct := by
        rw [distinct_iff_nodup, same, ← distinct_iff_nodup]
        exact distinct
      rw [Closing.originators_expand middle inside', originators index inside,
        item]
      split
      · rename_i brought
        rw [← originItem] at brought
        rw [Ordered.insert, if_pos]
        rw [credited index inside]
        exact mem_bringers.mpr ⟨originOld, brought⟩
      · rfl)
    ⟨rfl, fun _ _ => rfl⟩
  obtain ⟨same, originators⟩ := kept
  have size := congrArg List.length same
  simp only [items_eq, List.length_map, List.length_range] at size
  intro index inside
  rw [size] at inside ⊢
  rw [originators index inside, (item_of_items_eq same inside).2,
    credited index inside]
  symm
  apply bringers_congr
  intro other before
  exact (item_of_items_eq same before).2

end State

end LRTables
