import LRTables.Proofs.Collections

/-!
# The order of items

The items of a state follow from its core, in order and all: item by item,
from the first one on, the starts of the rules that an item brings in are
appended if they are missing.  Closing does work off a queue in which items
may wait again, but those that wait again bring in nothing new.
-/

namespace LRTables

/-- The starts of the rules of the nonterminal that an item scans. -/
def Item.brings (grammar : Grammar) (item : Item) : List Item :=
  match item.rest grammar with
  | .nonterminal scanned :: _ =>
    (grammar.rulesOf scanned).map fun rule => { rule, dot := 0 }
  | _ => []

theorem Item.mem_brings {grammar : Grammar} {item inner : Item} :
    inner ∈ item.brings grammar ↔
      ∃ nonterminal, item.scanned grammar = some (.nonterminal nonterminal) ∧
        ∃ rule ∈ grammar.rulesOf nonterminal, inner = { rule, dot := 0 } := by
  rcases Closing.scans_or_idle grammar item with
    ⟨nonterminal, tail, rest⟩ | idle
  · have scanned := (Item.scanned_of_rest rest).1
    simp only [Item.brings, rest, List.mem_map, scanned, Option.some.injEq,
      Symbol.nonterminal.injEq, exists_eq_left', eq_comm]
  · simp only [Item.brings, List.not_mem_nil, false_iff]
    rintro ⟨nonterminal, scanned, -⟩
    exact idle _ _ (Item.rest_of_scanned scanned)

/-- Working through a list of items from an index on, each of which brings in
what is missing, ends with the final list. -/
inductive Unrolls (grammar : Grammar) (final : List Item) :
    Nat → List Item → Prop where
  | done : Unrolls grammar final final.length final
  | step {front : Nat} {items : List Item} (inside : front < items.length) :
      Unrolls grammar final (front + 1)
        ((items[front].brings grammar).foldl Ordered.insert items) →
      Unrolls grammar final front items

namespace Unrolls

variable {grammar : Grammar} {final other items : List Item} {front : Nat}

theorem cases_front (unrolls : Unrolls grammar final front items) :
    front = items.length ∧ final = items ∨
      ∃ inside : front < items.length, Unrolls grammar final (front + 1)
        ((items[front].brings grammar).foldl Ordered.insert items) := by
  cases unrolls with
  | done => exact Or.inl ⟨rfl, rfl⟩
  | step inside later => exact Or.inr ⟨inside, later⟩

theorem unique (one : Unrolls grammar final front items)
    (two : Unrolls grammar other front items) : final = other := by
  induction one with
  | done =>
      rcases two.cases_front with ⟨-, same⟩ | ⟨inside, -⟩
      · exact same.symm
      · exact absurd inside (Nat.lt_irrefl _)
  | step inside _ ih =>
      rcases two.cases_front with ⟨same, -⟩ | ⟨_, later⟩
      · exact absurd inside (same ▸ Nat.lt_irrefl _)
      · exact ih later

end Unrolls

namespace Closing

variable {grammar : Grammar} {first : FirstSets} {contexts : Bool}
  {closing : Closing} {origin rule front : Nat} {lookaheads : TerminalSet}

theorem items_addRule :
    (closing.addRule origin lookaheads rule).state.items =
      Ordered.insert closing.state.items { rule, dot := 0 } := by
  rw [Ordered.insert]
  cases found : closing.state.find? { rule, dot := 0 } with
  | none =>
      have absent : ({ rule, dot := 0 } : Item) ∉ closing.state.items := by
        intro present
        obtain ⟨index, inside, equal⟩ := State.mem_items.mp present
        exact State.find?_eq_none.mp found index inside equal
      rw [addRule_absent found, if_neg absent]
      simp [State.append, State.items, start, Configuration.ofItem]
  | some index =>
      obtain ⟨inside, equal⟩ := State.find?_spec found
      rw [addRule_present found,
        if_pos (State.mem_items.mpr ⟨index, inside, equal⟩), State.items_eq,
        State.items_eq, State.size_modify]
      apply List.map_congr_left
      intro other _
      exact State.configuration_modify_keeps Configuration.item fun _ => rfl

theorem items_addRules (rules : List Nat) :
    (closing.addRules origin lookaheads rules).state.items =
      (rules.map fun rule => ({ rule, dot := 0 } : Item)).foldl Ordered.insert
        closing.state.items := by
  induction rules generalizing closing with
  | nil => rfl
  | cons rule rest ih =>
      rw [List.map_cons, List.foldl_cons, ← items_addRule]
      exact ih

theorem items_expand (index : Nat) :
    (closing.expand grammar first contexts index).state.items =
      ((closing.state.configuration index).item.brings grammar).foldl
        Ordered.insert closing.state.items := by
  rcases scans_or_idle grammar (closing.state.configuration index).item with
    ⟨nonterminal, tail, rest⟩ | idle
  · rw [expand_of_scans rest, items_addRules, Item.brings, rest]
  · rw [expand_of_idle idle]
    simp only [Item.brings]
    rfl

/-- From the front on, the configurations wait in order. -/
structure Lined (front : Nat) (closing : Closing) : Prop where
  front_le : front ≤ closing.state.configurations.size
  waiting : (closing.queue.waiting.filter fun index =>
      decide (front ≤ index)) =
    List.range' front (closing.state.configurations.size - front)

theorem Lined.mem_waiting (lined : closing.Lined front) {index : Nat}
    (ahead : front ≤ index) :
    index ∈ closing.queue.waiting ↔
      index < closing.state.configurations.size := by
  have member : index ∈ (closing.queue.waiting.filter fun index =>
      decide (front ≤ index)) ↔ index ∈ closing.queue.waiting := by
    rw [List.mem_filter, decide_eq_true_iff, and_iff_left ahead]
  have bound := lined.front_le
  rw [← member, lined.waiting, List.mem_range'_1]
  omega

theorem Lined.addRule (lined : closing.Lined front) :
    (closing.addRule origin lookaheads rule).Lined front := by
  have bound := lined.front_le
  cases found : closing.state.find? { rule, dot := 0 } with
  | none =>
      rw [addRule_absent found]
      have fresh : closing.state.configurations.size ∉
          closing.queue.waiting := by
        rw [lined.mem_waiting bound]
        exact Nat.lt_irrefl _
      constructor
      · rw [State.size_append]
        omega
      · rw [State.size_append, WorkQueue.waiting_push, if_neg fresh,
          List.filter_append, lined.waiting, Nat.succ_sub bound,
          List.range'_1_concat]
        simp [bound, Nat.add_sub_cancel' bound]
  | some index =>
      rw [addRule_present found]
      obtain ⟨inside, -⟩ := State.find?_spec found
      constructor
      · rw [State.size_modify]
        exact bound
      · rw [State.size_modify, ← lined.waiting]
        dsimp only
        split
        · rw [WorkQueue.waiting_push]
          split
          · rfl
          · rename_i quiet
            have behind : ¬ front ≤ index :=
              fun ahead => quiet ((lined.mem_waiting ahead).mpr inside)
            simp [List.filter_append, behind]
        · rfl

theorem Lined.expand (lined : closing.Lined front) (index : Nat) :
    (closing.expand grammar first contexts index).Lined front := by
  rcases scans_or_idle grammar (closing.state.configuration index).item with
    ⟨nonterminal, tail, rest⟩ | idle
  · rw [expand_of_scans rest]
    exact addRules_induction (Lined front) lined fun _ _ holds _ _ =>
      holds.addRule
  · rw [expand_of_idle idle]
    exact lined

/-- A popped index that is not behind the front is at the front. -/
theorem Lined.pop (lined : closing.Lined front) {queue : WorkQueue Nat}
    {index : Nat} (popped : closing.queue.pop = some (index, queue)) :
    index < front ∧ Lined front { closing with queue } ∨
      index = front ∧ front < closing.state.configurations.size ∧
        Lined (front + 1) { closing with queue } := by
  have waiting := WorkQueue.waiting_of_pop popped
  have order := lined.waiting
  rw [waiting, List.filter_cons] at order
  by_cases ahead : front ≤ index
  · right
    rw [if_pos (decide_eq_true ahead)] at order
    cases room : closing.state.configurations.size - front with
    | zero =>
        rw [room] at order
        cases order
    | succ less =>
        rw [room, List.range'_succ] at order
        obtain ⟨rfl, rest⟩ := List.cons.inj order
        refine ⟨rfl, by omega, by dsimp only; omega, ?_⟩
        dsimp only
        have less_eq : closing.state.configurations.size - (index + 1) =
            less := by omega
        rw [less_eq, ← rest]
        apply List.filter_congr
        intro other member
        have nodup := waiting ▸ closing.queue.nodup
        have different : other ≠ index := by
          rintro rfl
          exact (List.nodup_cons.mp nodup).1 member
        rw [decide_eq_decide]
        omega
  · left
    rw [if_neg (by simpa using ahead)] at order
    exact ⟨Nat.lt_of_not_le ahead, lined.front_le, order⟩

theorem Lined.front_of_empty (lined : closing.Lined front)
    (empty : closing.queue.waiting = []) :
    front = closing.state.configurations.size := by
  have bound := lined.front_le
  have line := lined.waiting
  rw [empty, List.filter_nil] at line
  have length := congrArg List.length line
  rw [List.length_nil, List.length_range'] at length
  omega

/-- What is behind the front has brought in all it can, and what is ahead of
it is to be worked through in order. -/
structure Unrolling (grammar : Grammar) (base : List Item) (front : Nat)
    (closing : Closing) : Prop where
  lined : closing.Lined front
  settled : ∀ index < front,
    ∀ item ∈ (closing.state.configuration index).item.brings grammar,
      item ∈ closing.state.items
  unrolls : ∀ final,
    Unrolls grammar final front closing.state.items →
      Unrolls grammar final 0 base

/-- An index behind the front brings in nothing new, and the one at the front
moves the front on. -/
theorem Unrolling.expand_cases {base : List Item}
    (unrolling : closing.Unrolling grammar base front)
    {queue : WorkQueue Nat} {index : Nat}
    (popped : closing.queue.pop = some (index, queue)) :
    index < front ∧ Unrolling grammar base front
        (expand grammar first contexts { closing with queue } index) ∨
      index = front ∧ front < closing.state.configurations.size ∧
        Unrolling grammar base (front + 1)
          (expand grammar first contexts { closing with queue } index) := by
  have items := @items_expand grammar first contexts
    { closing with queue } index
  have grows := (expand_precedes grammar first contexts
    { closing with queue } index).extends_state
  rcases unrolling.lined.pop popped with
    ⟨behind, lined⟩ | ⟨rfl, inside, lined⟩
  · rw [Ordered.foldl_insert_of_subset (unrolling.settled index behind)]
      at items
    refine Or.inl ⟨behind, lined.expand index, ?_, ?_⟩
    · intro other before
      rw [items, grows.item other
        (Nat.lt_of_lt_of_le before lined.front_le)]
      exact unrolling.settled other before
    · rw [items]
      exact unrolling.unrolls
  · refine Or.inr ⟨rfl, inside, lined.expand index, ?_, ?_⟩
    · intro other before item brought
      rw [grows.item other (Nat.lt_of_lt_of_le before lined.front_le)]
        at brought
      rw [items, Ordered.mem_foldl_insert]
      rcases Nat.lt_succ_iff_lt_or_eq.mp before with earlier | rfl
      · exact Or.inl (unrolling.settled other earlier item brought)
      · exact Or.inr brought
    · intro final later
      rw [items] at later
      apply unrolling.unrolls
      have length : closing.state.items.length =
          closing.state.configurations.size := by
        rw [State.items_eq, List.length_map, List.length_range]
      have front : index < closing.state.items.length := length ▸ inside
      apply Unrolls.step front
      have itself : closing.state.items[index] =
          (closing.state.configuration index).item := by
        simp [State.items_eq]
      rw [itself]
      exact later

end Closing

namespace State

variable {grammar : Grammar} {first : FirstSets} {state : State}

theorem unrolling_closingStart :
    state.closingStart.Unrolling grammar state.items 0 := by
  have waiting : state.closingStart.queue.waiting =
      List.range state.configurations.size :=
    WorkQueue.waiting_ofList List.nodup_range
  constructor
  · constructor
    · exact Nat.zero_le _
    · rw [waiting]
      simp [List.range_eq_range', closingStart]
  · intro index behind
    exact absurd behind (Nat.not_lt_zero index)
  · intro final unrolls
    exact unrolls

/-- Closing a state unrolls its items. -/
theorem unrolls_close (wellFormed : grammar.WellFormed)
    (exact : first.Exact grammar) (contexts : Bool) :
    Unrolls grammar (state.close grammar first contexts).1.items 0
      state.items := by
  obtain ⟨front, unrolling⟩ := @Closing.run_induction grammar first contexts
    (fun closing => ∃ front, closing.Unrolling grammar state.items front)
    (by
      rintro closing queue index popped ⟨front, unrolling⟩
      rcases unrolling.expand_cases popped with ⟨-, kept⟩ | ⟨-, -, moved⟩
      · exact ⟨front, kept⟩
      · exact ⟨front + 1, moved⟩)
    (state.closingLimit grammar) state.closingStart
    ⟨0, unrolling_closingStart⟩
  have reached := unrolling.lined.front_of_empty
    (closing_ends wellFormed exact)
  apply unrolling.unrolls
  rw [close_eq]
  have same : front = (Closing.run grammar first contexts
      (state.closingLimit grammar) state.closingStart).state.items.length := by
    rw [items_eq, List.length_map, List.length_range]
    exact reached
  rw [same]
  exact .done

/-- The items of the state are those of its core, unrolled. -/
def Unrolled (grammar : Grammar) (state : State) : Prop :=
  Unrolls grammar state.items 0 state.coreItems

theorem SameItems.unrolled {old new : State} (same : old.SameItems new)
    (unrolled : old.Unrolled grammar) : new.Unrolled grammar := by
  rw [Unrolled, same.items, same.coreItems]
  exact unrolled

theorem unrolled_close_ofCores (wellFormed : grammar.WellFormed)
    (exact : first.Exact grammar) (contexts : Bool) (entry : Option Symbol)
    (cores : List Configuration) :
    ((ofCores entry cores).close grammar first contexts).1.Unrolled
      grammar := by
  have bound : (ofCores entry cores).coreCount ≤
      (ofCores entry cores).configurations.size := by
    rw [size_ofCores]
    exact Nat.le_refl _
  have core : (ofCores entry cores).items = (ofCores entry cores).coreItems := by
    rw [items_eq, coreItems_eq bound, size_ofCores]
    rfl
  rw [Unrolled, close_coreItems bound, ← core]
  exact unrolls_close wellFormed exact contexts

theorem Unrolled.items_eq {one other : State} (unrolled : one.Unrolled grammar)
    (too : other.Unrolled grammar) (same : one.coreItems = other.coreItems) :
    one.items = other.items := by
  rw [Unrolled, same] at unrolled
  exact unrolled.unique too

end State

theorem Collecting.keeps_unrolled {grammar : Grammar} {first : FirstSets}
    {precision : Precision} (wellFormed : grammar.WellFormed)
    (unused : grammar.GoalUnused) (exact : first.Exact grammar) :
    Keeps grammar first precision fun state => state.Unrolled grammar := by
  constructor
  · intro old new alike unrolled
    exact alike.sameItems.unrolled unrolled
  · exact State.unrolled_close_ofCores wellFormed exact _ _ _
  · intro source symbol _ _
    exact State.unrolled_close_ofCores wellFormed exact _ _ _
  · intro pager source target symbol _ _ sound unrolled matching _
    have joined := matching.joined wellFormed unused exact
      sound.closed.itemsClosed sound.snug
    exact joined.sameItems.unrolled unrolled

end LRTables
