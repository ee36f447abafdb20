import LRTables.Automaton.Closure
import LRTables.Proofs.Configurations
import LRTables.Proofs.FirstTerminals
import LRTables.Proofs.ValidItems
import Mathlib.Algebra.BigOperators.Group.Finset.Basic
import Mathlib.Algebra.Order.BigOperators.Group.Finset

/-!
# Steps of closing

What it does to a state to bring in the start of a rule: the configurations
that were there keep their places, and the work that is left is bounded by the
rules and lookaheads that are still missing.
-/

namespace LRTables

open Finset

namespace State

/-- The configurations of the old state are still there, with contexts and
originators that may have grown; those added have their dot in front. -/
structure Extends (old new : State) : Prop where
  frame : new = { old with configurations := new.configurations }
  size_le : old.configurations.size ≤ new.configurations.size
  item : ∀ index < old.configurations.size,
    (new.configuration index).item = (old.configuration index).item
  transitors : ∀ index < old.configurations.size,
    (new.configuration index).transitors =
      (old.configuration index).transitors
  marks : ∀ index < old.configurations.size,
    (new.configuration index).marks = (old.configuration index).marks
  context : ∀ index < old.configurations.size,
    ∀ terminal ∈ (old.configuration index).context,
      terminal ∈ (new.configuration index).context
  originators : ∀ index < old.configurations.size,
    ∀ origin ∈ (old.configuration index).originators,
      origin ∈ (new.configuration index).originators
  added : ∀ index, old.configurations.size ≤ index →
    index < new.configurations.size →
      (new.configuration index).item.dot = 0 ∧
        (new.configuration index).transitors = [] ∧
        (new.configuration index).marks = .none

namespace Extends

theorem refl (state : State) : state.Extends state := by
  constructor
  · rfl
  · exact Nat.le_refl _
  · exact fun _ _ => rfl
  · exact fun _ _ => rfl
  · exact fun _ _ => rfl
  · exact fun _ _ _ member => member
  · exact fun _ _ _ member => member
  · intro index past inside
    omega

theorem trans {first second third : State} (earlier : first.Extends second)
    (later : second.Extends third) : first.Extends third := by
  have kept : ∀ {index}, index < first.configurations.size →
      index < second.configurations.size := fun inside =>
    Nat.lt_of_lt_of_le inside earlier.size_le
  constructor
  · rw [later.frame, earlier.frame]
  · exact earlier.size_le.trans later.size_le
  · intro index inside
    rw [later.item index (kept inside), earlier.item index inside]
  · intro index inside
    rw [later.transitors index (kept inside), earlier.transitors index inside]
  · intro index inside
    rw [later.marks index (kept inside), earlier.marks index inside]
  · intro index inside terminal member
    exact later.context index (kept inside) terminal
      (earlier.context index inside terminal member)
  · intro index inside origin member
    exact later.originators index (kept inside) origin
      (earlier.originators index inside origin member)
  · intro index past inside
    by_cases middle : index < second.configurations.size
    · obtain ⟨dot, transitors, marks⟩ := earlier.added index past middle
      rw [later.item index middle, later.transitors index middle,
        later.marks index middle]
      exact ⟨dot, transitors, marks⟩
    · exact later.added index (Nat.le_of_not_lt middle) inside

theorem of_append (state : State) (added : Configuration)
    (dot : added.item.dot = 0) (transitors : added.transitors = [])
    (marks : added.marks = .none) : state.Extends (state.append added) := by
  have same : ∀ index < state.configurations.size,
      (state.append added).configuration index = state.configuration index :=
    fun index inside => configuration_append_of_lt inside
  constructor
  · rfl
  · rw [size_append]
    exact Nat.le_succ _
  · intro index inside
    rw [same index inside]
  · intro index inside
    rw [same index inside]
  · intro index inside
    rw [same index inside]
  · intro index inside terminal member
    rwa [same index inside]
  · intro index inside origin member
    rwa [same index inside]
  · intro index past inside
    rw [size_append] at inside
    obtain rfl : index = state.configurations.size := by omega
    rw [configuration_append_size]
    exact ⟨dot, transitors, marks⟩

theorem of_modify (state : State) {index : Nat}
    {change : Configuration → Configuration}
    (item : ∀ configuration,
      (change configuration).item = configuration.item)
    (transitors : ∀ configuration,
      (change configuration).transitors = configuration.transitors)
    (marks : ∀ configuration,
      (change configuration).marks = configuration.marks)
    (context : ∀ configuration : Configuration,
      ∀ terminal ∈ configuration.context,
        terminal ∈ (change configuration).context)
    (originators : ∀ configuration : Configuration,
      ∀ origin ∈ configuration.originators,
        origin ∈ (change configuration).originators) :
    state.Extends (state.modify index change) := by
  constructor
  · rfl
  · rw [size_modify]
  · intro other _
    exact configuration_modify_keeps Configuration.item item
  · intro other _
    exact configuration_modify_keeps Configuration.transitors transitors
  · intro other _
    exact configuration_modify_keeps Configuration.marks marks
  · intro other inside terminal member
    by_cases same : other = index
    · subst same
      rw [configuration_modify_self inside]
      exact context _ terminal member
    · rwa [configuration_modify_ne same]
  · intro other inside origin member
    by_cases same : other = index
    · subst same
      rw [configuration_modify_self inside]
      exact originators _ origin member
    · rwa [configuration_modify_ne same]
  · intro other past inside
    rw [size_modify] at inside
    omega

end Extends

/-- The rule stands in the state with its dot in front, brought in by the
configuration `origin` and with the given lookaheads. -/
def Provides (state : State) (origin : Nat) (lookaheads : TerminalSet)
    (rule : Nat) : Prop :=
  ∃ index < state.configurations.size,
    (state.configuration index).item = { rule, dot := 0 } ∧
      origin ∈ (state.configuration index).originators ∧
      ∀ terminal ∈ lookaheads,
        terminal ∈ (state.configuration index).context

theorem Provides.extend {old new : State} (grows : old.Extends new)
    {origin rule : Nat} {lookaheads : TerminalSet}
    (provides : old.Provides origin lookaheads rule) :
    new.Provides origin lookaheads rule := by
  obtain ⟨index, inside, item, member, subset⟩ := provides
  refine ⟨index, Nat.lt_of_lt_of_le inside grows.size_le, ?_, ?_, ?_⟩
  · rw [grows.item index inside, item]
  · exact grows.originators index inside origin member
  · intro terminal inLookaheads
    exact grows.context index inside terminal (subset terminal inLookaheads)

/-- The rules of the nonterminal that a configuration scans are all there. -/
def ServesAt (grammar : Grammar) (first : FirstSets) (contexts : Bool)
    (state : State) (origin : Nat) : Prop :=
  ∀ nonterminal tail,
    (state.configuration origin).item.rest grammar =
      .nonterminal nonterminal :: tail →
    ∀ rule ∈ grammar.rulesOf nonterminal,
      state.Provides origin
        (Closing.generated first contexts (state.configuration origin).context
          tail) rule

/-- Every scanned nonterminal has all its rules. -/
def Closed (grammar : Grammar) (first : FirstSets) (contexts : Bool)
    (state : State) : Prop :=
  ∀ origin < state.configurations.size,
    state.ServesAt grammar first contexts origin

/-- Items and lookaheads of the state stay within given bounds. -/
def Within (state : State) (items : Item → Prop)
    (lookaheads : Item → Nat → Prop) : Prop :=
  ∀ index < state.configurations.size,
    items (state.configuration index).item ∧
      ∀ terminal ∈ (state.configuration index).context,
        lookaheads (state.configuration index).item terminal

/-- Every originator scans the left-hand side of the rule that it brings in. -/
def OriginatorsSound (grammar : Grammar) (state : State) : Prop :=
  ∀ index < state.configurations.size,
    ∀ origin ∈ (state.configuration index).originators,
      origin < state.configurations.size ∧
        (state.configuration index).item.dot = 0 ∧
        (state.configuration origin).item.scanned grammar =
          some (.nonterminal
            (grammar.left (state.configuration index).item.rule))

end State

/-- Bounds on items and lookaheads that closure respects. -/
def ClosedBounds (grammar : Grammar) (first : FirstSets) (contexts : Bool)
    (items : Item → Prop) (lookaheads : Item → Nat → Prop) : Prop :=
  ∀ (item : Item) (nonterminal : Nat) (tail : List Symbol) (rule : Nat)
    (context : TerminalSet),
    items item →
    item.rest grammar = .nonterminal nonterminal :: tail →
    rule ∈ grammar.rulesOf nonterminal →
    (∀ terminal ∈ context, lookaheads item terminal) →
    items { rule, dot := 0 } ∧
      ∀ terminal ∈ Closing.generated first contexts context tail,
        lookaheads { rule, dot := 0 } terminal

namespace Closing

variable {grammar : Grammar} {first : FirstSets} {contexts : Bool}

/-- The configuration that brings in the start of a rule. -/
def start (origin : Nat) (lookaheads : TerminalSet) (rule : Nat) :
    Configuration :=
  { Configuration.ofItem { rule, dot := 0 } lookaheads with
    originators := [origin] }

/-- A configuration with one more originator and more lookaheads. -/
def join (origin : Nat) (lookaheads : TerminalSet)
    (configuration : Configuration) : Configuration :=
  { configuration with
    context := configuration.context ∪ lookaheads
    originators := Ordered.insert configuration.originators origin }

theorem addRule_absent {closing : Closing} {rule : Nat}
    (absent : closing.state.find? { rule, dot := 0 } = none) (origin : Nat)
    (lookaheads : TerminalSet) :
    closing.addRule origin lookaheads rule =
      { state := closing.state.append (start origin lookaheads rule)
        queue := closing.queue.push closing.state.configurations.size
        changed := true } := by
  simp [addRule, absent, start, State.append]

theorem addRule_present {closing : Closing} {rule index : Nat}
    (present : closing.state.find? { rule, dot := 0 } = some index)
    (origin : Nat) (lookaheads : TerminalSet) :
    closing.addRule origin lookaheads rule =
      { state := closing.state.modify index (join origin lookaheads)
        queue :=
          if !lookaheads.isSubset
            (closing.state.configuration index).context then
            closing.queue.push index
          else closing.queue
        changed := closing.changed ||
          !lookaheads.isSubset
            (closing.state.configuration index).context } := by
  simp only [addRule, present]
  rfl

theorem addRule_extends (closing : Closing) (origin : Nat)
    (lookaheads : TerminalSet) (rule : Nat) :
    closing.state.Extends
      (closing.addRule origin lookaheads rule).state := by
  cases found : closing.state.find? { rule, dot := 0 } with
  | none =>
      rw [addRule_absent found]
      exact .of_append _ _ rfl rfl rfl
  | some index =>
      rw [addRule_present found]
      refine .of_modify _ (fun _ => rfl) (fun _ => rfl) (fun _ => rfl) ?_ ?_
      · intro configuration terminal member
        exact TerminalSet.mem_union.mpr (Or.inl member)
      · intro configuration other member
        exact Ordered.mem_insert.mpr (Or.inl member)

theorem addRule_provides (closing : Closing) (origin : Nat)
    (lookaheads : TerminalSet) (rule : Nat) :
    (closing.addRule origin lookaheads rule).state.Provides origin lookaheads
      rule := by
  cases found : closing.state.find? { rule, dot := 0 } with
  | none =>
      rw [addRule_absent found]
      refine ⟨closing.state.configurations.size, by simp, ?_⟩
      rw [State.configuration_append_size]
      exact ⟨rfl, List.mem_singleton_self origin, fun _ member => member⟩
  | some index =>
      obtain ⟨inside, item⟩ := State.find?_spec found
      rw [addRule_present found]
      refine ⟨index, by simpa using inside, ?_⟩
      rw [State.configuration_modify_self inside]
      refine ⟨item, Ordered.mem_insert.mpr (Or.inr rfl), ?_⟩
      intro terminal member
      exact TerminalSet.mem_union.mpr (Or.inr member)

/-- A configuration that does not wait afterwards did not wait before and has
kept its context. -/
theorem addRule_quiet {closing : Closing} {origin rule index : Nat}
    {lookaheads : TerminalSet}
    (inside : index < closing.state.configurations.size)
    (quiet : index ∉
      (closing.addRule origin lookaheads rule).queue.waiting) :
    index ∉ closing.queue.waiting ∧
      ((closing.addRule origin lookaheads rule).state.configuration
          index).context =
        (closing.state.configuration index).context := by
  cases found : closing.state.find? { rule, dot := 0 } with
  | none =>
      rw [addRule_absent found] at quiet ⊢
      rw [WorkQueue.mem_push, not_or] at quiet
      refine ⟨quiet.1, ?_⟩
      rw [State.configuration_append_of_lt inside]
  | some target =>
      rw [addRule_present found] at quiet ⊢
      by_cases same : index = target
      · subst same
        rw [State.configuration_modify_self inside]
        by_cases covered : lookaheads.isSubset
            (closing.state.configuration index).context = true
        · simp only [covered, Bool.not_true, Bool.false_eq_true,
            if_false] at quiet
          refine ⟨quiet, TerminalSet.ext fun terminal => ?_⟩
          have subset := TerminalSet.isSubset_iff.mp covered terminal
          show terminal ∈ _ ∪ _ ↔ _
          rw [TerminalSet.mem_union]
          exact ⟨fun member => member.elim id subset, Or.inl⟩
        · rw [Bool.not_eq_true] at covered
          simp only [covered, Bool.not_false, if_true] at quiet
          exact absurd (WorkQueue.mem_push.mpr (Or.inr rfl)) quiet
      · rw [State.configuration_modify_ne same]
        refine ⟨?_, rfl⟩
        split at quiet
        · exact fun waits => quiet (WorkQueue.mem_push.mpr (Or.inl waits))
        · exact quiet

theorem addRule_distinct {closing : Closing} {origin rule : Nat}
    {lookaheads : TerminalSet} (distinct : closing.state.Distinct) :
    (closing.addRule origin lookaheads rule).state.Distinct := by
  cases found : closing.state.find? { rule, dot := 0 } with
  | none =>
      rw [addRule_absent found]
      have absent := State.find?_eq_none.mp found
      have fresh : ∀ index < closing.state.configurations.size,
          ((closing.state.append (start origin lookaheads rule)).configuration
              index).item ≠
            ((closing.state.append (start origin lookaheads rule)).configuration
              closing.state.configurations.size).item := by
        intro index inside
        rw [State.configuration_append_of_lt inside,
          State.configuration_append_size]
        exact absent index inside
      intro first second firstInside secondInside equal
      rw [State.size_append] at firstInside secondInside
      rcases Nat.lt_succ_iff_lt_or_eq.mp firstInside with old | rfl
      · rcases Nat.lt_succ_iff_lt_or_eq.mp secondInside with other | rfl
        · rw [State.configuration_append_of_lt old,
            State.configuration_append_of_lt other] at equal
          exact distinct first second old other equal
        · exact absurd equal (fresh first old)
      · rcases Nat.lt_succ_iff_lt_or_eq.mp secondInside with other | rfl
        · exact absurd equal.symm (fresh second other)
        · rfl
  | some index =>
      rw [addRule_present found]
      intro first second firstInside secondInside equal
      have grows := closing.addRule_extends origin lookaheads rule
      rw [addRule_present found] at grows
      rw [State.size_modify] at firstInside secondInside
      rw [grows.item first firstInside, grows.item second secondInside] at equal
      exact distinct first second firstInside secondInside equal

theorem addRule_queue_lt {closing : Closing} {origin rule : Nat}
    {lookaheads : TerminalSet}
    (bounded : ∀ index ∈ closing.queue.waiting,
      index < closing.state.configurations.size) :
    ∀ index ∈ (closing.addRule origin lookaheads rule).queue.waiting,
      index <
        (closing.addRule origin lookaheads rule).state.configurations.size := by
  intro index waits
  cases found : closing.state.find? { rule, dot := 0 } with
  | none =>
      rw [addRule_absent found] at waits ⊢
      rw [State.size_append]
      rcases WorkQueue.mem_push.mp waits with old | rfl
      · exact Nat.lt_succ_of_lt (bounded index old)
      · exact Nat.lt_succ_self _
  | some target =>
      rw [addRule_present found] at waits ⊢
      rw [State.size_modify]
      split at waits
      · rcases WorkQueue.mem_push.mp waits with old | rfl
        · exact bounded index old
        · exact (State.find?_spec found).1
      · exact bounded index waits

theorem addRule_within {closing : Closing} {origin rule : Nat}
    {lookaheads : TerminalSet} {items : Item → Prop}
    {bounds : Item → Nat → Prop} (within : closing.state.Within items bounds)
    (item : items { rule, dot := 0 })
    (context : ∀ terminal ∈ lookaheads, bounds { rule, dot := 0 } terminal) :
    (closing.addRule origin lookaheads rule).state.Within items bounds := by
  cases found : closing.state.find? { rule, dot := 0 } with
  | none =>
      rw [addRule_absent found]
      intro index inside
      rw [State.size_append] at inside
      rcases Nat.lt_succ_iff_lt_or_eq.mp inside with old | rfl
      · rw [State.configuration_append_of_lt old]
        exact within index old
      · rw [State.configuration_append_size]
        exact ⟨item, context⟩
  | some target =>
      obtain ⟨targetInside, targetItem⟩ := State.find?_spec found
      rw [addRule_present found]
      intro index inside
      rw [State.size_modify] at inside
      obtain ⟨ownItem, ownContext⟩ := within index inside
      by_cases same : index = target
      · subst same
        rw [State.configuration_modify_self inside]
        refine ⟨ownItem, ?_⟩
        intro terminal member
        rcases TerminalSet.mem_union.mp member with old | new
        · exact ownContext terminal old
        · show bounds (closing.state.configuration index).item terminal
          rw [targetItem]
          exact context terminal new
      · rw [State.configuration_modify_ne same]
        exact ⟨ownItem, ownContext⟩

theorem addRule_originatorsSound {closing : Closing} {origin rule : Nat}
    {lookaheads : TerminalSet}
    (sound : closing.state.OriginatorsSound grammar)
    (inside : origin < closing.state.configurations.size)
    (scanned : (closing.state.configuration origin).item.scanned grammar =
      some (.nonterminal (grammar.left rule))) :
    (closing.addRule origin lookaheads rule).state.OriginatorsSound
      grammar := by
  have grows := closing.addRule_extends origin lookaheads rule
  -- An originator keeps its item, so it is enough to look it up before.
  have settle : ∀ (item : Item) (other : Nat), item.dot = 0 →
      other < closing.state.configurations.size →
      (closing.state.configuration other).item.scanned grammar =
        some (.nonterminal (grammar.left item.rule)) →
      other <
          (closing.addRule origin lookaheads rule).state.configurations.size ∧
        item.dot = 0 ∧
        ((closing.addRule origin lookaheads rule).state.configuration
          other).item.scanned grammar =
            some (.nonterminal (grammar.left item.rule)) := by
    intro item other dot otherInside otherScanned
    rw [grows.item other otherInside]
    exact ⟨Nat.lt_of_lt_of_le otherInside grows.size_le, dot, otherScanned⟩
  intro index indexInside other member
  cases found : closing.state.find? { rule, dot := 0 } with
  | none =>
      rw [addRule_absent found, State.size_append] at indexInside
      rcases Nat.lt_succ_iff_lt_or_eq.mp indexInside with old | rfl
      · rw [grows.item index old]
        rw [addRule_absent found,
          State.configuration_append_of_lt old] at member
        obtain ⟨otherInside, dot, otherScanned⟩ := sound index old other member
        exact settle _ other dot otherInside otherScanned
      · have own : ((closing.addRule origin lookaheads rule).state.configuration
            closing.state.configurations.size) =
              start origin lookaheads rule := by
          rw [addRule_absent found, State.configuration_append_size]
        rw [own] at member ⊢
        obtain rfl := List.mem_singleton.mp member
        exact settle _ other rfl inside scanned
  | some target =>
      obtain ⟨targetInside, targetItem⟩ := State.find?_spec found
      rw [addRule_present found, State.size_modify] at indexInside
      rw [grows.item index indexInside]
      rw [addRule_present found] at member
      by_cases same : index = target
      · subst same
        rw [State.configuration_modify_self indexInside] at member
        rcases Ordered.mem_insert.mp member with old | rfl
        · obtain ⟨otherInside, dot, otherScanned⟩ :=
            sound index indexInside other old
          exact settle _ other dot otherInside otherScanned
        · rw [targetItem]
          exact settle _ other rfl inside scanned
      · rw [State.configuration_modify_ne same] at member
        obtain ⟨otherInside, dot, otherScanned⟩ :=
          sound index indexInside other member
        exact settle _ other dot otherInside otherScanned

/-- The number of terminals below the width that are not in the set. -/
def room (width : Nat) (context : TerminalSet) : Nat :=
  ((range width).filter fun terminal => terminal ∉ context).card

theorem room_le_width (width : Nat) (context : TerminalSet) :
    room width context ≤ width := by
  have bound := card_filter_le (range width) fun terminal => terminal ∉ context
  rwa [card_range] at bound

theorem room_anti {width : Nat} {small large : TerminalSet}
    (subset : ∀ terminal ∈ small, terminal ∈ large) :
    room width large ≤ room width small := by
  apply card_le_card
  intro terminal member
  obtain ⟨inside, absent⟩ := mem_filter.mp member
  exact mem_filter.mpr ⟨inside, fun present => absent (subset _ present)⟩

theorem room_lt {width terminal : Nat} {small large : TerminalSet}
    (subset : ∀ other ∈ small, other ∈ large) (inside : terminal < width)
    (absent : terminal ∉ small) (present : terminal ∈ large) :
    room width large < room width small := by
  apply card_lt_card
  rw [ssubset_iff_of_subset]
  · exact ⟨terminal, mem_filter.mpr ⟨mem_range.mpr inside, absent⟩,
      fun member => (mem_filter.mp member).2 present⟩
  · intro other member
    obtain ⟨otherInside, otherAbsent⟩ := mem_filter.mp member
    exact mem_filter.mpr
      ⟨otherInside, fun old => otherAbsent (subset _ old)⟩

/-- The room that is left in all contexts of a state. -/
def roomOf (width : Nat) (state : State) : Nat :=
  ∑ index ∈ range state.configurations.size,
    room width (state.configuration index).context

theorem roomOf_le (width : Nat) (state : State) :
    roomOf width state ≤ state.configurations.size * width := by
  have bound := sum_le_card_nsmul (range state.configurations.size)
    (fun index => room width (state.configuration index).context) width
    fun index _ => room_le_width width _
  simpa [roomOf] using bound

section Gains

variable {old new : State} {width : Nat}
  (size : new.configurations.size = old.configurations.size)
  (grows : ∀ index < old.configurations.size,
    ∀ terminal ∈ (old.configuration index).context,
      terminal ∈ (new.configuration index).context)

include size grows

theorem roomOf_anti : roomOf width new ≤ roomOf width old := by
  rw [roomOf, roomOf, size]
  apply sum_le_sum
  intro index member
  exact room_anti (grows index (mem_range.mp member))

theorem roomOf_lt_of_gains {index terminal : Nat}
    (inside : index < old.configurations.size) (bounded : terminal < width)
    (absent : terminal ∉ (old.configuration index).context)
    (present : terminal ∈ (new.configuration index).context) :
    roomOf width new < roomOf width old := by
  rw [roomOf, roomOf, size]
  apply sum_lt_sum
  · intro index member
    exact room_anti (grows index (mem_range.mp member))
  · exact ⟨index, mem_range.mpr inside,
      room_lt (grows index inside) bounded absent present⟩

end Gains

theorem roomOf_append_le (width : Nat) (state : State)
    (configuration : Configuration) :
    roomOf width (state.append configuration) ≤ roomOf width state + width := by
  rw [roomOf, State.size_append, sum_range_succ,
    State.configuration_append_size]
  apply Nat.add_le_add _ (room_le_width _ _)
  apply Nat.le_of_eq
  refine sum_congr rfl fun index member => ?_
  rw [State.configuration_append_of_lt (mem_range.mp member)]

/-- The number of rules whose start is not in the state. -/
def missing (grammar : Grammar) (state : State) : Nat :=
  ((range grammar.rules.size).filter fun rule =>
    state.find? { rule, dot := 0 } = none).card

theorem missing_le (grammar : Grammar) (state : State) :
    missing grammar state ≤ grammar.rules.size := by
  have bound := card_filter_le (range grammar.rules.size) fun rule =>
    state.find? { rule, dot := 0 } = none
  rwa [card_range] at bound

theorem find?_none_of_extends {old new : State} (grows : old.Extends new)
    {item : Item} (absent : new.find? item = none) :
    old.find? item = none := by
  rw [State.find?_eq_none] at absent ⊢
  intro index inside
  rw [← grows.item index inside]
  exact absent index (Nat.lt_of_lt_of_le inside grows.size_le)

theorem missing_anti (grammar : Grammar) {old new : State} (grows : old.Extends new) :
    missing grammar new ≤ missing grammar old := by
  apply card_le_card
  intro rule member
  obtain ⟨inside, absent⟩ := mem_filter.mp member
  exact mem_filter.mpr ⟨inside, find?_none_of_extends grows absent⟩

theorem missing_lt {old new : State} (grows : old.Extends new) {rule : Nat}
    (inside : rule < grammar.rules.size)
    (absent : old.find? { rule, dot := 0 } = none)
    (present : new.find? { rule, dot := 0 } ≠ none) :
    missing grammar new < missing grammar old := by
  apply card_lt_card
  rw [ssubset_iff_of_subset]
  · exact ⟨rule, mem_filter.mpr ⟨mem_range.mpr inside, absent⟩,
      fun member => present (mem_filter.mp member).2⟩
  · intro other member
    obtain ⟨otherInside, otherAbsent⟩ := mem_filter.mp member
    exact mem_filter.mpr
      ⟨otherInside, find?_none_of_extends grows otherAbsent⟩

/-- A bound on the expansions to come: one for each configuration that waits,
one for each terminal that a context may still gain, and as many again for
each rule that may still be brought in. -/
def potential (grammar : Grammar) (width : Nat) (closing : Closing) : Nat :=
  closing.queue.waiting.length + roomOf width closing.state +
    missing grammar closing.state * (width + 1)

theorem addRule_potential {closing : Closing} {origin rule width : Nat}
    {lookaheads : TerminalSet} (inside : rule < grammar.rules.size)
    (bounded : ∀ terminal ∈ lookaheads, terminal < width) :
    potential grammar width (closing.addRule origin lookaheads rule) ≤
      potential grammar width closing := by
  have grows := closing.addRule_extends origin lookaheads rule
  cases found : closing.state.find? { rule, dot := 0 } with
  | none =>
      have provides := closing.addRule_provides origin lookaheads rule
      have present :
          (closing.addRule origin lookaheads rule).state.find?
            { rule, dot := 0 } ≠ none := by
        intro absent
        obtain ⟨index, indexInside, item, -⟩ := provides
        exact State.find?_eq_none.mp absent index indexInside item
      have fewer := missing_lt grows inside found present
      have scaled : missing grammar
            (closing.addRule origin lookaheads rule).state * (width + 1) +
              (width + 1) ≤
          missing grammar closing.state * (width + 1) := by
        rw [← Nat.succ_mul]
        exact Nat.mul_le_mul_right _ fewer
      simp only [potential]
      rw [addRule_absent found] at scaled ⊢
      dsimp only at scaled ⊢
      have waiting := closing.queue.length_push_le
        closing.state.configurations.size
      have rooms := roomOf_append_le width closing.state
        (start origin lookaheads rule)
      omega
  | some index =>
      obtain ⟨indexInside, -⟩ := State.find?_spec found
      have fewer := Nat.mul_le_mul_right (width + 1)
        (missing_anti grammar grows)
      have gains := grows.context
      rw [addRule_present found] at fewer gains ⊢
      have size : (closing.state.modify index
          (join origin lookaheads)).configurations.size =
            closing.state.configurations.size := State.size_modify _ _
      by_cases covered : lookaheads.isSubset
          (closing.state.configuration index).context = true
      · have rooms := @roomOf_anti _ _ width size gains
        simp only [covered, Bool.not_true, Bool.false_eq_true, if_false,
          potential] at fewer ⊢
        omega
      · have uncovered : ∃ terminal ∈ lookaheads,
            terminal ∉ (closing.state.configuration index).context := by
          rw [TerminalSet.isSubset_iff] at covered
          push Not at covered
          exact covered
        obtain ⟨terminal, new, fresh⟩ := uncovered
        have rooms := roomOf_lt_of_gains size gains indexInside
          (bounded terminal new) fresh (by
            rw [State.configuration_modify_self indexInside]
            exact TerminalSet.mem_union.mpr (Or.inr new))
        have waiting := closing.queue.length_push_le index
        rw [Bool.not_eq_true] at covered
        simp only [covered, Bool.not_false, if_true, potential] at fewer ⊢
        omega

end Closing

end LRTables
