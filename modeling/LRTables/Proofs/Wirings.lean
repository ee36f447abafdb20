import LRTables.Proofs.Collections

/-!
# Wirings

Without lookaheads there is one state for each list of core items, and no
transition is ever redirected.  So every state is reached from the start, and
the transitors of a configuration are exactly those that become it by a
transition.
-/

namespace LRTables

namespace Automaton

variable {grammar : Grammar} {automaton : Automaton}

/-- The place is one of the automaton. -/
def Holds (automaton : Automaton) (place : Place) : Prop :=
  place.state < automaton.size ∧
    place.index < (automaton.state place.state).configurations.size

/-- The configuration becomes another one by a transition. -/
def Becomes (grammar : Grammar) (automaton : Automaton)
    (place target : Place) : Prop :=
  automaton.Holds place ∧ ∃ symbol,
    (automaton.state place.state).successor? symbol = some target.state ∧
      (automaton.configuration place).item.scanned grammar = some symbol ∧
      (automaton.configuration target).item =
        (automaton.configuration place).item.advance

/-- The transitors of every configuration are those that become it. -/
def Wired (grammar : Grammar) (automaton : Automaton) : Prop :=
  ∀ target, automaton.Holds target → ∀ place,
    place ∈ (automaton.configuration target).transitors ↔
      automaton.Becomes grammar place target

theorem predecessor?_eq_some {source : State} (distinct : source.Distinct)
    {item : Item} {index : Nat} :
    predecessor? source item = some index ↔
      index < source.configurations.size ∧
        item = (source.configuration index).item.advance := by
  obtain ⟨rule, dot⟩ := item
  cases dot with
  | zero =>
      constructor
      · intro found
        cases found
      · rintro ⟨-, equal⟩
        have dots : 0 = (source.configuration index).item.dot + 1 :=
          congrArg Item.dot equal
        omega
  | succ dot =>
      rw [predecessor?, State.find?_eq_some distinct]
      refine and_congr_right fun _ => ?_
      constructor
      · intro equal
        rw [equal]
        rfl
      · intro equal
        exact Item.advance_injective equal.symm

/-- The configurations of an automaton in which one transition was added. -/
theorem configuration_link {source target : Nat} {symbol : Symbol}
    {place : Place} (holds : automaton.Holds place) :
    (automaton.link source symbol target).configuration place =
      if place.state = target ∧
          place.index < (automaton.state place.state).coreCount then
        match predecessor? (automaton.state source)
            (automaton.configuration place).item with
        | none => automaton.configuration place
        | some origin =>
          { automaton.configuration place with
            transitors :=
              Ordered.insert (automaton.configuration place).transitors
                { state := source
                  index := origin } }
      else automaton.configuration place := by
  have keeps {β : Type} (component : State → β)
      (stays : ∀ state : State, component
        { state with
          successors := Ordered.put state.successors symbol target } =
        component state) (number : Nat) :
      component ((automaton.modify source fun state =>
        { state with
          successors :=
            Ordered.put state.successors symbol target }).state number) =
        component (automaton.state number) :=
    state_modify_keeps component stays
  obtain ⟨number, index⟩ := place
  obtain ⟨inside, indexInside⟩ := holds
  dsimp only at inside indexInside ⊢
  have size := keeps (fun state => state.configurations.size) (fun _ => rfl)
    number
  have value := keeps (fun state => state.configuration index) (fun _ => rfl)
    number
  by_cases atTarget : number = target
  · subst atTarget
    rw [configuration, link, state_modify_self (by rwa [size_modify]),
      configuration_addTransitors (size.symm ▸ indexInside)]
    have count := keeps State.coreCount (fun _ => rfl) number
    have origins := keeps (fun state => predecessor? state
      ((automaton.state number).configuration index).item) (fun _ => rfl)
      source
    have same : State.configuration
        { (automaton.modify source fun state =>
            { state with
              successors :=
                Ordered.put state.successors symbol number }).state number with
          parents := Ordered.insert
            ((automaton.modify source fun state =>
              { state with
                successors := Ordered.put state.successors symbol
                  number }).state number).parents source } index =
        (automaton.state number).configuration index := value
    rw [same, origins, count]
    by_cases core : index < (automaton.state number).coreCount
    · rw [if_pos core, if_pos ⟨rfl, core⟩]
      rfl
    · rw [if_neg core, if_neg fun both => core both.2]
      rfl
  · rw [configuration, link, state_modify_ne atTarget, value,
      if_neg fun both => atTarget both.1]
    rfl

theorem holds_of_alike {other : Automaton} (size : other.size = automaton.size)
    (alike : ∀ number, (automaton.state number).Alike (other.state number))
    {place : Place} : other.Holds place ↔ automaton.Holds place := by
  rw [Holds, Holds, size, (alike place.state).sameItems.size]

theorem configuration_add_of_lt {added : State} {place : Place}
    (inside : place.state < automaton.size) :
    (automaton.add added).configuration place =
      automaton.configuration place := by
  rw [configuration, state_add_of_lt inside]
  rfl

theorem holds_add_of_lt {added : State} {place : Place}
    (inside : place.state < automaton.size) :
    (automaton.add added).Holds place ↔ automaton.Holds place := by
  rw [Holds, Holds, state_add_of_lt inside, size_add]
  refine and_congr_left fun _ => ?_
  exact ⟨fun _ => inside, Nat.lt_succ_of_lt⟩

theorem holds_link {source target : Nat} {symbol : Symbol} {place : Place} :
    (automaton.link source symbol target).Holds place ↔
      automaton.Holds place :=
  holds_of_alike (size_link source symbol target)
    (alike_link source symbol target)

theorem item_link {source target : Nat} {symbol : Symbol} {place : Place}
    (holds : automaton.Holds place) :
    ((automaton.link source symbol target).configuration place).item =
      (automaton.configuration place).item :=
  (alike_link source symbol target place.state).sameItems.item place.index
    holds.2

theorem marks_link {source target : Nat} {symbol : Symbol} {place : Place}
    (holds : automaton.Holds place) :
    ((automaton.link source symbol target).configuration place).marks =
      (automaton.configuration place).marks := by
  rw [configuration_link holds]
  split
  · split <;> rfl
  · rfl

theorem mem_transitors_link {source target : Nat} {symbol : Symbol}
    (distinct : (automaton.state source).Distinct) {place other : Place}
    (holds : automaton.Holds place) :
    other ∈ ((automaton.link source symbol target).configuration
        place).transitors ↔
      other ∈ (automaton.configuration place).transitors ∨
        place.state = target ∧
          place.index < (automaton.state place.state).coreCount ∧
          other.state = source ∧
          other.index < (automaton.state source).configurations.size ∧
          (automaton.configuration place).item =
            ((automaton.state source).configuration
              other.index).item.advance := by
  obtain ⟨number, index⟩ := other
  rw [configuration_link holds]
  by_cases atTarget : place.state = target ∧
      place.index < (automaton.state place.state).coreCount
  · rw [if_pos atTarget]
    cases found : predecessor? (automaton.state source)
        (automaton.configuration place).item with
    | none =>
        constructor
        · exact Or.inl
        · rintro (old | ⟨-, -, rfl, inside, equal⟩)
          · exact old
          · dsimp only at inside equal
            rw [(predecessor?_eq_some distinct).mpr ⟨inside, equal⟩] at found
            cases found
    | some origin =>
        obtain ⟨inside, equal⟩ := (predecessor?_eq_some distinct).mp found
        dsimp only
        rw [Ordered.mem_insert]
        refine or_congr_right ?_
        constructor
        · intro same
          cases same
          exact ⟨atTarget.1, atTarget.2, rfl, inside, equal⟩
        · rintro ⟨-, -, rfl, inside, again⟩
          have same := distinct origin index (by assumption) inside
            (Item.advance_injective (equal.symm.trans again))
          rw [same]
  · rw [if_neg atTarget]
    constructor
    · exact Or.inl
    · rintro (old | ⟨here, core, -⟩)
      · exact old
      · exact absurd ⟨here, core⟩ atTarget

/-- A transition that was missing brings in its transitors. -/
theorem Wired.link (wired : automaton.Wired grammar)
    (framed : automaton.Framed grammar) {source target : Nat}
    {symbol : Symbol} (sourceInside : source < automaton.size)
    (core : (automaton.state target).coreItems =
      (automaton.state source).successorItems grammar symbol)
    (missing : (automaton.state source).successor? symbol = none) :
    (automaton.link source symbol target).Wired grammar := by
  have sourceRegular := framed.regular source sourceInside
  intro place inside other
  rw [holds_link] at inside
  rw [mem_transitors_link sourceRegular.distinct inside, wired place inside]
  have regular := framed.regular place.state inside.1
  have lifts (holds : automaton.Holds other) {scanned : Symbol}
      (edge : ((automaton.link source symbol target).state
        other.state).successor? scanned = some place.state)
      (scans : (automaton.configuration other).item.scanned grammar =
        some scanned)
      (equal : (automaton.configuration place).item =
        (automaton.configuration other).item.advance) :
      (automaton.link source symbol target).Becomes grammar other place := by
    refine ⟨holds_link.mpr holds, scanned, edge, ?_, ?_⟩
    · rw [item_link holds]
      exact scans
    · rw [item_link inside, item_link holds]
      exact equal
  constructor
  · rintro (old | ⟨rfl, isCore, rfl, otherInside, equal⟩)
    · obtain ⟨holds, scanned, edge, scans, equal⟩ := old
      apply lifts holds _ scans equal
      rw [successor?_link sourceInside, if_neg]
      · exact edge
      · rintro ⟨same, rfl⟩
        rw [same, missing] at edge
        cases edge
    · have holds : automaton.Holds other := ⟨sourceInside, otherInside⟩
      have member : (automaton.configuration place).item ∈
          (automaton.state place.state).coreItems :=
        (State.mem_coreItems regular.coreCount_le).mpr
          ⟨place.index, isCore, rfl⟩
      rw [core] at member
      obtain ⟨origin, -, scans, advanced⟩ :=
        State.mem_successorItems.mp member
      rw [equal] at advanced
      have same := Item.advance_injective advanced
      apply lifts holds _ (same ▸ scans) equal
      rw [successor?_link sourceInside, if_pos ⟨rfl, rfl⟩]
  · rintro ⟨holds, scanned, edge, scans, equal⟩
    rw [holds_link] at holds
    rw [item_link holds] at scans equal
    rw [item_link inside] at equal
    rw [successor?_link sourceInside] at edge
    split at edge
    · rename_i both
      obtain ⟨same, rfl⟩ := both
      cases edge
      right
      refine ⟨rfl, ?_, same, ?_, ?_⟩
      · rw [regular.lt_coreCount inside.2]
        show (automaton.configuration place).item.InKernel
        rw [equal]
        exact Item.inKernel_advance _
      · exact same ▸ holds.2
      · rw [equal, configuration, same]
    · exact Or.inl ⟨holds, scanned, edge, scans, equal⟩

/-- What is special about an automaton that is made without lookaheads. -/
structure Plain (grammar : Grammar) (automaton : Automaton) : Prop where
  wired : automaton.Wired grammar
  unmarked : ∀ place, automaton.Holds place →
    (automaton.configuration place).marks = .none
  original : ∀ number < automaton.size,
    (automaton.state number).cloneOf = none
  apart : ∀ one < automaton.size, ∀ other < automaton.size,
    (automaton.state one).coreItems = (automaton.state other).coreItems →
      one = other

theorem cloneOf_link {source target : Nat} {symbol : Symbol}
    (number : Nat) :
    ((automaton.link source symbol target).state number).cloneOf =
      (automaton.state number).cloneOf := by
  refine (state_modify_keeps State.cloneOf ?_).trans
    (state_modify_keeps State.cloneOf ?_)
  · intro state
    rfl
  · intro state
    rfl

theorem Plain.link (plain : automaton.Plain grammar)
    (framed : automaton.Framed grammar) {source target : Nat}
    {symbol : Symbol} (sourceInside : source < automaton.size)
    (core : (automaton.state target).coreItems =
      (automaton.state source).successorItems grammar symbol)
    (missing : (automaton.state source).successor? symbol = none) :
    (automaton.link source symbol target).Plain grammar := by
  constructor
  · exact plain.wired.link framed sourceInside core missing
  · intro place holds
    rw [holds_link] at holds
    rw [marks_link holds]
    exact plain.unmarked place holds
  · intro number inside
    rw [size_link] at inside
    rw [cloneOf_link]
    exact plain.original number inside
  · intro one oneInside other otherInside same
    rw [size_link] at oneInside otherInside
    rw [(alike_link source symbol target one).sameItems.coreItems,
      (alike_link source symbol target other).sameItems.coreItems] at same
    exact plain.apart one oneInside other otherInside same

/-- In a plain automaton a transition is never redirected. -/
theorem Plain.relink_cases (plain : automaton.Plain grammar)
    (framed : automaton.Framed grammar) {source target : Nat}
    {symbol : Symbol} (targetInside : target < automaton.size)
    (core : (automaton.state target).coreItems =
      (automaton.state source).successorItems grammar symbol) :
    (automaton.relink source symbol target = automaton ∧
        (automaton.state source).successor? symbol = some target) ∨
      (automaton.relink source symbol target =
          automaton.link source symbol target ∧
        (automaton.state source).successor? symbol = none) := by
  cases found : (automaton.state source).successor? symbol with
  | none =>
      right
      simp only [relink, found, and_self]
  | some old =>
      left
      have same : old = target := by
        apply plain.apart old (framed.bounded _ _ _ found) target targetInside
        rw [framed.edges _ _ _ found, core]
      subst same
      simp only [relink, found, if_true, and_self]

theorem Plain.relink (plain : automaton.Plain grammar)
    (framed : automaton.Framed grammar) {source target : Nat}
    {symbol : Symbol} (sourceInside : source < automaton.size)
    (targetInside : target < automaton.size)
    (core : (automaton.state target).coreItems =
      (automaton.state source).successorItems grammar symbol) :
    (automaton.relink source symbol target).Plain grammar := by
  rcases plain.relink_cases framed targetInside core with
    ⟨equal, -⟩ | ⟨equal, missing⟩
  · rw [equal]
    exact plain
  · rw [equal]
    exact plain.link framed sourceInside core missing

/-- In a plain automaton linking loses no path. -/
theorem Plain.leads_relink (plain : automaton.Plain grammar)
    (framed : automaton.Framed grammar) {source target : Nat}
    {symbol : Symbol} (sourceInside : source < automaton.size)
    (targetInside : target < automaton.size)
    (core : (automaton.state target).coreItems =
      (automaton.state source).successorItems grammar symbol)
    {word : List Symbol} {number : Nat}
    (leads : automaton.Leads word number) :
    (automaton.relink source symbol target).Leads word number := by
  induction leads with
  | start => exact .start
  | step _ edge ih =>
      refine .step ih ?_
      rw [successor?_relink sourceInside]
      split
      · rename_i both
        obtain ⟨rfl, rfl⟩ := both
        rcases plain.relink_cases framed targetInside core with
          ⟨-, found⟩ | ⟨-, missing⟩
        · exact found.symm.trans edge
        · rw [missing] at edge
          cases edge
      · exact edge

/-- A state to be added that has no links and marks yet. -/
structure Unlinked (state : State) : Prop where
  successors : state.successors = []
  parents : state.parents = []
  cloneOf : state.cloneOf = none
  transitors : ∀ index < state.configurations.size,
    (state.configuration index).transitors = []
  marks : ∀ index < state.configurations.size,
    (state.configuration index).marks = .none

theorem Unlinked.close {first : FirstSets} {contexts : Bool} {state : State}
    (unlinked : Unlinked state) :
    Unlinked (state.close grammar first contexts).1 := by
  have grows : state.Extends (state.close grammar first contexts).1 :=
    State.close_extends
  constructor
  · rw [grows.frame]
    exact unlinked.successors
  · rw [grows.frame]
    exact unlinked.parents
  · rw [grows.frame]
    exact unlinked.cloneOf
  · intro index inside
    by_cases old : index < state.configurations.size
    · rw [grows.transitors index old]
      exact unlinked.transitors index old
    · exact (grows.added index (Nat.le_of_not_lt old) inside).2.1
  · intro index inside
    by_cases old : index < state.configurations.size
    · rw [grows.marks index old]
      exact unlinked.marks index old
    · exact (grows.added index (Nat.le_of_not_lt old) inside).2.2

theorem unlinked_ofCores {entry : Option Symbol}
    {cores : List Configuration}
    (transitors : ∀ configuration ∈ cores, configuration.transitors = [])
    (marks : ∀ configuration ∈ cores, configuration.marks = .none) :
    Unlinked (State.ofCores entry cores) := by
  constructor
  · rfl
  · rfl
  · rfl
  · intro index inside
    rw [State.size_ofCores] at inside
    rw [State.configuration_ofCores inside]
    exact transitors _ (List.getElem_mem inside)
  · intro index inside
    rw [State.size_ofCores] at inside
    rw [State.configuration_ofCores inside]
    exact marks _ (List.getElem_mem inside)

theorem Plain.add (plain : automaton.Plain grammar)
    (framed : automaton.Framed grammar) {added : State}
    (unlinked : Unlinked added)
    (new : ∀ number < automaton.size,
      (automaton.state number).coreItems ≠ added.coreItems) :
    (automaton.add added).Plain grammar := by
  have old {place : Place} (inside : place.state < automaton.size) :=
    @configuration_add_of_lt automaton added place inside
  have oldHolds {place : Place} (inside : place.state < automaton.size) :=
    @holds_add_of_lt automaton added place inside
  constructor
  · intro target holds place
    rcases lt_or_eq_of_lt_size_add holds.1 with inside | same
    · rw [oldHolds inside] at holds
      rw [old inside, plain.wired target holds]
      constructor
      · intro becomes
        obtain ⟨placeHolds, symbol, edge, scans, equal⟩ := becomes
        have placeInside := placeHolds.1
        refine ⟨(oldHolds placeInside).mpr placeHolds, symbol, ?_, ?_, ?_⟩
        · rw [state_add_of_lt placeInside]
          exact edge
        · rw [old placeInside]
          exact scans
        · rw [old inside, old placeInside]
          exact equal
      · intro becomes
        obtain ⟨placeHolds, symbol, edge, scans, equal⟩ := becomes
        rw [successor?_add unlinked.successors] at edge
        have placeInside := lt_size_of_successor edge
        rw [oldHolds placeInside] at placeHolds
        rw [old placeInside] at scans equal
        rw [old inside] at equal
        exact ⟨placeHolds, symbol, edge, scans, equal⟩
    · have indexInside := holds.2
      rw [same, state_add_size] at indexInside
      have none : ((automaton.add added).configuration target).transitors =
          [] := by
        rw [configuration, same, state_add_size]
        exact unlinked.transitors target.index indexInside
      rw [none]
      constructor
      · intro member
        cases member
      · intro becomes
        obtain ⟨-, symbol, edge, -, -⟩ := becomes
        rw [successor?_add unlinked.successors, same] at edge
        exact absurd (framed.bounded _ _ _ edge) (Nat.lt_irrefl _)
  · intro place holds
    rcases lt_or_eq_of_lt_size_add holds.1 with inside | same
    · rw [old inside]
      exact plain.unmarked place ((oldHolds inside).mp holds)
    · have indexInside := holds.2
      rw [same, state_add_size] at indexInside
      rw [configuration, same, state_add_size]
      exact unlinked.marks place.index indexInside
  · intro number inside
    rcases lt_or_eq_of_lt_size_add inside with before | rfl
    · rw [state_add_of_lt before]
      exact plain.original number before
    · rw [state_add_size]
      exact unlinked.cloneOf
  · intro one oneInside other otherInside same
    rcases lt_or_eq_of_lt_size_add oneInside with oneOld | rfl
    · rcases lt_or_eq_of_lt_size_add otherInside with otherOld | rfl
      · rw [state_add_of_lt oneOld, state_add_of_lt otherOld] at same
        exact plain.apart one oneOld other otherOld same
      · rw [state_add_of_lt oneOld, state_add_size] at same
        exact absurd same (new one oneOld)
    · rcases lt_or_eq_of_lt_size_add otherInside with otherOld | rfl
      · rw [state_add_size, state_add_of_lt otherOld] at same
        exact absurd same.symm (new other otherOld)
      · rfl

end Automaton

end LRTables
