import LRTables.Automaton.Links
import LRTables.Proofs.Successors

/-!
# Transitions of an automaton

What each operation on an automaton does to one of its states.  Linking
changes where transitions lead, and nothing else that a closed state is about.
-/

namespace LRTables

namespace Ordered

variable {α β : Type} [DecidableEq α] {entries : List (α × β)}

theorem find?_cons {first key : α} {value : β} {rest : List (α × β)} :
    find? ((first, value) :: rest) key =
      if first = key then some value else find? rest key := by
  by_cases same : first = key
  · simp [find?, same]
  · have differ : (first == key) = false := beq_eq_false_iff_ne.mpr same
    simp [find?, differ, same]

theorem find?_update {key other : α} {initial : β} {change : β → β} :
    find? (update entries key initial change) other =
      if other = key then some (change ((find? entries key).getD initial))
      else find? entries other := by
  induction entries with
  | nil =>
      rw [update, find?_cons]
      by_cases same : other = key
      · simp [find?, same]
      · simp [find?, same, Ne.symm same]
  | cons entry rest ih =>
      obtain ⟨first, value⟩ := entry
      rw [update]
      by_cases here : first = key
      · subst here
        by_cases same : other = first
        · simp [find?_cons, same]
        · simp [find?_cons, same, Ne.symm same]
      · rw [if_neg here, find?_cons, ih, find?_cons, find?_cons, if_neg here]
        by_cases same : first = other
        · subst same
          simp [here]
        · simp [same]

theorem getD_find?_update {key other : α} {initial : β} {change : β → β} :
    (find? (update entries key initial change) other).getD initial =
      if other = key then change ((find? entries other).getD initial)
      else (find? entries other).getD initial := by
  rw [find?_update]
  split
  · rename_i same
    rw [same]
    rfl
  · rfl

theorem find?_put {key other : α} {value : β} :
    find? (put entries key value) other =
      if other = key then some value else find? entries other := by
  rw [put, find?_update]

theorem update_of_absent {key : α} {initial : β} {change : β → β}
    (absent : key ∉ entries.map Prod.fst) :
    update entries key initial change = entries ++ [(key, change initial)] := by
  induction entries with
  | nil => rfl
  | cons entry rest ih =>
      rw [List.map_cons, List.mem_cons, not_or] at absent
      rw [update, if_neg (Ne.symm absent.1), ih absent.2, List.cons_append]

theorem keys_update {key : α} {initial : β} {change : β → β} :
    (update entries key initial change).map Prod.fst =
      insert (entries.map Prod.fst) key := by
  induction entries with
  | nil => simp [update, insert]
  | cons entry rest ih =>
      obtain ⟨first, value⟩ := entry
      by_cases here : first = key
      · simp [update, here, insert]
      · have different : key ≠ first := Ne.symm here
        simp only [update, if_neg here, List.map_cons, ih]
        simp only [insert, List.mem_cons, different, false_or]
        split
        · rfl
        · rfl

/-- No key occurs twice. -/
def Keyed (entries : List (α × β)) : Prop :=
  (entries.map Prod.fst).Nodup

theorem Keyed.update (keyed : Keyed entries) (key : α) (initial : β)
    (change : β → β) : Keyed (Ordered.update entries key initial change) := by
  rw [Keyed, keys_update]
  exact nodup_insert keyed key

theorem Keyed.mem_iff (keyed : Keyed entries) {key : α} {value : β} :
    (key, value) ∈ entries ↔ find? entries key = some value := by
  induction entries generalizing value with
  | nil => simp [find?]
  | cons entry rest ih =>
      obtain ⟨first, own⟩ := entry
      rw [Keyed, List.map_cons, List.nodup_cons] at keyed
      rw [List.mem_cons, find?_cons]
      by_cases here : first = key
      · subst here
        have absent : (first, value) ∉ rest := by
          intro member
          exact keyed.1 (List.mem_map.mpr ⟨_, member, rfl⟩)
        simp [absent, eq_comm]
      · rw [if_neg here, ← ih keyed.2]
        simp [Ne.symm here]

end Ordered

namespace State

theorem successor?_eq (state : State) (symbol : Symbol) :
    state.successor? symbol = Ordered.find? state.successors symbol :=
  rfl

/-- The new state agrees with the old one in all but its links and marks. -/
structure Alike (old new : State) : Prop where
  sameItems : old.SameItems new
  context : ∀ index < old.configurations.size,
    (new.configuration index).context = (old.configuration index).context
  originators : ∀ index < old.configurations.size,
    (new.configuration index).originators =
      (old.configuration index).originators

namespace Alike

variable {grammar : Grammar} {first : FirstSets} {contexts : Bool}
  {old new : State}

theorem refl (state : State) : state.Alike state := by
  constructor
  · exact .refl state
  · intro index _
    rfl
  · intro index _
    rfl

theorem trans {later : State} (before : old.Alike new)
    (after : new.Alike later) : old.Alike later := by
  have inside {index : Nat} (member : index < old.configurations.size) :
      index < new.configurations.size := before.sameItems.size ▸ member
  constructor
  · exact before.sameItems.trans after.sameItems
  · intro index member
    rw [after.context index (inside member), before.context index member]
  · intro index member
    rw [after.originators index (inside member),
      before.originators index member]

theorem symm (alike : old.Alike new) : new.Alike old := by
  have inside {index : Nat} (member : index < new.configurations.size) :
      index < old.configurations.size := alike.sameItems.size ▸ member
  constructor
  · exact alike.sameItems.symm
  · intro index member
    exact (alike.context index (inside member)).symm
  · intro index member
    exact (alike.originators index (inside member)).symm

theorem hasContext_iff (alike : old.Alike new) {item : Item}
    {terminal : Nat} :
    new.HasContext item terminal ↔ old.HasContext item terminal := by
  have oneWay {left right : State} (alike : left.Alike right)
      (has : left.HasContext item terminal) :
      right.HasContext item terminal := by
    obtain ⟨index, inside, same, member⟩ := has
    refine ⟨index, alike.sameItems.size ▸ inside, ?_, ?_⟩
    · rw [alike.sameItems.item index inside, same]
    · rwa [alike.context index inside]
  exact ⟨oneWay alike.symm, oneWay alike⟩

theorem originatorsSound (alike : old.Alike new)
    (sound : old.OriginatorsSound grammar) :
    new.OriginatorsSound grammar := by
  have same := alike.sameItems
  intro index inside origin member
  rw [same.size] at inside
  rw [alike.originators index inside] at member
  obtain ⟨originInside, dot, scanned⟩ := sound index inside origin member
  rw [same.size, same.item index inside, same.item origin originInside]
  exact ⟨originInside, dot, scanned⟩

theorem regular (alike : old.Alike new) (regular : old.Regular grammar) :
    new.Regular grammar :=
  alike.sameItems.regular regular
    (alike.originatorsSound regular.originators)

theorem closed (alike : old.Alike new)
    (closed : old.Closed grammar first contexts) :
    new.Closed grammar first contexts := by
  have same := alike.sameItems
  intro origin inside nonterminal tail rest rule member
  rw [same.size] at inside
  rw [same.item origin inside] at rest
  rw [alike.context origin inside]
  obtain ⟨index, indexInside, item, byOrigin, subset⟩ :=
    closed origin inside nonterminal tail rest rule member
  refine ⟨index, same.size.symm ▸ indexInside, ?_, ?_, ?_⟩
  · rw [same.item index indexInside, item]
  · rw [alike.originators index indexInside]
    exact byOrigin
  · intro terminal inLookaheads
    rw [alike.context index indexInside]
    exact subset terminal inLookaheads

theorem snug (alike : old.Alike new) (snug : old.Snug grammar) :
    new.Snug grammar := by
  intro item terminal has
  rw [alike.sameItems.coreItems]
  apply (snug item terminal (alike.hasContext_iff.mp has)).mono
  intro other _ token present
  exact alike.hasContext_iff.mpr present

end Alike

end State

namespace Automaton

variable {automaton : Automaton} {number : Nat}

@[simp] theorem size_modify (change : State → State) :
    (automaton.modify number change).size = automaton.size := by
  simp [modify, size]

theorem state_modify_self {change : State → State}
    (inside : number < automaton.size) :
    (automaton.modify number change).state number =
      change (automaton.state number) := by
  have bound : number < automaton.states.size := inside
  simp [modify, state, Array.getD_eq_getD_getElem?, Array.getElem_modify,
    bound]

theorem state_modify_ne {change : State → State} {other : Nat}
    (different : other ≠ number) :
    (automaton.modify number change).state other = automaton.state other := by
  simp [modify, state, Array.getD_eq_getD_getElem?, Array.getElem?_modify,
    different.symm]

theorem state_modify_keeps {β : Type} {change : State → State} {other : Nat}
    (component : State → β)
    (keeps : ∀ state, component (change state) = component state) :
    component ((automaton.modify number change).state other) =
      component (automaton.state other) := by
  by_cases same : other = number
  · subst same
    by_cases inside : other < automaton.size
    · rw [state_modify_self inside, keeps]
    · have bound : ¬ other < automaton.states.size := inside
      simp [modify, state, Array.getD_eq_getD_getElem?, bound]
  · rw [state_modify_ne same]

theorem alike_modify {change : State → State} (other : Nat)
    (alike : ∀ state : State, state.Alike (change state)) :
    (automaton.state other).Alike
      ((automaton.modify number change).state other) := by
  by_cases same : other = number
  · subst same
    by_cases inside : other < automaton.size
    · rw [state_modify_self inside]
      exact alike _
    · have bound : ¬ other < automaton.states.size := inside
      have unchanged : (automaton.modify other change).state other =
          automaton.state other := by
        simp [modify, state, Array.getD_eq_getD_getElem?, bound]
      rw [unchanged]
      exact .refl _
  · rw [state_modify_ne same]
    exact .refl _

@[simp] theorem size_add (added : State) :
    (automaton.add added).size = automaton.size + 1 := by
  simp [add, size]

theorem state_add_of_lt {added : State} (inside : number < automaton.size) :
    (automaton.add added).state number = automaton.state number := by
  have bound : number < automaton.states.size := inside
  simp [add, state, Array.getD_eq_getD_getElem?, Array.getElem?_push,
    Nat.ne_of_lt bound]

theorem state_add_size (added : State) :
    (automaton.add added).state automaton.size = added := by
  simp [add, state, size, Array.getD_eq_getD_getElem?]

theorem lt_or_eq_of_lt_size_add {added : State}
    (inside : number < (automaton.add added).size) :
    number < automaton.size ∨ number = automaton.size := by
  rw [size_add] at inside
  exact Nat.lt_succ_iff_lt_or_eq.mp inside

theorem configuration_addTransitors {source state : State} {index : Nat}
    (inside : index < state.configurations.size) :
    (addTransitors number source state).configuration index =
      if index < state.coreCount then
        match predecessor? source (state.configuration index).item with
        | none => state.configuration index
        | some origin =>
          { state.configuration index with
            transitors :=
              Ordered.insert (state.configuration index).transitors
                { state := number
                  index := origin } }
      else state.configuration index := by
  rw [State.configuration, addTransitors, Array.getD_eq_getD_getElem?,
    Array.getElem?_mapIdx, State.getElem?_configurations inside]
  rfl

theorem alike_addTransitors (source state : State) :
    state.Alike (addTransitors number source state) := by
  have size : (addTransitors number source state).configurations.size =
      state.configurations.size := by
    simp [addTransitors]
  constructor
  · constructor
    · rfl
    · rfl
    · exact size
    · intro index inside
      rw [configuration_addTransitors inside]
      split
      · split <;> rfl
      · rfl
  · intro index inside
    rw [configuration_addTransitors inside]
    split
    · split <;> rfl
    · rfl
  · intro index inside
    rw [configuration_addTransitors inside]
    split
    · split <;> rfl
    · rfl

/-- A state with other links than before. -/
theorem alike_of_configurations {old new : State}
    (entry : new.entry = old.entry) (coreCount : new.coreCount = old.coreCount)
    (configurations : new.configurations = old.configurations) :
    old.Alike new := by
  have same (index : Nat) :
      new.configuration index = old.configuration index := by
    rw [State.configuration, configurations, State.configuration]
  constructor
  · constructor
    · exact entry
    · exact coreCount
    · rw [configurations]
    · intro index _
      rw [same]
  · intro index _
    rw [same]
  · intro index _
    rw [same]

@[simp] theorem size_link (source : Nat) (symbol : Symbol) (target : Nat) :
    (automaton.link source symbol target).size = automaton.size := by
  simp [link]

theorem alike_link (source : Nat) (symbol : Symbol) (target other : Nat) :
    (automaton.state other).Alike
      ((automaton.link source symbol target).state other) := by
  refine State.Alike.trans (alike_modify other fun state => ?_)
    (alike_modify other fun state => ?_)
  · exact alike_of_configurations rfl rfl rfl
  · have bare : state.Alike
        { state with parents := Ordered.insert state.parents source } :=
      alike_of_configurations rfl rfl rfl
    exact bare.trans (alike_addTransitors _ _)

theorem successors_link {source target other : Nat} {symbol : Symbol}
    (inside : source < automaton.size) :
    ((automaton.link source symbol target).state other).successors =
      if other = source then
        Ordered.put (automaton.state source).successors symbol target
      else (automaton.state other).successors := by
  refine (state_modify_keeps State.successors ?_).trans ?_
  · intro state
    rfl
  by_cases same : other = source
  · subst same
    rw [state_modify_self inside, if_pos rfl]
  · rw [state_modify_ne same, if_neg same]

theorem successors_link_ne {source target other : Nat} {symbol : Symbol}
    (different : other ≠ source) :
    ((automaton.link source symbol target).state other).successors =
      (automaton.state other).successors := by
  refine (state_modify_keeps State.successors ?_).trans ?_
  · intro state
    rfl
  · rw [state_modify_ne different]

theorem successor?_link {source target other : Nat} {symbol scanned : Symbol}
    (inside : source < automaton.size) :
    ((automaton.link source symbol target).state other).successor? scanned =
      if other = source ∧ scanned = symbol then some target
      else (automaton.state other).successor? scanned := by
  rw [State.successor?_eq, successors_link inside, State.successor?_eq]
  by_cases same : other = source
  · subst same
    rw [if_pos rfl, Ordered.find?_put]
    simp
  · simp [same]

/-- Changes of links and marks only. -/
theorem alike_mapConfigurations {change : Configuration → Configuration}
    (state : State)
    (item : ∀ configuration,
      (change configuration).item = configuration.item)
    (context : ∀ configuration,
      (change configuration).context = configuration.context)
    (originators : ∀ configuration,
      (change configuration).originators = configuration.originators) :
    state.Alike (state.mapConfigurations change) := by
  constructor
  · constructor
    · rfl
    · rfl
    · exact State.size_mapConfigurations change
    · intro index inside
      rw [State.configuration_mapConfigurations inside, item]
  · intro index inside
    rw [State.configuration_mapConfigurations inside, context]
  · intro index inside
    rw [State.configuration_mapConfigurations inside, originators]

theorem alike_dropParent (parent : Nat) (state : State) :
    state.Alike (state.dropParent parent) := by
  refine (alike_mapConfigurations state ?_ ?_ ?_).trans
    (alike_of_configurations rfl rfl rfl)
  · intro configuration
    rfl
  · intro configuration
    rfl
  · intro configuration
    rfl

theorem successors_dropParent {old parent : Nat} (other : Nat) :
    ((automaton.modify old fun state => state.dropParent parent).state
        other).successors =
      (automaton.state other).successors :=
  state_modify_keeps State.successors fun _ => rfl

theorem relink_cases (source : Nat) (symbol : Symbol) (target : Nat) :
    ((automaton.state source).successor? symbol = some target ∧
        automaton.relink source symbol target = automaton) ∨
      ((automaton.state source).successor? symbol = none ∧
        automaton.relink source symbol target =
          automaton.link source symbol target) ∨
      ∃ old, (automaton.state source).successor? symbol = some old ∧
        automaton.relink source symbol target =
          (automaton.modify old fun state => state.dropParent source).link
            source symbol target := by
  rw [relink]
  split
  · rename_i none
    exact Or.inr (Or.inl ⟨none, rfl⟩)
  · rename_i old found
    split
    · rename_i same
      subst same
      exact Or.inl ⟨found, rfl⟩
    · exact Or.inr (Or.inr ⟨old, found, rfl⟩)

@[simp] theorem size_relink (source : Nat) (symbol : Symbol) (target : Nat) :
    (automaton.relink source symbol target).size = automaton.size := by
  rcases automaton.relink_cases source symbol target with
    ⟨-, equal⟩ | ⟨-, equal⟩ | ⟨old, -, equal⟩
  · rw [equal]
  · rw [equal, size_link]
  · rw [equal, size_link, size_modify]

theorem alike_relink (source : Nat) (symbol : Symbol) (target other : Nat) :
    (automaton.state other).Alike
      ((automaton.relink source symbol target).state other) := by
  rcases automaton.relink_cases source symbol target with
    ⟨-, equal⟩ | ⟨-, equal⟩ | ⟨old, -, equal⟩
  · rw [equal]
    exact .refl _
  · rw [equal]
    exact alike_link source symbol target other
  · rw [equal]
    exact (alike_modify other (alike_dropParent source)).trans
      (alike_link source symbol target other)

theorem successor?_relink {source target other : Nat}
    {symbol scanned : Symbol} (inside : source < automaton.size) :
    ((automaton.relink source symbol target).state other).successor? scanned =
      if other = source ∧ scanned = symbol then some target
      else (automaton.state other).successor? scanned := by
  rcases automaton.relink_cases source symbol target with
    ⟨found, equal⟩ | ⟨-, equal⟩ | ⟨old, -, equal⟩
  · rw [equal]
    split
    · rename_i both
      rw [both.1, both.2, found]
    · rfl
  · rw [equal, successor?_link inside]
  · rw [equal, successor?_link (by rwa [size_modify]),
      State.successor?_eq, State.successor?_eq, successors_dropParent]

theorem successors_relink_ne {source target other : Nat} {symbol : Symbol}
    (different : other ≠ source) :
    ((automaton.relink source symbol target).state other).successors =
      (automaton.state other).successors := by
  rcases automaton.relink_cases source symbol target with
    ⟨-, equal⟩ | ⟨-, equal⟩ | ⟨old, -, equal⟩
  · rw [equal]
  · rw [equal, successors_link_ne different]
  · rw [equal, successors_link_ne different, successors_dropParent]

/-- The transitions of every state form a map. -/
def Keyed (automaton : Automaton) : Prop :=
  ∀ number, Ordered.Keyed (automaton.state number).successors

theorem Keyed.link (keyed : automaton.Keyed) {source : Nat}
    (inside : source < automaton.size) (symbol : Symbol) (target : Nat) :
    (automaton.link source symbol target).Keyed := by
  intro other
  rw [successors_link inside]
  split
  · exact (keyed source).update _ _ _
  · exact keyed other

theorem Keyed.relink (keyed : automaton.Keyed) {source : Nat}
    (inside : source < automaton.size) (symbol : Symbol) (target : Nat) :
    (automaton.relink source symbol target).Keyed := by
  rcases automaton.relink_cases source symbol target with
    ⟨-, equal⟩ | ⟨-, equal⟩ | ⟨old, -, equal⟩
  · rw [equal]
    exact keyed
  · rw [equal]
    exact keyed.link inside symbol target
  · rw [equal]
    apply Keyed.link
    · intro other
      rw [successors_dropParent]
      exact keyed other
    · rwa [size_modify]

theorem Keyed.mem_successors (keyed : automaton.Keyed) {symbol : Symbol}
    {target : Nat} :
    (symbol, target) ∈ (automaton.state number).successors ↔
      (automaton.state number).successor? symbol = some target :=
  (keyed number).mem_iff

end Automaton

end LRTables
