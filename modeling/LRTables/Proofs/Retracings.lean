import LRTables.Proofs.Lanes

/-!
# Retracings

Tracing changes lookaheads and marks only, so the lanes stay as they are.  Each
operation of the walk is described by what it does to the lookaheads of one
place.
-/

namespace LRTables

/-- The configurations agree in all but lookaheads and marks. -/
structure Configuration.Relabels (old new : Configuration) : Prop where
  item : new.item = old.item
  originators : new.originators = old.originators
  transitors : new.transitors = old.transitors

namespace Configuration.Relabels

variable {old new : Configuration}

theorem refl (configuration : Configuration) :
    configuration.Relabels configuration :=
  ⟨rfl, rfl, rfl⟩

theorem trans {later : Configuration} (before : old.Relabels new)
    (after : new.Relabels later) : old.Relabels later :=
  ⟨after.item.trans before.item, after.originators.trans before.originators,
    after.transitors.trans before.transitors⟩

end Configuration.Relabels

theorem State.configuration_of_size_le {state : State} {index : Nat}
    (outside : state.configurations.size ≤ index) :
    state.configuration index = default := by
  rw [State.configuration, Array.getD_eq_getD_getElem?,
    Array.getElem?_eq_none outside]
  rfl

namespace Automaton

variable {grammar : Grammar} {first : FirstSets}
  {old new automaton : Automaton}

/-- The automata agree in all but lookaheads and marks. -/
structure Retraced (old new : Automaton) : Prop where
  size : new.size = old.size
  frame : ∀ number, new.state number =
    { old.state number with
      configurations := (new.state number).configurations }
  sizes : ∀ number, (new.state number).configurations.size =
    (old.state number).configurations.size
  relabels : ∀ place,
    (old.configuration place).Relabels (new.configuration place)

namespace Retraced

theorem refl (automaton : Automaton) : automaton.Retraced automaton := by
  constructor
  · rfl
  · exact fun _ => rfl
  · exact fun _ => rfl
  · exact fun _ => .refl _

theorem trans {later : Automaton} (before : old.Retraced new)
    (after : new.Retraced later) : old.Retraced later := by
  constructor
  · exact after.size.trans before.size
  · intro number
    rw [after.frame number, before.frame number]
  · intro number
    exact (after.sizes number).trans (before.sizes number)
  · intro place
    exact (before.relabels place).trans (after.relabels place)

theorem of_modify {number : Nat} {change : State → State}
    (frame : ∀ state : State, change state =
      { state with configurations := (change state).configurations })
    (sizes : ∀ state : State,
      (change state).configurations.size = state.configurations.size)
    (relabels : ∀ (state : State), ∀ index < state.configurations.size,
      (state.configuration index).Relabels
        ((change state).configuration index)) :
    automaton.Retraced (automaton.modify number change) := by
  have value (other : Nat) :
      (automaton.modify number change).state other = automaton.state other ∨
        (automaton.modify number change).state other =
          change (automaton.state other) := by
    by_cases same : other = number
    · subst same
      by_cases inside : other < automaton.size
      · exact Or.inr (state_modify_self inside)
      · left
        have outside := Nat.le_of_not_lt inside
        rw [state_of_size_le outside, state_of_size_le (by
          rw [size_modify]
          exact outside)]
    · exact Or.inl (state_modify_ne same)
  constructor
  · exact size_modify change
  · intro other
    rcases value other with same | changed
    · rw [same]
    · rw [changed, ← frame]
  · intro other
    rcases value other with same | changed
    · rw [same]
    · rw [changed, sizes]
  · intro place
    rw [configuration, configuration]
    rcases value place.state with same | changed
    · rw [same]
      exact .refl _
    · rw [changed]
      by_cases inside :
          place.index < (automaton.state place.state).configurations.size
      · exact relabels _ _ inside
      · have outside := Nat.le_of_not_lt inside
        rw [State.configuration_of_size_le outside,
          State.configuration_of_size_le (by rwa [sizes])]
        exact .refl _

theorem item (retraced : old.Retraced new) (place : Place) :
    (new.configuration place).item = (old.configuration place).item :=
  (retraced.relabels place).item

theorem holds_iff (retraced : old.Retraced new) {place : Place} :
    new.Holds place ↔ old.Holds place := by
  rw [Holds, Holds, retraced.size, retraced.sizes]

theorem laneTargets_eq (retraced : old.Retraced new) (place : Place) :
    new.laneTargets grammar first place =
      old.laneTargets grammar first place := by
  unfold laneTargets
  dsimp only
  rw [retraced.item, (retraced.relabels place).originators,
    (retraced.relabels place).transitors]
  simp only [retraced.item]

theorem generates_iff (retraced : old.Retraced new) {place : Place}
    {terminal : Nat} :
    new.Generates grammar first place terminal ↔
      old.Generates grammar first place terminal := by
  unfold Generates
  dsimp only
  rw [retraced.item, (retraced.relabels place).originators]
  simp only [retraced.item]

end Retraced

theorem retraced_modifyConfiguration (place : Place)
    {change : Configuration → Configuration}
    (relabels : ∀ configuration : Configuration,
      configuration.Relabels (change configuration)) :
    automaton.Retraced (automaton.modifyConfiguration place change) := by
  apply Retraced.of_modify
  · intro state
    rfl
  · intro state
    simp [State.modify]
  · intro state index _
    constructor
    · exact State.configuration_modify_keeps Configuration.item
        fun configuration => (relabels configuration).item
    · exact State.configuration_modify_keeps Configuration.originators
        fun configuration => (relabels configuration).originators
    · exact State.configuration_modify_keeps Configuration.transitors
        fun configuration => (relabels configuration).transitors

theorem Holds.modifyConfiguration {place : Place}
    (holds : automaton.Holds place)
    (change : Configuration → Configuration) (other : Place) :
    (automaton.modifyConfiguration place change).configuration other =
      if other = place then change (automaton.configuration other)
      else automaton.configuration other := by
  obtain ⟨inside, indexInside⟩ := holds
  rw [configuration, Automaton.modifyConfiguration]
  by_cases sameState : other.state = place.state
  · rw [sameState, state_modify_self inside,
      State.configuration_modify indexInside, configuration, sameState]
    by_cases sameIndex : other.index = place.index
    · have same : other = place := by
        cases other
        cases place
        cases sameState
        cases sameIndex
        rfl
      rw [if_pos sameIndex, if_pos same]
    · rw [if_neg sameIndex, if_neg fun same => sameIndex (congrArg Place.index same)]
  · rw [state_modify_ne sameState, if_neg fun same =>
      sameState (congrArg Place.state same), configuration]

end Automaton

namespace Tracing

variable {grammar : Grammar} {first : FirstSets} {tracing : Tracing}
  {place : Place}

/-- The lookaheads of a place in the course of tracing. -/
def contextOf (tracing : Tracing) (place : Place) : TerminalSet :=
  tracing.automaton.context place

/-- The place is marked as being on the lane. -/
def isInLane (tracing : Tracing) (place : Place) : Bool :=
  (tracing.automaton.configuration place).marks.inLane

theorem recordAmbiguity_eq (place : Place) :
    tracing.recordAmbiguity grammar place =
      { tracing with
        ambiguities := (tracing.recordAmbiguity grammar place).ambiguities } := by
  unfold recordAmbiguity
  dsimp only
  split <;> rfl

/-- Only the lookaheads of one place have changed: they have gained some
terminals. -/
structure Gains (place : Place) (gained : Nat → Prop)
    (old new : Tracing) : Prop where
  retraced : old.automaton.Retraced new.automaton
  others : ∀ other, other ≠ place →
    new.automaton.configuration other = old.automaton.configuration other
  context : ∀ terminal, terminal ∈ new.contextOf place ↔
    terminal ∈ old.contextOf place ∨ gained terminal
  complete : new.isComplete place = old.isComplete place
  inLane : new.isInLane place = old.isInLane place
  lane : new.lane = old.lane
  frames : new.frames = old.frames
  visits : new.visits = old.visits
  traced : new.traced = old.traced

theorem change_retraced {change : Configuration → Configuration}
    (relabels : ∀ configuration : Configuration,
      configuration.Relabels (change configuration)) :
    tracing.automaton.Retraced (tracing.change place change).automaton :=
  Automaton.retraced_modifyConfiguration place relabels

/-- A change of the lookaheads of one place. -/
theorem gains_change (holds : tracing.automaton.Holds place)
    {change : Configuration → Configuration} {gained : TerminalSet}
    (relabels : ∀ configuration : Configuration,
      configuration.Relabels (change configuration))
    (context : ∀ configuration : Configuration,
      (change configuration).context = configuration.context ∪ gained)
    (complete : ∀ configuration : Configuration,
      (change configuration).marks.complete = configuration.marks.complete)
    (inLane : ∀ configuration : Configuration,
      (change configuration).marks.inLane = configuration.marks.inLane) :
    Gains place (· ∈ gained) tracing (tracing.change place change) := by
  have value := holds.modifyConfiguration change
  constructor
  · exact change_retraced relabels
  · intro other different
    rw [Tracing.change, value, if_neg different]
  · intro terminal
    rw [contextOf, contextOf, Automaton.context, Automaton.context,
      Tracing.change, value, if_pos rfl, context, TerminalSet.mem_union]
  · rw [isComplete, Tracing.change, value, if_pos rfl, complete]
    rfl
  · rw [isInLane, Tracing.change, value, if_pos rfl, inLane]
    rfl
  · rfl
  · rfl
  · rfl
  · rfl

theorem gains_generate (holds : tracing.automaton.Holds place)
    (heads : TerminalSet) :
    Gains place (· ∈ heads) tracing (tracing.generate place heads) :=
  gains_change holds (fun _ => ⟨rfl, rfl, rfl⟩) (fun _ => rfl)
    (fun _ => rfl) fun _ => rfl

theorem gains_inherit (holds : tracing.automaton.Holds place)
    (source : Place) :
    Gains place (· ∈ tracing.contextOf source) tracing
      (tracing.inherit place source) :=
  gains_change holds (fun _ => ⟨rfl, rfl, rfl⟩) (fun _ => rfl)
    (fun _ => rfl) fun _ => rfl

namespace Gains

variable {gained more : Nat → Prop} {old new later : Tracing}

theorem refl (place : Place) (tracing : Tracing) :
    Gains place (fun _ => False) tracing tracing := by
  constructor
  · exact .refl _
  · exact fun _ _ => rfl
  · exact fun _ => (or_false _).symm.to_iff
  · rfl
  · rfl
  · rfl
  · rfl
  · rfl
  · rfl

theorem trans (before : Gains place gained old new)
    (after : Gains place more new later) :
    Gains place (fun terminal => gained terminal ∨ more terminal) old
      later := by
  constructor
  · exact before.retraced.trans after.retraced
  · intro other different
    rw [after.others other different, before.others other different]
  · intro terminal
    rw [after.context, before.context, or_assoc]
  · exact after.complete.trans before.complete
  · exact after.inLane.trans before.inLane
  · exact after.lane.trans before.lane
  · exact after.frames.trans before.frames
  · exact after.visits.trans before.visits
  · exact after.traced.trans before.traced

theorem congr (gains : Gains place gained old new)
    (same : ∀ terminal, gained terminal ↔ more terminal) :
    Gains place more old new := by
  have equal : gained = more := funext fun terminal => propext (same terminal)
  exact equal ▸ gains

end Gains

/-- The lanes that lead from a place on, with the terminals generated there,
as they are collected originator by originator. -/
theorem foldl_fromOriginator {indices : List Nat} {edges : List LaneEdge}
    (holds : tracing.automaton.Holds place) :
    Gains place
        (fun terminal => ∃ index ∈ indices,
          terminal ∈ (first.heads ((tracing.automaton.configuration
            { state := place.state, index }).item.tail grammar)).1)
        tracing
        (indices.foldl (fromOriginator grammar first place)
          (tracing, edges)).1 ∧
      (indices.foldl (fromOriginator grammar first place)
          (tracing, edges)).2 =
        edges ++ (indices.filter fun index =>
          (first.heads ((tracing.automaton.configuration
            { state := place.state, index }).item.tail grammar)).2).map
          fun index =>
            { source := place
              target := { state := place.state, index }
              crossing := false } := by
  induction indices generalizing tracing edges with
  | nil =>
      constructor
      · apply (Gains.refl place tracing).congr
        simp
      · simp
  | cons index rest ih =>
      have stepGains : Gains place
          (· ∈ (first.heads ((tracing.automaton.configuration
            { state := place.state, index }).item.tail grammar)).1) tracing
          (fromOriginator grammar first place (tracing, edges) index).1 := by
        unfold fromOriginator
        dsimp only
        split
        · rename_i empty
          apply (Gains.refl place tracing).congr
          intro terminal
          rw [TerminalSet.isEmpty_iff] at empty
          rw [empty]
          simp
        · exact gains_generate holds _
      rw [List.foldl_cons]
      have retraced := stepGains.retraced
      have later := @ih
        (fromOriginator grammar first place (tracing, edges) index).1
        (fromOriginator grammar first place (tracing, edges) index).2
        (retraced.holds_iff.mpr holds)
      simp only [retraced.item] at later
      constructor
      · apply (stepGains.trans later.1).congr
        intro terminal
        simp only [List.mem_cons, exists_eq_or_imp]
      · refine later.2.trans ?_
        rw [List.filter_cons]
        unfold fromOriginator
        dsimp only
        split
        · simp
        · simp

/-- The place is now on the lane, and the lanes on from it are to be
followed. -/
structure Visits (grammar : Grammar) (first : FirstSets) (place : Place)
    (parent : Option Place) (edges : List LaneEdge) (old new : Tracing) :
    Prop where
  retraced : old.automaton.Retraced new.automaton
  others : ∀ other, other ≠ place →
    new.automaton.configuration other = old.automaton.configuration other
  context : ∀ terminal, terminal ∈ new.contextOf place ↔
    terminal ∈ old.contextOf place ∨
      old.automaton.Generates grammar first place terminal
  complete : new.isComplete place = old.isComplete place
  inLane : new.isInLane place = true
  lane : new.lane = place :: old.lane
  frames : new.frames =
    edges.map .follow ++ .finish place parent :: old.frames
  order : ∃ crossings, new.visits = old.visits.insert place
    { order := old.traced
      low := old.traced
      crossings
      active := true }
  traced : new.traced = old.traced + 1
  sources : ∀ edge ∈ edges, edge.source = place
  targets : edges.map LaneEdge.target =
    old.automaton.laneTargets grammar first place

/-- The place is entered on the lane, before the lanes on from it are found. -/
def enter (tracing : Tracing) (place : Place) (parent : Option Place)
    (crossings : Nat) : Tracing :=
  { tracing with
    lane := place :: tracing.lane
    frames := .finish place parent :: tracing.frames
    visits := tracing.visits.insert place
      { order := tracing.traced
        low := tracing.traced
        crossings
        active := true }
    traced := tracing.traced + 1 }.change place fun configuration =>
      { configuration with
        marks := { configuration.marks with inLane := true } }

/-- The lanes on from a place that has been entered. -/
def lanesOn (grammar : Grammar) (first : FirstSets) (tracing : Tracing)
    (place : Place) : Tracing × List LaneEdge :=
  let configuration := tracing.automaton.configuration place
  if configuration.item = .goal then
    (tracing.generate place (.singleton Terminal.endOfInput), [])
  else if configuration.item.dot > 0 then
    (tracing, configuration.transitors.map fun target =>
      { source := place, target, crossing := true })
  else
    configuration.originators.foldl (fromOriginator grammar first place)
      (tracing, [])

/-- The lanes found are to be followed next. -/
def pushAll (lanes : Tracing × List LaneEdge) : Tracing :=
  { lanes.1 with frames := lanes.2.map .follow ++ lanes.1.frames }

theorem visit_eq (parent : Option Place) (crossings : Nat) :
    tracing.visit grammar first place parent crossings =
      pushAll (lanesOn grammar first (tracing.enter place parent crossings)
        place) := by
  unfold Tracing.visit
  extract_lets order begun entered configuration
  have same : tracing.enter place parent crossings = entered := rfl
  clear_value entered
  rw [same]
  rfl

theorem gains_lanesOn (holds : tracing.automaton.Holds place) :
    Gains place (tracing.automaton.Generates grammar first place) tracing
        (lanesOn grammar first tracing place).1 ∧
      (∀ edge ∈ (lanesOn grammar first tracing place).2,
        edge.source = place) ∧
      (lanesOn grammar first tracing place).2.map LaneEdge.target =
        tracing.automaton.laneTargets grammar first place := by
  unfold lanesOn Automaton.laneTargets
  dsimp only
  by_cases isGoal : (tracing.automaton.configuration place).item = .goal
  · simp only [if_pos isGoal]
    refine ⟨?_, by simp, rfl⟩
    apply (gains_generate holds (.singleton Terminal.endOfInput)).congr
    intro terminal
    rw [Automaton.generates_of_goal isGoal, TerminalSet.mem_singleton]
  · simp only [if_neg isGoal]
    by_cases moved : (tracing.automaton.configuration place).item.dot > 0
    · simp only [if_pos moved]
      refine ⟨?_, ?_, ?_⟩
      · apply (Gains.refl place tracing).congr
        intro terminal
        rw [Automaton.generates_of_ne_goal isGoal, false_iff]
        rintro ⟨isStart, -⟩
        omega
      · intro edge member
        obtain ⟨target, -, rfl⟩ := List.mem_map.mp member
        rfl
      · rw [List.map_map]
        exact List.map_id _
    · simp only [if_neg moved]
      obtain ⟨gains, edges⟩ := @foldl_fromOriginator grammar first tracing
        place (tracing.automaton.configuration place).originators [] holds
      refine ⟨?_, ?_, ?_⟩
      · apply gains.congr
        intro terminal
        rw [Automaton.generates_of_ne_goal isGoal]
        have isStart :
            (tracing.automaton.configuration place).item.dot = 0 := by omega
        simp only [isStart, true_and]
      · rw [edges, List.nil_append]
        intro edge member
        obtain ⟨index, -, rfl⟩ := List.mem_map.mp member
        rfl
      · rw [edges, List.nil_append, List.map_map]
        rfl

theorem visits_visit (holds : tracing.automaton.Holds place)
    (parent : Option Place) (crossings : Nat) :
    ∃ edges, Visits grammar first place parent edges tracing
      (tracing.visit grammar first place parent crossings) := by
  have value := holds.modifyConfiguration fun configuration =>
    { configuration with
      marks := { configuration.marks with inLane := true } }
  have entered : tracing.automaton.Retraced
      (tracing.enter place parent crossings).automaton := by
    apply change_retraced
    intro configuration
    exact ⟨rfl, rfl, rfl⟩
  have configuration (other : Place) :
      (tracing.enter place parent crossings).automaton.configuration other =
        if other = place then
          { tracing.automaton.configuration other with
            marks :=
              { (tracing.automaton.configuration other).marks with
                inLane := true } }
        else tracing.automaton.configuration other := value other
  obtain ⟨gains, sources, targets⟩ := @gains_lanesOn grammar first
    (tracing.enter place parent crossings) place
    (entered.holds_iff.mpr holds)
  rw [visit_eq]
  generalize lanesOn grammar first (tracing.enter place parent crossings)
    place = on at gains sources targets ⊢
  refine ⟨on.2, ?_⟩
  constructor
  · exact entered.trans gains.retraced
  · intro other different
    refine (gains.others other different).trans ?_
    rw [configuration, if_neg different]
  · intro terminal
    refine (gains.context terminal).trans ?_
    rw [entered.generates_iff, contextOf, Automaton.context, configuration,
      if_pos rfl]
    rfl
  · refine gains.complete.trans ?_
    rw [isComplete, configuration, if_pos rfl]
    rfl
  · refine gains.inLane.trans ?_
    rw [isInLane, configuration, if_pos rfl]
  · exact gains.lane
  · rw [pushAll, gains.frames]
    rfl
  · exact ⟨crossings, gains.visits⟩
  · exact gains.traced
  · exact sources
  · rw [targets, entered.laneTargets_eq]

end Tracing

end LRTables
