import LRTables.Proofs.Walks
import Mathlib.Algebra.BigOperators.Group.Finset.Basic

/-!
# Levels of a walk step by step

Each frame that is worked off turns the levels of a walk into other ones: a
step along a lane ends at a complete place, at a place of the lane, or on a
level of its own, and a place that is left either takes its component off the
lane or joins the level below.
-/

namespace LRTables.Tracing

variable {grammar : Grammar} {first : FirstSets} {base : Automaton}
  {tracing next : Tracing} {level : Level} {rest : List Level}

/-- The lane and the frames of a tracing fall into sound levels. -/
structure Walking (grammar : Grammar) (first : FirstSets) (base : Automaton)
    (levels : List Level) (tracing : Tracing) : Prop where
  lane : tracing.lane = laneOf levels
  frames : tracing.frames = framesOf levels
  labeled : tracing.Labeled grammar first base (laneOf levels)
  sound : LevelsSound grammar first base tracing none levels

/-- The level with its first step taken. -/
def Level.taken (level : Level) (pending : List LaneEdge) : Level :=
  { level with pending }

theorem Walking.place_holds
    (walking : Walking grammar first base (level :: rest) tracing) :
    base.Holds level.place :=
  walking.labeled.holds _ (level.place_mem _)

/-- The place of the topmost level takes a step that stays on the lane or ends
at a complete place. -/
theorem Walking.step {edge : LaneEdge} {pending : List LaneEdge}
    (walking : Walking grammar first base (level :: rest) tracing)
    (isFirst : level.pending = edge :: pending)
    (adjusts : Adjusts level.place tracing next)
    (labeled : next.Labeled grammar first base (laneOf (level :: rest)))
    (lane : next.lane = tracing.lane)
    (frames : next.frames = framesOf (level.taken pending :: rest))
    (ground : ∃ ground ∈ level.owned (laneOf rest),
      tracing.orderOf ground = next.lowOf level.place ∧
        base.LaneLeads grammar first level.place ground)
    (settled : Settled base (level.owned (laneOf rest)) next level.place
      edge.target) :
    Walking grammar first base (level.taken pending :: rest) next := by
  obtain ⟨top, others⟩ := walking.sound
  have before := walking.labeled
  have incomplete := before.unfinished _ (level.place_mem _)
  have notBelow : level.place ∉ laneOf rest := by
    intro onLane
    exact Nat.lt_irrefl _ (before.order_lt_of_below onLane)
  constructor
  · exact lane.trans walking.lane
  · exact frames
  · exact labeled
  · refine ⟨?_, others.stable (adjusts.stable incomplete notBelow)⟩
    apply top.adjust before adjusts ground
    · intro target isTarget
      rcases top.partly target isTarget with already | ⟨other, waits, same⟩ | no
      · exact Or.inl (adjusts.settled incomplete already)
      · rw [isFirst] at waits
        rcases List.mem_cons.mp waits with rfl | later
        · exact Or.inl (same ▸ settled)
        · exact Or.inr (Or.inl ⟨other, later, same⟩)
      · cases no
    · intro other inside
      rw [isFirst]
      exact List.mem_cons_of_mem _ inside
    · exact fun _ same => same

/-- The number of frames that visiting a place brings. -/
def weight (base : Automaton) (place : Place) : Nat :=
  1 + (base.configuration place).originators.length +
    (base.configuration place).transitors.length

/-- All places of the automaton. -/
def places (base : Automaton) : List Place :=
  (List.range base.size).flatMap base.placesOf

theorem mem_places {place : Place} : place ∈ places base ↔ base.Holds place := by
  obtain ⟨number, index⟩ := place
  simp only [places, Automaton.placesOf, List.mem_flatMap, List.mem_map,
    List.mem_range, Place.mk.injEq, Automaton.Holds]
  constructor
  · rintro ⟨other, inside, position, within, rfl, rfl⟩
    exact ⟨inside, within⟩
  · rintro ⟨inside, within⟩
    exact ⟨number, inside, index, within, rfl, rfl⟩

/-- The frames that unvisited places will bring. -/
def owed (base : Automaton) (tracing : Tracing) : Nat :=
  ∑ place ∈ (places base).toFinset,
    if tracing.visits[place]?.isSome then 0 else weight base place

/-- The frames there are and those to come. -/
def potential (base : Automaton) (tracing : Tracing) : Nat :=
  tracing.frames.length + owed base tracing

theorem owed_congr
    (visited : ∀ place : Place,
      next.visits[place]?.isSome = tracing.visits[place]?.isSome) :
    owed base next = owed base tracing := by
  simp only [owed, visited]

theorem owed_visit {place : Place} (holds : base.Holds place)
    (unvisited : tracing.visits[place]? = none)
    (visited : ∀ other : Place, next.visits[other]?.isSome = true ↔
      other = place ∨ tracing.visits[other]?.isSome = true) :
    owed base next + weight base place = owed base tracing := by
  have member : place ∈ (places base).toFinset :=
    List.mem_toFinset.mpr (mem_places.mpr holds)
  have others : ∀ other ∈ (places base).toFinset.erase place,
      (if next.visits[other]?.isSome then 0 else weight base other) =
        if tracing.visits[other]?.isSome then 0 else weight base other := by
    intro other inside
    have different := Finset.ne_of_mem_erase inside
    have same := visited other
    rw [or_iff_right different] at same
    simp only [same]
  unfold owed
  rw [← Finset.add_sum_erase _ _ member, ← Finset.add_sum_erase _ _ member,
    Finset.sum_congr rfl others, if_pos ((visited place).mpr (Or.inl rfl)),
    unvisited]
  simp only [Option.isSome_none, Bool.false_eq_true, if_false]
  omega

/-- A step of the walk loses nothing and leaves less to do. -/
structure Advances (base : Automaton) (old new : Tracing) : Prop where
  visited : ∀ place : Place, old.visits[place]?.isSome = true →
    new.visits[place]?.isSome = true
  complete : ∀ place, base.Holds place → old.isComplete place = true →
    new.isComplete place = true
  potential : potential base new < potential base old

theorem advances_quietly
    (visited : ∀ place : Place,
      next.visits[place]?.isSome = tracing.visits[place]?.isSome)
    (complete : ∀ place, base.Holds place →
      tracing.isComplete place = true → next.isComplete place = true)
    (frames : next.frames.length < tracing.frames.length) :
    Advances base tracing next := by
  constructor
  · intro place before
    rw [visited]
    exact before
  · exact complete
  · have same := @owed_congr base tracing next visited
    rw [potential, potential, same]
    omega

theorem length_laneTargets_le (place : Place) :
    (base.laneTargets grammar first place).length + 1 ≤ weight base place := by
  unfold Automaton.laneTargets weight
  dsimp only
  split
  · simp
    omega
  · split
    · omega
    · rw [List.length_map]
      have bound := List.length_filter_le (fun index =>
        (first.heads ((base.configuration
          { state := place.state, index }).item.tail grammar)).2)
        (base.configuration place).originators
      omega

section Visiting

variable {place : Place} {parent : Option Place} {edges : List LaneEdge}
  (visits : Visits grammar first place parent edges tracing next)
  (retraced : base.Retraced tracing.automaton)

include visits retraced

theorem Visits.targets_eq :
    edges.map LaneEdge.target = base.laneTargets grammar first place := by
  rw [visits.targets, retraced.laneTargets_eq]

/-- A place that has just been visited makes a level of its own. -/
theorem Visits.level_sound (below : List Place) :
    Level.Sound grammar first base next below none
      { place, members := [], pending := edges } := by
  obtain ⟨crossings, atPlace⟩ := visits.visitOf_self
  have targets := visits.targets_eq retraced
  constructor
  · intro member impossible
    cases impossible
  · intro member impossible
    cases impossible
  · intro member impossible
    cases impossible
  · rw [lowOf, orderOf, atPlace]
  · intro member inside
    rw [List.mem_singleton] at inside
    subst inside
    refine ⟨member, List.mem_cons_self, ?_, .refl⟩
    rw [lowOf, orderOf, atPlace]
  · intro member impossible
    cases impossible
  · intro member impossible
    cases impossible
  · intro target member
    rw [← targets, List.mem_map] at member
    exact Or.inr (Or.inl member)
  · intro edge member
    refine ⟨visits.sources edge member, ?_⟩
    rw [← targets]
    exact List.mem_map_of_mem member
  · intro place impossible
    cases impossible

omit retraced in
theorem Visits.stable {lane : List Place}
    (incomplete : tracing.isComplete place = false)
    (notOnLane : place ∉ lane) : Stable base lane tracing next := by
  apply Stable.of_ne visits.isComplete_eq (fun other => visits.contextOf_ne) _ _
    incomplete notOnLane
  · intro other different
    rw [orderOf, visits.visitOf_ne different]
    rfl
  · intro other different
    rw [lowOf, visits.visitOf_ne different]
    rfl

theorem Visits.potential_le (holds : base.Holds place)
    (unvisited : tracing.visits[place]? = none) :
    potential base next ≤ potential base tracing := by
  have pays := owed_visit holds unvisited visits.isSome_iff
  have bound := @length_laneTargets_le grammar first base place
  rw [← visits.targets_eq retraced, List.length_map] at bound
  have frames := congrArg List.length visits.frames
  rw [List.length_append, List.length_map, List.length_cons] at frames
  rw [potential, potential]
  omega

end Visiting

theorem Passes.advances {closed : Tracing} {place source : Place} {order : Nat}
    (passes : Passes place source order closed next)
    (visited : ∀ place : Place,
      closed.visits[place]?.isSome = tracing.visits[place]?.isSome)
    (complete : ∀ place, base.Holds place →
      tracing.isComplete place = true → closed.isComplete place = true)
    (frames : closed.frames.length < tracing.frames.length) :
    Advances base tracing next := by
  apply advances_quietly
  · exact fun place => (passes.visited place).trans (visited place)
  · intro place holds before
    rw [passes.adjusts.complete]
    exact complete place holds before
  · rw [passes.frames]
    exact frames

/-- The levels below that of the place that takes in a context stay sound. -/
theorem Passes.walking {closed : Tracing} {source : Place} {order : Nat}
    (passes : Passes level.place source order closed next)
    (lane : closed.lane = laneOf (level :: rest))
    (frames : closed.frames = framesOf (level :: rest))
    (labeled : next.Labeled grammar first base (laneOf (level :: rest)))
    (sound : level.Sound grammar first base next (laneOf rest) none)
    (others : LevelsSound grammar first base closed (some level.place) rest) :
    Walking grammar first base (level :: rest) next := by
  have adjusts := passes.adjusts
  have incomplete := labeled.unfinished _ (level.place_mem _)
  rw [adjusts.complete] at incomplete
  have notBelow : level.place ∉ laneOf rest := by
    intro onLane
    exact Nat.lt_irrefl _ (labeled.order_lt_of_below onLane)
  constructor
  · exact passes.lane.trans lane
  · exact passes.frames.trans frames
  · exact labeled
  · exact ⟨sound, others.stable (adjusts.stable incomplete notBelow)⟩

section Follow

variable {edge : LaneEdge} {pending : List LaneEdge}
  (laned : base.Laned grammar)
  (walking : Walking grammar first base (level :: rest) tracing)
  (isFirst : level.pending = edge :: pending)

/-- The tracing with the first frame taken off. -/
def begun (tracing : Tracing) (levels : List Level) : Tracing :=
  { tracing with frames := framesOf levels }

include walking isFirst in
theorem Walking.frames_follow :
    tracing.frames =
      .follow edge :: framesOf (level.taken pending :: rest) := by
  rw [walking.frames, framesOf, isFirst]
  rfl

theorem sameLabels_begun (levels : List Level) :
    SameLabels tracing (tracing.begun levels) :=
  .of_eq rfl rfl rfl

include laned walking isFirst in
theorem Walking.target_holds : base.Holds edge.target := by
  have inside : edge ∈ level.pending := isFirst ▸ List.mem_cons_self
  obtain ⟨-, isTarget⟩ := walking.sound.1.pending edge inside
  exact laned.holds_target walking.place_holds isTarget

include laned walking isFirst in
/-- A step that ends at a complete place. -/
theorem Walking.follow_complete
    (complete : tracing.isComplete edge.target = true) :
    Walking grammar first base (level.taken pending :: rest)
        ((tracing.begun (level.taken pending :: rest)).inherit level.place
          edge.target) ∧
      Advances base tracing
        ((tracing.begun (level.taken pending :: rest)).inherit level.place
          edge.target) := by
  have inside : edge ∈ level.pending := isFirst ▸ List.mem_cons_self
  obtain ⟨-, isTarget⟩ := walking.sound.1.pending edge inside
  have holds := walking.target_holds laned isFirst
  have onLane := level.place_mem (laneOf rest)
  have same := @sameLabels_begun tracing (level.taken pending :: rest)
  have start := walking.labeled.sameLabels same
  have gains := gains_inherit
    (start.retraced.holds_iff.mpr walking.place_holds) edge.target
  have adjusts := (same.adjusts level.place).trans gains.adjusts
  constructor
  · apply walking.step isFirst adjusts
    · apply start.gains onLane gains
      intro terminal present
      exact .along isTarget (start.sound edge.target holds terminal present)
    · exact gains.lane
    · exact gains.frames
    · obtain ⟨ground, owned, order, leads⟩ :=
        walking.sound.1.grounded level.place List.mem_cons_self
      refine ⟨ground, owned, ?_, leads⟩
      rw [order, lowOf, lowOf, gains.visitOf_eq]
      exact (same.low level.place).symm
    · refine Or.inl ⟨holds, ?_, ?_⟩
      · rw [adjusts.complete]
        exact complete
      · intro terminal present
        have different : edge.target ≠ level.place := by
          intro equal
          rw [equal, walking.labeled.unfinished _ onLane] at complete
          cases complete
        rw [adjusts.context_ne _ different] at present
        exact (gains.context terminal).mpr (Or.inr present)
  · apply advances_quietly
    · intro place
      rw [gains.visits]
      rfl
    · intro place _ before
      rw [adjusts.complete]
      exact before
    · rw [gains.frames, walking.frames_follow isFirst]
      exact Nat.lt_succ_self _

include laned walking isFirst in
/-- A step that ends at a place of the lane. -/
theorem Walking.follow_visited {noted : Tracing}
    (automaton : noted.automaton = tracing.automaton)
    (visits : noted.visits = tracing.visits)
    (traced : noted.traced = tracing.traced)
    (lane : noted.lane = tracing.lane)
    (frames : noted.frames = framesOf (level.taken pending :: rest))
    (targetOn : edge.target ∈ laneOf (level :: rest)) :
    Walking grammar first base (level.taken pending :: rest)
        ((noted.lower level.place (tracing.orderOf edge.target)).inherit
          level.place edge.target) ∧
      Advances base tracing
        ((noted.lower level.place (tracing.orderOf edge.target)).inherit
          level.place edge.target) := by
  have inside : edge ∈ level.pending := isFirst ▸ List.mem_cons_self
  obtain ⟨-, isTarget⟩ := walking.sound.1.pending edge inside
  have holds := walking.target_holds laned isFirst
  have onLane := level.place_mem (laneOf rest)
  have same : SameLabels tracing noted := .of_eq automaton visits traced
  have start := walking.labeled.sameLabels same
  obtain ⟨passes, labeled⟩ :=
    start.passes onLane holds isTarget (tracing.orderOf edge.target)
  have adjusts := (same.adjusts level.place).trans passes.adjusts
  have low := passes.low
  rw [same.low] at low
  constructor
  · apply walking.step isFirst adjusts labeled
    · exact passes.lane.trans lane
    · exact passes.frames.trans frames
    · rw [low]
      rcases Nat.le_total (tracing.lowOf level.place)
          (tracing.orderOf edge.target) with less | more
      · rw [Nat.min_eq_left less]
        exact walking.sound.1.grounded level.place List.mem_cons_self
      · rw [Nat.min_eq_right more]
        exact ⟨edge.target, targetOn, rfl, Relation.ReflTransGen.single
          isTarget⟩
    · refine Or.inr ⟨targetOn, ?_⟩
      rw [low, adjusts.order]
      exact Nat.min_le_right _ _
  · apply passes.advances
    · intro place
      rw [visits]
    · intro place _ before
      rw [same.isComplete_eq]
      exact before
    · rw [frames, walking.frames_follow isFirst]
      exact Nat.lt_succ_self _

/-- A level waits for the place that is visited by its first step. -/
theorem Level.Sound.await {below : List Place}
    (sound : level.Sound grammar first base tracing below none)
    (isFirst : level.pending = edge :: pending) :
    (level.taken pending).Sound grammar first base tracing below
      (some edge.target) := by
  have isTarget :=
    (sound.pending edge (isFirst ▸ List.mem_cons_self)).2
  constructor
  · exact sound.contexts
  · exact sound.lows
  · exact sound.sinks
  · exact sound.low_le
  · exact sound.grounded
  · exact sound.reaches
  · exact sound.settled
  · intro target member
    rcases sound.partly target member with
      settled | ⟨other, waits, equal⟩ | no
    · exact Or.inl settled
    · rw [isFirst] at waits
      rcases List.mem_cons.mp waits with rfl | later
      · exact Or.inr (Or.inr (congrArg some equal))
      · exact Or.inr (Or.inl ⟨other, later, equal⟩)
    · cases no
  · intro other member
    apply sound.pending other
    rw [isFirst]
    exact List.mem_cons_of_mem _ member
  · intro place equal
    cases equal
    exact isTarget

include walking isFirst in
/-- A step that ends at a place that has not been visited. -/
theorem Walking.follow_new (holds : base.Holds edge.target)
    (unvisited : tracing.visits[edge.target]? = none)
    (incomplete : tracing.isComplete edge.target = false)
    {edges : List LaneEdge}
    (visits : Visits grammar first edge.target (some level.place) edges
      (tracing.begun (level.taken pending :: rest)) next) :
    Walking grammar first base
        ({ place := edge.target, members := [], pending := edges } ::
          level.taken pending :: rest) next ∧
      Advances base tracing next := by
  have same := @sameLabels_begun tracing (level.taken pending :: rest)
  have start := walking.labeled.sameLabels same
  have notOnLane : edge.target ∉ laneOf (level :: rest) := by
    intro onLane
    have entered := walking.labeled.entered _ onLane
    rw [unvisited] at entered
    cases entered
  have stable : Stable base (laneOf (level :: rest))
      (tracing.begun (level.taken pending :: rest)) next :=
    visits.stable incomplete notOnLane
  constructor
  · constructor
    · rw [visits.lane]
      show edge.target :: tracing.lane = _
      rw [walking.lane]
      rfl
    · exact visits.frames
    · exact start.enterLane visits holds unvisited incomplete
    · obtain ⟨top, others⟩ :=
        walking.sound.stable (same.stable (laneOf (level :: rest)))
      refine ⟨?_, ?_, others.stable (stable.mono fun place onLane =>
        Level.below_mem onLane)⟩
      · exact visits.level_sound start.retraced _
      · exact (top.stable stable).await isFirst
  · constructor
    · intro place before
      exact (visits.isSome_iff place).mpr (Or.inr before)
    · intro place _ before
      rw [visits.isComplete_eq]
      exact before
    · have pays := visits.potential_le start.retraced holds unvisited
      have before := congrArg List.length (walking.frames_follow isFirst)
      rw [List.length_cons] at before
      have begun : potential base
          (tracing.begun (level.taken pending :: rest)) =
            (framesOf (level.taken pending :: rest)).length +
              owed base tracing := rfl
      rw [begun] at pays
      rw [potential, potential] at *
      omega

include laned walking isFirst in
/-- Every step along a lane keeps the levels sound. -/
theorem Walking.follow :
    ∃ levels, Walking grammar first base levels
        ((tracing.begun (level.taken pending :: rest)).follow grammar first
          edge) ∧
      Advances base tracing
        ((tracing.begun (level.taken pending :: rest)).follow grammar first
          edge) := by
  have inside : edge ∈ level.pending := isFirst ▸ List.mem_cons_self
  obtain ⟨source, -⟩ := walking.sound.1.pending edge inside
  have holds := walking.target_holds laned isFirst
  have complete : (tracing.begun (level.taken pending :: rest)).isComplete
      edge.target = tracing.isComplete edge.target := rfl
  have visits : (tracing.begun (level.taken pending :: rest)).visits =
      tracing.visits := rfl
  unfold Tracing.follow
  rw [complete, source]
  by_cases isComplete : tracing.isComplete edge.target = true
  · rw [if_pos isComplete]
    exact ⟨_, walking.follow_complete laned isFirst isComplete⟩
  · rw [if_neg isComplete]
    dsimp only
    split
    · rename_i unvisited
      have retraced := walking.labeled.retraced
      obtain ⟨edges, entered⟩ := @visits_visit grammar first
        (tracing.begun (level.taken pending :: rest)) edge.target
        (retraced.holds_iff.mpr holds) (some level.place)
        (if edge.crossing then
          ((tracing.begun (level.taken pending :: rest)).visitOf
            level.place).crossings + 1
        else
          ((tracing.begun (level.taken pending :: rest)).visitOf
            level.place).crossings)
      exact ⟨_, walking.follow_new isFirst holds unvisited
        (Bool.eq_false_iff.mpr isComplete) entered⟩
    · rename_i target found
      have visited : tracing.visits[edge.target]?.isSome = true := by
        rw [← visits, found]
        rfl
      have targetOn : edge.target ∈ laneOf (level :: rest) := by
        rcases (walking.labeled.lapsed _ visited).2 with onLane | already
        · exact onLane
        · exact absurd already isComplete
      have order : target.order = tracing.orderOf edge.target := by
        rw [orderOf, visitOf, Std.HashMap.getD_eq_getD_getElem?, ← visits,
          found]
        rfl
      rw [order]
      refine ⟨level.taken pending :: rest, ?_⟩
      split
      · rw [recordAmbiguity_eq]
        exact walking.follow_visited laned isFirst rfl rfl rfl rfl rfl targetOn
      · exact walking.follow_visited laned isFirst rfl rfl rfl rfl rfl targetOn

end Follow

section Finish

variable (wellFormed : grammar.WellFormed) (goalless : base.Goalless grammar)
  (laned : base.Laned grammar)
  (walking : Walking grammar first base (level :: rest) tracing)
  (idle : level.pending = [])

/-- The place is no longer on the path from the root of the walk. -/
def leave (tracing : Tracing) (place : Place) : Tracing :=
  { tracing with
    visits := tracing.visits.modify place fun visit =>
      { visit with active := false } }

theorem sameLabels_leave (place : Place) :
    SameLabels tracing (tracing.leave place) := by
  have visit (other : Place) :
      ((tracing.leave place).visitOf other).order =
          (tracing.visitOf other).order ∧
        ((tracing.leave place).visitOf other).low =
          (tracing.visitOf other).low := by
    rw [visitOf, visitOf, leave, Std.HashMap.getD_modify]
    by_cases same : place = other
    · subst same
      rw [if_pos (beq_self_eq_true place),
        Std.HashMap.getD_eq_getD_getElem?]
      cases tracing.visits[place]? with
      | none => exact ⟨rfl, rfl⟩
      | some visit => exact ⟨rfl, rfl⟩
    · rw [if_neg (by simpa using same)]
      exact ⟨rfl, rfl⟩
  constructor
  · rfl
  · exact fun other => (visit other).1
  · exact fun other => (visit other).2
  · intro other
    rw [leave, Std.HashMap.getElem?_modify]
    by_cases same : place = other
    · subst same
      simp
    · simp [same]
  · rfl

/-- Leave a place with the rest of the lane as it is after that. -/
def leaveTo (tracing closed : Tracing) (place : Place)
    (parent : Option Place) : Tracing :=
  match parent with
  | none => closed
  | some parent =>
    (closed.lower parent (tracing.lowOf place)).inherit parent place

theorem finish_eq (place : Place) (parent : Option Place) :
    tracing.finish grammar place parent =
      leaveTo (tracing.leave place)
        (if (tracing.leave place).lowOf place =
            (tracing.leave place).orderOf place then
          (tracing.leave place).closeComponent grammar place
            ((tracing.leave place).contextOf place) tracing.lane
        else tracing.leave place) place parent := by
  cases parent with
  | none => rfl
  | some parent => rfl

include walking idle in
theorem Walking.frames_finish :
    tracing.frames =
      .finish level.place (rest.head?.map Level.place) :: framesOf rest := by
  rw [walking.frames, framesOf, idle]
  rfl

/-- A level takes in what its child passes on that has left the lane. -/
theorem Level.Sound.takeIn {closed next : Tracing} {up : Level}
    {below : List Place} {child : Place} {order : Nat}
    (sound : up.Sound grammar first base closed below (some child))
    (labeled : closed.Labeled grammar first base (up.owned below))
    (holds : base.Holds child) (complete : closed.isComplete child = true)
    (passes : Passes up.place child order closed next)
    (lowest : closed.lowOf up.place ≤ order) :
    up.Sound grammar first base next below none := by
  have adjusts := passes.adjusts
  have incomplete := labeled.unfinished _ (up.place_mem below)
  apply sound.adjust labeled adjusts
  · rw [passes.low, Nat.min_eq_left lowest]
    exact sound.grounded up.place List.mem_cons_self
  · intro target member
    rcases sound.partly target member with settled | waits | isChild
    · exact Or.inl (adjusts.settled incomplete settled)
    · exact Or.inr (Or.inl waits)
    · cases isChild
      refine Or.inl (Or.inl ⟨holds, ?_, ?_⟩)
      · rw [adjusts.complete]
        exact complete
      · have different : child ≠ up.place := by
          intro same
          rw [same, incomplete] at complete
          cases complete
        rw [adjusts.context_ne _ different]
        exact passes.passed
  · exact fun _ inside => inside
  · intro place impossible
    cases impossible

include walking idle in
theorem Walking.shorter : (framesOf rest).length < tracing.frames.length := by
  rw [walking.frames_finish idle]
  exact Nat.lt_succ_self _

include wellFormed goalless laned walking idle in
/-- What a root owns gets the context of the root. -/
theorem Walking.close_root
    (root : tracing.lowOf level.place = tracing.orderOf level.place)
    {left closed : Tracing} (same : SameLabels tracing left)
    (equal : closed = left.closeComponent grammar level.place
      (left.contextOf level.place) tracing.lane) :
    closed.Labeled grammar first base (laneOf rest) ∧
      Preserves base (laneOf rest) left closed ∧
      closed.lane = laneOf rest ∧ closed.isComplete level.place = true := by
  have labeled := walking.labeled.sameLabels same
  have top := walking.sound.1.stable (same.stable (laneOf (level :: rest)))
  have leftRoot : left.lowOf level.place = left.orderOf level.place := by
    rw [same.low, same.order, root]
  rw [walking.lane] at equal
  refine labeled.closeComponent wellFormed goalless laned.sourced ?_ equal
  intro place inside
  refine top.final labeled idle leftRoot ?_
  rcases List.mem_append.mp inside with member | isRoot
  · exact List.mem_cons_of_mem _ member
  · rw [List.mem_singleton] at isRoot
    exact isRoot ▸ List.mem_cons_self

include wellFormed goalless laned walking idle in
/-- A component leaves the lane. -/
theorem Walking.finish_root
    (root : tracing.lowOf level.place = tracing.orderOf level.place)
    {left closed : Tracing} (same : SameLabels tracing left)
    (frames : left.frames = framesOf rest)
    (equal : closed = left.closeComponent grammar level.place
      (left.contextOf level.place) tracing.lane) :
    Walking grammar first base rest
        (leaveTo left closed level.place (rest.head?.map Level.place)) ∧
      Advances base tracing
        (leaveTo left closed level.place (rest.head?.map Level.place)) := by
  obtain ⟨closedLabeled, preserves, lane, complete⟩ :=
    walking.close_root wellFormed goalless laned idle root same equal
  have stable := preserves.stable
  have moved := (walking.sound.2.stable (same.stable _)).stable stable
  have kept := preserves.frames.trans frames
  have visited (place : Place) : closed.visits[place]?.isSome =
      tracing.visits[place]?.isSome := by
    rw [preserves.visits, same.visited]
  have stays (place : Place) (holds : base.Holds place)
      (before : tracing.isComplete place = true) :
      closed.isComplete place = true := by
    apply (preserves.complete place holds _).1
    rw [same.isComplete_eq]
    exact before
  have shorter : closed.frames.length < tracing.frames.length :=
    kept ▸ walking.shorter idle
  cases rest with
  | nil =>
      constructor
      · exact ⟨lane, kept, closedLabeled, trivial⟩
      · exact advances_quietly visited stays shorter
  | cons up more =>
      obtain ⟨upSound, lower⟩ := moved
      have upOn := up.place_mem (laneOf more)
      obtain ⟨passes, passedLabeled⟩ := closedLabeled.passes upOn
        walking.place_holds (upSound.child level.place rfl)
        (left.lowOf level.place)
      -- The place lies above its parent, so nothing is lowered.
      have above : closed.lowOf up.place ≤ left.lowOf level.place := by
        refine upSound.low_le.trans ?_
        rw [stable.order _ upOn, same.order, same.low, root]
        exact Nat.le_of_lt (walking.labeled.order_lt_of_below upOn)
      have sound := upSound.takeIn closedLabeled walking.place_holds complete
        passes above
      exact ⟨passes.walking lane kept passedLabeled sound lower,
        passes.advances visited stays shorter⟩

/-- What a level owns joins the level below it. -/
def Level.merge (level up : Level) : Level :=
  { up with members := level.members ++ level.place :: up.members }

theorem Level.owned_merge (level up : Level) (below : List Place) :
    (level.merge up).owned below = level.owned (up.owned below) := by
  simp [Level.merge, Level.owned]

theorem Settled.mono {lane more : List Place} {place target : Place}
    (settled : Settled base lane tracing place target)
    (subset : ∀ other ∈ lane, other ∈ more) :
    Settled base more tracing place target := by
  rcases settled with complete | ⟨onLane, reaches⟩
  · exact Or.inl complete
  · exact Or.inr ⟨subset target onLane, reaches⟩

section Merge

variable {up : Level}

theorem Level.mem_merge {member : Place} :
    member ∈ (level.merge up).members ↔
      member ∈ level.place :: level.members ∨ member ∈ up.members := by
  simp only [Level.merge, List.mem_append, List.mem_cons]
  tauto

variable {below : List Place}
  (labeled : tracing.Labeled grammar first base
    (level.owned (up.owned below)))

include labeled in
theorem Labeled.ne_place_of_owned {place : Place}
    (inside : place ∈ level.place :: level.members) : place ≠ up.place := by
  rintro rfl
  have above := labeled.order_lt_of_below (up.place_mem below)
  rcases List.mem_cons.mp inside with same | member
  · rw [same] at above
    exact Nat.lt_irrefl _ above
  · have higher := labeled.order_lt_of_member member
    omega

include labeled in
theorem Labeled.ne_place_of_member {member : Place}
    (inside : member ∈ up.members) : member ≠ up.place := by
  rintro rfl
  have ordered := (List.pairwise_append.mp labeled.ordered).2.1
  have upOrdered := (List.pairwise_cons.mp ordered).2
  have members : up.owned below = up.members ++ up.place :: below := rfl
  rw [members] at upOrdered
  exact Nat.lt_irrefl _ ((List.pairwise_append.mp upOrdered).2.2 _ inside _
    List.mem_cons_self)

variable
  (top : level.Sound grammar first base tracing (up.owned below) none)
  (upSound : up.Sound grammar first base tracing below (some level.place))
  (passes : Passes up.place level.place (tracing.lowOf level.place) tracing
    next)

include labeled top upSound passes in
/-- The lowest places that the merged levels reach are on the lane. -/
theorem Level.Sound.grounded_merge {member : Place}
    (inside : member ∈ up.place :: (level.merge up).members) :
    ∃ ground ∈ level.owned (up.owned below),
      next.orderOf ground = next.lowOf member ∧
        base.LaneLeads grammar first member ground := by
  have adjusts := passes.adjusts
  have others (different : member ≠ up.place)
      (ground : ∃ ground ∈ level.owned (up.owned below),
        tracing.orderOf ground = tracing.lowOf member ∧
          base.LaneLeads grammar first member ground) :
      ∃ ground ∈ level.owned (up.owned below),
        next.orderOf ground = next.lowOf member ∧
          base.LaneLeads grammar first member ground := by
    obtain ⟨ground, onLane, order, leads⟩ := ground
    refine ⟨ground, onLane, ?_, leads⟩
    rw [adjusts.order, adjusts.low_ne member different]
    exact order
  rcases List.mem_cons.mp inside with rfl | isMember
  · rw [passes.low]
    rcases Nat.le_total (tracing.lowOf up.place)
        (tracing.lowOf level.place) with less | more
    · obtain ⟨ground, onLane, order, leads⟩ :=
        upSound.grounded up.place List.mem_cons_self
      refine ⟨ground, Level.below_mem onLane, ?_, leads⟩
      rw [adjusts.order, order, Nat.min_eq_left less]
    · obtain ⟨ground, onLane, order, leads⟩ :=
        top.grounded level.place List.mem_cons_self
      refine ⟨ground, onLane, ?_,
        Relation.ReflTransGen.head (upSound.child level.place rfl) leads⟩
      rw [adjusts.order, order, Nat.min_eq_right more]
  · rcases Level.mem_merge.mp isMember with own | ofUp
    · exact others (labeled.ne_place_of_owned own) (top.grounded member own)
    · obtain ⟨ground, onLane, rest⟩ :=
        upSound.grounded member (List.mem_cons_of_mem _ ofUp)
      exact others (labeled.ne_place_of_member ofUp)
        ⟨ground, Level.below_mem onLane, rest⟩

include labeled top upSound passes in
/-- The level below takes over a level that has been worked off. -/
theorem Level.Sound.merge (idle : level.pending = [])
    (notRoot : tracing.lowOf level.place < tracing.orderOf level.place) :
    (level.merge up).Sound grammar first base next below none := by
  have adjusts := passes.adjusts
  have incomplete :=
    labeled.unfinished _ (Level.below_mem (up.place_mem below))
  have isTarget := upSound.child level.place rfl
  have lowLe : next.lowOf up.place ≤ tracing.lowOf level.place := by
    rw [passes.low]
    exact Nat.min_le_right _ _
  have owned := Level.owned_merge level up below
  have wider {place : Place} (onLane : place ∈ up.owned below) :
      place ∈ (level.merge up).owned below := by
    rw [owned]
    exact Level.below_mem onLane
  constructor
  · intro member inside terminal present
    rcases Level.mem_merge.mp inside with own | ofUp
    · rw [adjusts.context_ne member (labeled.ne_place_of_owned own)] at present
      exact passes.passed terminal (top.contexts_owned own terminal present)
    · rw [adjusts.context_ne member
        (labeled.ne_place_of_member ofUp)] at present
      exact adjusts.subset terminal
        (upSound.contexts member ofUp terminal present)
  · intro member inside
    rcases Level.mem_merge.mp inside with own | ofUp
    · rw [adjusts.low_ne member (labeled.ne_place_of_owned own)]
      exact lowLe.trans (top.lows_owned own)
    · rw [adjusts.low_ne member (labeled.ne_place_of_member ofUp)]
      exact adjusts.low_le.trans (upSound.lows member ofUp)
  · intro member inside
    rw [adjusts.order]
    rcases Level.mem_merge.mp inside with own | ofUp
    · rw [adjusts.low_ne member (labeled.ne_place_of_owned own)]
      exact top.sinks_owned own notRoot
    · rw [adjusts.low_ne member (labeled.ne_place_of_member ofUp)]
      exact upSound.sinks member ofUp
  · rw [adjusts.order]
    exact adjusts.low_le.trans upSound.low_le
  · intro member inside
    rw [owned]
    exact Level.Sound.grounded_merge labeled top upSound passes inside
  · intro member inside
    rcases Level.mem_merge.mp inside with own | ofUp
    · exact Relation.ReflTransGen.head isTarget (top.reaches_owned own)
    · exact upSound.reaches member ofUp
  · intro member inside target memberTarget
    apply adjusts.settled incomplete
    rcases Level.mem_merge.mp inside with own | ofUp
    · rw [owned]
      exact top.all_settled idle own memberTarget
    · exact (upSound.settled member ofUp target memberTarget).mono
        fun _ onLane => wider onLane
  · intro target upTarget
    rcases upSound.partly target upTarget with settled | waits | child
    · exact Or.inl (adjusts.settled incomplete
        (settled.mono fun _ onLane => wider onLane))
    · exact Or.inr (Or.inl waits)
    · cases child
      refine Or.inl (Or.inr ⟨?_, ?_⟩)
      · rw [owned]
        exact level.place_mem _
      · rw [adjusts.order]
        exact lowLe.trans top.low_le
  · exact upSound.pending
  · intro place impossible
    cases impossible

end Merge

include walking idle in
/-- A place that reaches further down stays on the lane. -/
theorem Walking.finish_member
    (notRoot : tracing.lowOf level.place ≠ tracing.orderOf level.place)
    {left : Tracing} (same : SameLabels tracing left)
    (lane : left.lane = tracing.lane)
    (frames : left.frames = framesOf rest) :
    ∃ levels, Walking grammar first base levels
        (leaveTo left left level.place (rest.head?.map Level.place)) ∧
      Advances base tracing
        (leaveTo left left level.place (rest.head?.map Level.place)) := by
  have labeled := walking.labeled.sameLabels same
  have top := walking.sound.1.stable (same.stable (laneOf (level :: rest)))
  have others := walking.sound.2.stable (same.stable (laneOf rest))
  have low := Nat.lt_of_le_of_ne walking.sound.1.low_le notRoot
  have shorter : left.frames.length < tracing.frames.length :=
    frames ▸ walking.shorter idle
  cases rest with
  | nil => exact absurd (walking.sound.1.is_root walking.labeled) notRoot
  | cons up more =>
      obtain ⟨upSound, lower⟩ := others
      obtain ⟨passes, passedLabeled⟩ := labeled.passes
        (Level.below_mem (up.place_mem (laneOf more))) walking.place_holds
        (upSound.child level.place rfl) (left.lowOf level.place)
      have owned : laneOf (level.merge up :: more) =
          laneOf (level :: up :: more) :=
        Level.owned_merge level up (laneOf more)
      rw [← same.low, ← same.order] at low
      have sound :=
        Level.Sound.merge labeled top upSound passes idle low
      refine ⟨level.merge up :: more, ?_, ?_⟩
      · exact Passes.walking passes
          (lane.trans (walking.lane.trans owned.symm)) frames
          (owned ▸ passedLabeled) sound lower
      · exact passes.advances same.visited
          (fun place _ before => (same.isComplete_eq place).trans before)
          shorter

include wellFormed goalless laned walking idle in
/-- Leaving a place keeps the levels sound. -/
theorem Walking.finish :
    ∃ levels, Walking grammar first base levels
        ((tracing.begun rest).finish grammar level.place
          (rest.head?.map Level.place)) ∧
      Advances base tracing
        ((tracing.begun rest).finish grammar level.place
          (rest.head?.map Level.place)) := by
  have same : SameLabels tracing ((tracing.begun rest).leave level.place) := by
    have leaves := @sameLabels_leave (tracing.begun rest) level.place
    exact ⟨leaves.automaton, leaves.order, leaves.low, leaves.visited,
      leaves.traced⟩
  rw [finish_eq, same.low, same.order]
  by_cases root : tracing.lowOf level.place = tracing.orderOf level.place
  · rw [if_pos root]
    exact ⟨rest, walking.finish_root wellFormed goalless laned idle root same
      rfl rfl⟩
  · rw [if_neg root]
    exact walking.finish_member idle root same rfl rfl

end Finish

end LRTables.Tracing
