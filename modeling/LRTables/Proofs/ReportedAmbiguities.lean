import LRTables.Proofs.Admission
import LRTables.Proofs.Circles
import LRTables.Proofs.FiniteSearches
import LRTables.Proofs.TracedAutomata

/-!
# Ambiguities that are reported

A walk reaches the places of a circle through one of them, from which it goes
to all others before it is left, and so it comes back to that place by a step
from its predecessor in the circle.  If no lane has left the state in between,
the count of transitions has not grown, and the ambiguity is reported.
-/

namespace LRTables

namespace Tracing

variable {grammar : Grammar} {first : FirstSets} {base : Automaton}
  {tracing old new next : Tracing} {place : Place} {level : Level}
  {rest levels : List Level} {circle : Set Place}

/-- How far the walk has got with a circle.  Under its first place that has
been visited, a turn from a place that has been visited leads to another one or
is waiting. -/
inductive Rounds (grammar : Grammar) (first : FirstSets) (base : Automaton)
    (circle : Set Place) (tracing : Tracing) : Prop where
  | ahead : (∀ place ∈ circle, tracing.isComplete place = false) →
      (∀ place ∈ circle, tracing.visits[place]?.isSome = false) →
      Rounds grammar first base circle tracing
  | under {place : Place} {parent : Option Place} {above below : List Frame} :
      (∀ place ∈ circle, tracing.isComplete place = false) →
      place ∈ circle →
      tracing.frames = above ++ .finish place parent :: below →
      (∀ source ∈ circle, tracing.visits[source]?.isSome = true →
        ∀ target ∈ circle, base.Turns grammar first source target →
          tracing.visits[target]?.isSome = true ∧ target ≠ place ∨
            ∃ edge, .follow edge ∈ above ∧ edge.source = source ∧
              edge.target = target) →
      Rounds grammar first base circle tracing
  | reported {place : Place} : place ∈ circle →
      base.ambiguityAt grammar place ∈ tracing.ambiguities →
      Rounds grammar first base circle tracing

/-- The path is active, and the walk goes around the circle. -/
structure Minds (grammar : Grammar) (first : FirstSets) (base : Automaton)
    (circle : Set Place) (tracing : Tracing) : Prop where
  active : ∀ place ∈ pathOf tracing.frames, tracing.isActive place = true
  rounds : Rounds grammar first base circle tracing

theorem mem_pathOf_of_finish {frames above below : List Frame}
    {parent : Option Place}
    (split : frames = above ++ .finish place parent :: below) :
    place ∈ pathOf frames := by
  rw [split, pathOf, List.filterMap_append]
  exact List.mem_append_right _ List.mem_cons_self

/-- Labels may change if no place of the circle becomes complete before the
first one has been left. -/
theorem Minds.quiet (minds : Minds grammar first base circle old)
    (quiet : Quiet old new)
    (stays : ∀ place ∈ circle,
      old.visits[place]?.isSome = false ∨ place ∈ pathOf old.frames →
        (∀ other ∈ circle, old.isComplete other = false) →
          ∀ other ∈ circle, new.isComplete other = false) :
    Minds grammar first base circle new := by
  constructor
  · intro place
    rw [quiet.frames, quiet.active]
    exact minds.active place
  · cases minds.rounds with
    | ahead incomplete unvisited =>
        refine .ahead (fun place inside => ?_) fun place inside => ?_
        · exact stays place inside (Or.inl (unvisited place inside)) incomplete
            place inside
        · rw [quiet.visited]
          exact unvisited place inside
    | under incomplete inside split turns =>
        refine .under ?_ inside (quiet.frames.trans split) ?_
        · exact stays _ inside (Or.inr (mem_pathOf_of_finish split)) incomplete
        · simp only [quiet.visited]
          exact turns
    | reported inside found =>
        refine .reported inside ?_
        rw [quiet.ambiguities]
        exact found

theorem split_frames {steps : List LaneEdge} {frames above below : List Frame}
    {parent : Option Place}
    (split : steps.map .follow ++ frames =
      above ++ .finish place parent :: below) :
    ∃ others, above = steps.map .follow ++ others ∧
      frames = others ++ .finish place parent :: below := by
  induction steps generalizing above with
  | nil => exact ⟨above, rfl, split⟩
  | cons step steps ih =>
      cases above with
      | nil => cases split
      | cons frame above =>
          obtain ⟨rfl, later⟩ := List.cons.inj split
          obtain ⟨others, rfl, isRest⟩ := ih later
          exact ⟨others, rfl, isRest⟩

/-- A step may be taken from the frames if it is no turn of the circle, or
leads to another place than the first one, or has been reported. -/
theorem Minds.takeStep (minds : Minds grammar first base circle tracing)
    {edge : LaneEdge}
    (waits : tracing.frames = .follow edge :: next.frames)
    (automaton : next.automaton = tracing.automaton)
    (visits : next.visits = tracing.visits)
    (keeps : ∀ ambiguity ∈ tracing.ambiguities,
      ambiguity ∈ next.ambiguities)
    (reports : (∀ place ∈ circle, tracing.isComplete place = false) →
      edge.source ∈ circle → edge.target ∈ circle →
        base.Turns grammar first edge.source edge.target →
          tracing.visits[edge.target]?.isSome = true ∧
            (edge.target ∈ pathOf tracing.frames →
              base.ambiguityAt grammar edge.target ∈ next.ambiguities)) :
    Minds grammar first base circle next := by
  have complete (place : Place) :
      next.isComplete place = tracing.isComplete place := by
    rw [isComplete, automaton]
    rfl
  constructor
  · intro place onPath
    rw [isActive, visitOf, visits]
    apply minds.active place
    rw [waits]
    exact onPath
  · cases minds.rounds with
    | ahead incomplete unvisited =>
        simp only [← complete, ← visits] at incomplete unvisited
        exact .ahead incomplete unvisited
    | reported inside found => exact .reported inside (keeps _ found)
    | @under place parent above below incomplete inside split turns =>
        obtain ⟨others, rfl, isRest⟩ := @split_frames _ [edge] next.frames
          above below parent (waits.symm.trans split)
        by_cases found : base.ambiguityAt grammar place ∈ next.ambiguities
        · exact .reported inside found
        · refine .under (fun other => complete other ▸ incomplete other) inside
            isRest ?_
          intro source sourceIn visited target targetIn turn
          rw [visits] at visited ⊢
          rcases turns source sourceIn visited target targetIn turn with
            done | ⟨other, member, isSource, isTarget⟩
          · exact Or.inl done
          · rcases List.mem_cons.mp member with isEdge | later
            · cases isEdge
              subst isSource isTarget
              obtain ⟨seen, closes⟩ := reports incomplete sourceIn targetIn turn
              refine Or.inl ⟨seen, ?_⟩
              rintro rfl
              exact found (closes (mem_pathOf_of_finish split))
            · exact Or.inr ⟨other, later, isSource, isTarget⟩

theorem exists_step_of_turns {edges : List LaneEdge} {target : Place}
    (targets : edges.map LaneEdge.target =
      base.laneTargets grammar first place)
    (sources : ∀ edge ∈ edges, edge.source = place)
    (turn : base.Turns grammar first place target) :
    ∃ edge, .follow edge ∈ edges.map Frame.follow ∧ edge.source = place ∧
      edge.target = target := by
  have member := turn.target
  rw [← targets] at member
  obtain ⟨edge, inside, isTarget⟩ := List.mem_map.mp member
  exact ⟨edge, List.mem_map_of_mem inside, sources edge inside, isTarget⟩

theorem ambiguities_visit (parent : Option Place) (crossings : Nat) :
    (Tracing.visit grammar first tracing place parent
      crossings).ambiguities = tracing.ambiguities := by
  have quiet := @quiet_lanesOn grammar first
    (Tracing.enter tracing place parent crossings) place
  rw [visit_eq]
  generalize lanesOn grammar first
    (Tracing.enter tracing place parent crossings) place = lanes at quiet
  exact quiet.ambiguities

section Entering

variable {entered : Tracing} {steps edges : List LaneEdge}
  {frames : List Frame} {parent : Option Place}
  (visits : Visits grammar first place parent edges { tracing with frames }
    entered)
  (waits : tracing.frames = steps.map .follow ++ frames)
  (unvisited : tracing.visits[place]? = none)
  (onPath : ∀ other ∈ pathOf tracing.frames,
    tracing.visits[other]?.isSome = true)

include unvisited in
theorem ne_of_visited {other : Place}
    (known : tracing.visits[other]?.isSome = true) : other ≠ place := by
  rintro rfl
  rw [unvisited] at known
  cases known

include visits waits unvisited onPath in
theorem Minds.active_visit (minds : Minds grammar first base circle tracing) :
    ∀ other ∈ pathOf entered.frames, entered.isActive other = true := by
  intro other member
  rw [visits.frames, pathOf_follow] at member
  rcases List.mem_cons.mp member with rfl | below
  · obtain ⟨_, atPlace⟩ := visits.visitOf_self
    rw [isActive, atPlace]
  · have before : other ∈ pathOf tracing.frames := by
      rw [waits, pathOf_follow]
      exact below
    rw [isActive, visits.visitOf_ne (ne_of_visited unvisited
      (onPath other before))]
    exact minds.active other before

include visits waits unvisited onPath in
/-- If the place that is visited is the first one of the circle, all other ones
are visited under it. -/
theorem Rounds.visit (rounds : Rounds grammar first base circle tracing)
    (arrives : ∀ edge ∈ steps, edge.target = place)
    (targets : edges.map LaneEdge.target =
      base.laneTargets grammar first place)
    (ambiguities : entered.ambiguities = tracing.ambiguities) :
    Rounds grammar first base circle entered := by
  have complete (other : Place) :
      entered.isComplete other = tracing.isComplete other :=
    visits.isComplete_eq other
  have visited (other : Place) : entered.visits[other]?.isSome = true ↔
      other = place ∨ tracing.visits[other]?.isSome = true :=
    visits.isSome_iff other
  cases rounds with
  | reported inside found => exact .reported inside (ambiguities ▸ found)
  | ahead incomplete ahead =>
      simp only [← complete] at incomplete
      by_cases inside : place ∈ circle
      · refine .under incomplete inside visits.frames ?_
        intro source sourceIn known target targetIn turn
        rcases (visited source).mp known with rfl | before
        · exact Or.inr (exists_step_of_turns targets visits.sources turn)
        · rw [ahead source sourceIn] at before
          cases before
      · refine .ahead incomplete ?_
        intro other otherIn
        rw [Bool.eq_false_iff, ne_eq, visited]
        rintro (rfl | before)
        · exact inside otherIn
        · rw [ahead other otherIn] at before
          cases before
  | @under root rootParent above below incomplete inside split turns =>
      simp only [← complete] at incomplete
      obtain ⟨others, rfl, isRest⟩ := split_frames (waits.symm.trans split)
      have rootKnown := onPath root (mem_pathOf_of_finish split)
      have entering : entered.frames =
          (edges.map .follow ++ .finish place parent :: others) ++
            .finish root rootParent :: below := by
        rw [visits.frames, List.append_assoc, List.cons_append, ← isRest]
      refine .under incomplete inside entering ?_
      intro source sourceIn known target targetIn turn
      rcases (visited source).mp known with rfl | before
      · obtain ⟨edge, member, same⟩ :=
          exists_step_of_turns targets visits.sources turn
        exact Or.inr ⟨edge, List.mem_append_left _ member, same⟩
      · rcases turns source sourceIn before target targetIn turn with
          ⟨known, notRoot⟩ | ⟨edge, member, isSource, isTarget⟩
        · exact Or.inl ⟨(visited target).mpr (Or.inr known), notRoot⟩
        · rcases List.mem_append.mp member with isStep | later
          · obtain ⟨step, stepIn, isEdge⟩ := List.mem_map.mp isStep
            cases isEdge
            rw [arrives edge stepIn] at isTarget
            refine Or.inl ⟨(visited target).mpr (Or.inl isTarget.symm), ?_⟩
            exact isTarget ▸ (ne_of_visited unvisited rootKnown).symm
          · refine Or.inr ⟨edge, List.mem_append_right _ ?_, isSource,
              isTarget⟩
            exact List.mem_cons_of_mem _ later

end Entering

/-- A place that is visited waits to lead on. -/
theorem Minds.visit (minds : Minds grammar first base circle tracing)
    (steps : List LaneEdge) {frames : List Frame}
    (waits : tracing.frames = steps.map .follow ++ frames)
    (arrives : ∀ edge ∈ steps, edge.target = place)
    (retraced : base.Retraced tracing.automaton) (holds : base.Holds place)
    (unvisited : tracing.visits[place]? = none)
    (onPath : ∀ other ∈ pathOf tracing.frames,
      tracing.visits[other]?.isSome = true)
    (parent : Option Place) (crossings : Nat) :
    Minds grammar first base circle
      (Tracing.visit grammar first { tracing with frames } place parent
        crossings) := by
  have ambiguities := @ambiguities_visit grammar first
    { tracing with frames } place parent crossings
  obtain ⟨edges, visits⟩ := @visits_visit grammar first
    { tracing with frames } place (retraced.holds_iff.mpr holds) parent
    crossings
  have targets := visits.targets_eq retraced
  constructor
  · exact minds.active_visit visits waits unvisited onPath
  · exact minds.rounds.visit visits waits unvisited onPath arrives targets
      ambiguities

theorem exists_recordAmbiguity (retraced : base.Retraced tracing.automaton)
    (place : Place) :
    ∃ ambiguities, tracing.recordAmbiguity grammar place =
        { tracing with ambiguities } ∧
      base.ambiguityAt grammar place ∈ ambiguities ∧
      ∀ ambiguity ∈ tracing.ambiguities, ambiguity ∈ ambiguities := by
  rw [Automaton.ambiguityAt, Automaton.leftAt, ← retraced.item]
  unfold recordAmbiguity
  dsimp only
  split
  · rename_i known
    exact ⟨_, rfl, Array.contains_iff_mem.mp known, fun _ member => member⟩
  · exact ⟨_, rfl, Array.mem_push_self,
      fun _ member => Array.mem_push_of_mem _ member⟩

theorem Minds.inherit (minds : Minds grammar first base circle tracing)
    (retraced : base.Retraced tracing.automaton) (holds : base.Holds place)
    (source : Place) :
    Minds grammar first base circle (tracing.inherit place source) := by
  have gains := gains_inherit (retraced.holds_iff.mpr holds) source
  refine minds.quiet (quiet_inherit place source) ?_
  intro _ _ _ incomplete other inside
  rw [gains.isComplete_eq]
  exact incomplete other inside

theorem Minds.pass (minds : Minds grammar first base circle tracing)
    (retraced : base.Retraced tracing.automaton) (holds : base.Holds place)
    (source : Place) (order : Nat) :
    Minds grammar first base circle
      ((tracing.lower place order).inherit place source) := by
  have lowered : Minds grammar first base circle (tracing.lower place order) :=
    minds.quiet (quiet_lower place order)
      fun _ _ _ incomplete => incomplete
  exact lowered.inherit retraced holds source

theorem Minds.leaveTo {left : Tracing} {parent : Option Place}
    (minds : Minds grammar first base circle tracing)
    (retraced : base.Retraced tracing.automaton)
    (holds : ∀ above ∈ parent, base.Holds above) :
    Minds grammar first base circle (leaveTo left tracing place parent) := by
  cases parent with
  | none => exact minds
  | some above => exact minds.pass retraced (holds above rfl) _ _

/-- A step may end at a place that has been visited: if it is a turn of the
circle back to a place of the path, that place is active, and its crossings are
counted as they are at the source. -/
theorem Minds.meet (minds : Minds grammar first base circle tracing)
    {edge : LaneEdge} {target : Visit}
    (waits : tracing.frames = .follow edge :: framesOf levels)
    (retraced : base.Retraced tracing.automaton)
    (crossing : edge.crossing = decide (0 < base.dotAt edge.source))
    (found : tracing.visits[edge.target]? = some target)
    (counts : edge.source ∈ circle → edge.target ∈ circle →
      base.Turns grammar first edge.source edge.target →
        edge.target ∈ pathOf tracing.frames →
          tracing.crossingsOf edge.target = tracing.crossingsOf edge.source) :
    ∃ ambiguities,
      (if !edge.crossing && target.active &&
          target.crossings ==
            ((tracing.begun levels).visitOf edge.source).crossings then
        (tracing.begun levels).recordAmbiguity grammar edge.target
      else tracing.begun levels) =
        { tracing.begun levels with ambiguities } ∧
      Minds grammar first base circle
        { tracing.begun levels with ambiguities } := by
  have visited : tracing.visits[edge.target]?.isSome = true := by
    rw [found]
    rfl
  split
  · obtain ⟨ambiguities, equal, recorded, keeps⟩ :=
      @exists_recordAmbiguity grammar base (tracing.begun levels) retraced
        edge.target
    refine ⟨ambiguities, equal, ?_⟩
    exact minds.takeStep waits rfl rfl keeps
      fun _ _ _ _ => ⟨visited, fun _ => recorded⟩
  · rename_i no
    refine ⟨_, rfl, minds.takeStep waits rfl rfl (fun _ member => member) ?_⟩
    intro _ sourceIn targetIn turn
    refine ⟨visited, fun onPath => absurd ?_ no⟩
    have isTarget : tracing.visitOf edge.target = target := by
      rw [visitOf, Std.HashMap.getD_eq_getD_getElem?, found]
      rfl
    have active := minds.active edge.target onPath
    have same := counts sourceIn targetIn turn onPath
    rw [isActive, isTarget] at active
    rw [crossingsOf, isTarget] at same
    rw [crossing, turn.isStart, active, same]
    exact beq_self_eq_true _

theorem mem_laneOf_of_mem_pathOf (member : place ∈ pathOf (framesOf levels)) :
    place ∈ laneOf levels := by
  induction levels with
  | nil => cases member
  | cons level rest ih =>
      rw [framesOf, pathOf_follow] at member
      rcases List.mem_cons.mp member with rfl | below
      · exact level.place_mem _
      · exact Level.below_mem (ih below)

section Steps

variable (laned : base.Laned grammar)
  (isCircle : base.Circle grammar first circle)
  (walking : Walking grammar first base (level :: rest) tracing)

include isCircle walking

include laned in
theorem Minds.follow {edge : LaneEdge} {pending : List LaneEdge}
    (isFirst : level.pending = edge :: pending)
    (routed : Routed grammar first base tracing)
    (minds : Minds grammar first base circle tracing) :
    Minds grammar first base circle
      ((tracing.begun (level.taken pending :: rest)).follow grammar first
        edge) := by
  have waits := walking.frames_follow isFirst
  obtain ⟨-, place, head, leads⟩ := routed.takeStep waits
  have inside : edge ∈ level.pending := isFirst ▸ List.mem_cons_self
  obtain ⟨source, -⟩ := walking.sound.1.pending edge inside
  obtain rfl : place = level.place := leads.source.symm.trans source
  have retraced : base.Retraced
      (tracing.begun (level.taken pending :: rest)).automaton :=
    walking.labeled.retraced
  have holds : base.Holds edge.source := source ▸ walking.place_holds
  unfold Tracing.follow
  split
  · rename_i complete
    change tracing.isComplete edge.target = true at complete
    refine Minds.inherit ?_ retraced holds _
    refine minds.takeStep waits rfl rfl (fun _ member => member) ?_
    intro incomplete _ targetIn
    rw [incomplete _ targetIn] at complete
    cases complete
  · dsimp only
    split
    · rename_i unvisited
      exact minds.visit [edge] waits
        (fun other isEdge => by rw [List.mem_singleton.mp isEdge])
        retraced (walking.target_holds laned isFirst) unvisited routed.visited
        _ _
    · rename_i target found
      have path : ∃ path, pathOf tracing.frames = edge.source :: path := by
        rw [waits, source]
        exact ⟨_, List.eq_cons_of_mem_head? head⟩
      obtain ⟨path, isPath⟩ := path
      obtain ⟨ambiguities, equal, noted⟩ := minds.meet waits retraced
        (source ▸ leads.crossing) found (by
          intro sourceIn targetIn turn onPath
          have chain := routed.linked.chain
          rw [isPath] at chain onPath
          obtain ⟨-, same | strays⟩ :=
            Automaton.strays_of_isChain chain onPath
          · exact same
          · rcases isCircle.stays _ sourceIn _ targetIn turn with
              itself | noStray
            · rw [← itself]
            · exact absurd strays noStray)
      rw [equal]
      exact noted.pass retraced holds _ _

/-- Before the first place of the circle is left, a step waits above it, since
otherwise all others would have been visited, and the step from its predecessor
would have reported it. -/
theorem Minds.leave (minds : Minds grammar first base circle tracing)
    (idle : level.pending = []) :
    Minds grammar first base circle
      ((tracing.begun rest).leave level.place) := by
  have frames := walking.frames_finish idle
  have visited (place : Place) :
      ((tracing.begun rest).leave level.place).visits[place]?.isSome =
        tracing.visits[place]?.isSome :=
    (sameLabels_leave level.place).visited place
  constructor
  · intro other onPath
    change other ∈ pathOf (framesOf rest) at onPath
    have before := minds.active other (by
      rw [frames]
      exact List.mem_cons_of_mem _ onPath)
    have different : level.place ≠ other := by
      rintro rfl
      have below := mem_laneOf_of_mem_pathOf onPath
      exact Nat.lt_irrefl _ (walking.labeled.order_lt_of_below below)
    rw [isActive, visitOf, Tracing.leave, Std.HashMap.getD_modify,
      if_neg (by simpa using different)]
    exact before
  · cases minds.rounds with
    | reported inside found => exact .reported inside found
    | ahead incomplete unvisited =>
        simp only [← visited] at unvisited
        exact .ahead incomplete unvisited
    | @under root _ above below incomplete inside split turns =>
        cases above with
        | nil =>
            obtain ⟨isFinish, -⟩ := List.cons.inj (frames.symm.trans split)
            cases isFinish
            refine absurd (walking.labeled.entered _ (level.place_mem _))
              (isCircle.not_visited inside fun source sourceIn known target
                  targetIn turn =>
                (turns source sourceIn known target targetIn turn).resolve_right
                  ?_)
            rintro ⟨_, waits, _⟩
            exact List.not_mem_nil waits
        | cons frame above =>
            obtain ⟨rfl, isRest⟩ := List.cons.inj (frames.symm.trans split)
            refine .under incomplete inside isRest ?_
            simp only [visited]
            intro source sourceIn known target targetIn turn
            refine (turns source sourceIn known target targetIn turn).imp_right
              ?_
            rintro ⟨edge, waits, same⟩
            rcases List.mem_cons.mp waits with isFinish | later
            · cases isFinish
            · exact ⟨edge, later, same⟩

include laned in
/-- When a component is closed that has a place of the circle, or a sibling of
one, then all places of the circle are in it. -/
theorem Walking.owned_of_circle (idle : level.pending = [])
    (root : tracing.lowOf level.place = tracing.orderOf level.place)
    (incomplete : ∀ place ∈ circle, tracing.isComplete place = false)
    {member : Place} (owned : member ∈ level.place :: level.members)
    (inside : place ∈ circle)
    (settled : place = member ∨ base.Siblings grammar member place)
    {other : Place} (otherIn : other ∈ circle) :
    other ∈ level.place :: level.members := by
  have turns := isCircle.turns place inside other otherIn
  have step {member source target : Place}
      (owned : member ∈ level.place :: level.members)
      (settled : source = member ∨ base.Siblings grammar member source)
      (targetIn : target ∈ circle)
      (turn : base.Turns grammar first source target) :
      target ∈ level.place :: level.members := by
    have onLane : member ∈ laneOf (level :: rest) := by
      rcases List.mem_cons.mp owned with rfl | isMember
      · exact level.place_mem _
      · exact Level.member_mem isMember _
    have isTarget : target ∈ base.laneTargets grammar first member := by
      rcases settled with rfl | siblings
      · exact turn.target
      · exact siblings.symm.mem_laneTargets laned.sourced turn.holds
          (walking.labeled.holds _ onLane) turn.target
    have low : tracing.lowOf level.place ≤ tracing.lowOf member := by
      rcases List.mem_cons.mp owned with rfl | isMember
      · exact Nat.le_refl _
      · exact walking.sound.1.lows member isMember
    rcases walking.sound.1.all_settled idle owned isTarget with
      ⟨-, complete, -⟩ | ⟨targetOn, reaches⟩
    · rw [incomplete target targetIn] at complete
      cases complete
    · exact walking.labeled.mem_of_order_le targetOn (by omega)
  induction turns using Relation.TransGen.head_induction_on
    generalizing member with
  | single turn => exact step owned settled turn.1 turn.2
  | head turn _ ih =>
      exact ih (step owned settled turn.1 turn.2) turn.1 (Or.inl rfl)

include laned in
/-- A component that is closed does not have the circle while its first place
is on the path or none has been visited. -/
theorem Minds.close (wellFormed : grammar.WellFormed)
    (goalless : base.Goalless grammar) (idle : level.pending = [])
    (root : tracing.lowOf level.place = tracing.orderOf level.place)
    (minds : Minds grammar first base circle tracing)
    (context : TerminalSet) :
    Minds grammar first base circle
      (((tracing.begun rest).leave level.place).closeComponent grammar
        level.place context tracing.lane) := by
  have retraced : base.Retraced
      ((tracing.begun rest).leave level.place).automaton :=
    walking.labeled.retraced
  have memberHolds : ∀ member ∈ level.members ++ [level.place],
      base.Holds member := by
    intro member inside
    rcases List.mem_append.mp inside with isMember | isPlace
    · exact walking.labeled.holds member (Level.member_mem isMember _)
    · exact List.mem_singleton.mp isPlace ▸ walking.place_holds
  have different : level.place ∉ level.members := fun inside =>
    Nat.lt_irrefl _ (walking.labeled.order_lt_of_member inside)
  have left := minds.leave isCircle walking idle
  refine left.quiet (quiet_closeComponent _ _ _) ?_
  intro place inside outside incomplete other otherIn
  rw [Bool.eq_false_iff]
  intro complete
  rw [walking.lane] at complete
  rcases complete_of_closeComponent wellFormed goalless retraced memberHolds
      different (isCircle.holds otherIn) complete with
    before | ⟨member, isMember, settled⟩
  · rw [incomplete other otherIn] at before
    cases before
  · have owned : member ∈ level.place :: level.members :=
      List.mem_cons.mpr ((List.mem_append.mp isMember).symm.imp_left
        List.mem_singleton.mp)
    have placeOwned := walking.owned_of_circle laned isCircle idle root
      incomplete owned otherIn settled inside
    rcases outside with unvisited | onPath
    · have visited := walking.labeled.entered place (by
        rcases List.mem_cons.mp placeOwned with rfl | isMember
        · exact level.place_mem _
        · exact Level.member_mem isMember _)
      rw [(sameLabels_leave level.place).visited] at unvisited
      exact absurd (visited.symm.trans unvisited) (by decide)
    · have below := walking.labeled.order_lt_of_below
        (mem_laneOf_of_mem_pathOf onPath)
      rcases List.mem_cons.mp placeOwned with rfl | isMember
      · exact Nat.lt_irrefl _ below
      · have above := walking.labeled.order_lt_of_member isMember
        omega

include laned in
theorem Minds.finish (wellFormed : grammar.WellFormed)
    (goalless : base.Goalless grammar) (idle : level.pending = [])
    (minds : Minds grammar first base circle tracing) :
    Minds grammar first base circle
      ((tracing.begun rest).finish grammar level.place
        (rest.head?.map Level.place)) := by
  have retraced : base.Retraced
      ((tracing.begun rest).leave level.place).automaton :=
    walking.labeled.retraced
  have same := @sameLabels_leave (tracing.begun rest) level.place
  rw [finish_eq]
  apply Minds.leaveTo
  · split
    · rename_i root
      rw [same.low, same.order] at root
      exact minds.close laned isCircle walking wellFormed goalless idle root _
    · exact minds.leave isCircle walking idle
  · split
    · exact retraced.trans (quiet_closeComponent _ _ _).retraced
    · exact retraced
  · intro parent isParent
    cases rest with
    | nil => cases isParent
    | cons up more =>
        cases isParent
        exact walking.labeled.holds _ (Level.below_mem (up.place_mem _))

end Steps

theorem minds_begin (fresh : Fresh base)
    (isCircle : base.Circle grammar first circle) :
    Minds grammar first base circle (begin base) := by
  constructor
  · intro place none
    cases none
  · refine .ahead (fun place inside => ?_) fun place _ => ?_
    · rw [isComplete, show (begin base).automaton = base from rfl,
        fresh.unmarked place (isCircle.holds inside)]
      rfl
    · simp [begin]

section Laned

variable (wellFormed : grammar.WellFormed) (unused : grammar.GoalUnused)
  (exact : first.Exact grammar) (laned : base.Laned grammar)

include wellFormed unused exact laned

/-- Throughout a walk a circle is minded. -/
theorem upholds_minds (isCircle : base.Circle grammar first circle) :
    Upholds grammar first base fun tracing =>
      Routed grammar first base tracing ∧
        Minds grammar first base circle tracing := by
  have routes := upholds_routed wellFormed unused exact laned
  have goalless := laned.goalless wellFormed unused
  constructor
  · rintro tracing root idle holds unvisited ⟨routed, minds⟩
    refine ⟨routes.visit idle holds unvisited routed, ?_⟩
    exact minds.visit [] rfl (fun _ none => nomatch none)
      routed.retraced holds unvisited routed.visited none 0
  · rintro tracing level rest edge pending walking isFirst ⟨routed, minds⟩
    exact ⟨routes.follow walking isFirst routed,
      minds.follow laned isCircle walking isFirst routed⟩
  · rintro tracing level rest walking idle ⟨routed, minds⟩
    exact ⟨routes.finish walking idle routed,
      minds.finish laned isCircle walking wellFormed goalless idle⟩

end Laned

end Tracing

theorem Ambiguity.Genuine.retraced {grammar : Grammar} {old new : Automaton}
    {ambiguity : Ambiguity} (genuine : ambiguity.Genuine grammar old)
    (retraced : old.Retraced new) : ambiguity.Genuine grammar new := by
  obtain ⟨rule, item, cycle⟩ := genuine
  obtain ⟨index, inside, isItem⟩ := State.mem_items.mp item
  have same := retraced.sameItems ambiguity.state
  refine ⟨rule, State.mem_items.mpr ⟨index, ?_, ?_⟩, cycle⟩
  · exact same.size ▸ inside
  · exact (same.item index inside).trans isItem

namespace Automaton

variable {grammar : Grammar} {first : FirstSets} {base : Automaton}

section Lookaheadless

variable (wellFormed : grammar.WellFormed) (unused : grammar.GoalUnused)
  (exact : first.Exact grammar)
  (lookaheadless : base.Lookaheadless grammar first)

include wellFormed unused exact lookaheadless

theorem Lookaheadless.minds {circle : Set Place}
    (isCircle : base.Circle grammar first circle) :
    Tracing.Routed grammar first base (base.traceLanes grammar first) ∧
      Tracing.Minds grammar first base circle
        (base.traceLanes grammar first) := by
  have laned := lookaheadless.laned wellFormed unused
  have fresh := lookaheadless.fresh
  exact (Tracing.upholds_minds wellFormed unused exact laned isCircle).traceAll
    wellFormed (laned.goalless wellFormed unused) laned
    (Tracing.idle_begin fresh) (fun root member =>
      holds_of_mem_traceRoots member)
    ⟨Tracing.routed_begin base, Tracing.minds_begin fresh isCircle⟩

theorem Lookaheadless.routed :
    Tracing.Routed grammar first base (base.traceLanes grammar first) := by
  have laned := lookaheadless.laned wellFormed unused
  exact (Tracing.upholds_routed wellFormed unused exact laned).traceAll
    wellFormed (laned.goalless wellFormed unused) laned
    (Tracing.idle_begin lookaheadless.fresh)
    (fun root member => holds_of_mem_traceRoots member)
    (Tracing.routed_begin base)

/-- Tracing reports a rule of every circle. -/
theorem Lookaheadless.reports_circle {circle : Set Place} {place : Place}
    (isCircle : base.Circle grammar first circle) (inside : place ∈ circle) :
    ∃ other ∈ circle, base.ambiguityAt grammar other ∈
      (base.traceLanes grammar first).ambiguities := by
  have laned := lookaheadless.laned wellFormed unused
  have traced : Traced grammar first base (base.traceLanes grammar first) :=
    laned.traced wellFormed unused lookaheadless.fresh
  have holds := isCircle.holds inside
  have reachable : place.state ∈ base.reachableStates :=
    laned.framed.mem_reachableStates.mpr (laned.reached place.state holds.1)
  cases (lookaheadless.minds wellFormed unused exact isCircle).2.rounds with
  | ahead incomplete _ =>
      have complete := traced.complete place holds reachable
      rw [incomplete place inside] at complete
      cases complete
  | under _ _ split _ =>
      rw [traced.frames] at split
      exact absurd split.symm (List.append_ne_nil_of_right_ne_nil _
        (List.cons_ne_nil _ _))
  | reported otherIn found => exact ⟨_, otherIn, found⟩

/-- Tracing reports every rule that begins with its own nonterminal and lets
the rest vanish, in each state where the rule is begun. -/
theorem Lookaheadless.reports {number rule : Nat} {rest : List Symbol}
    (inside : number < base.size)
    (item : { rule, dot := 0 } ∈ (base.state number).items)
    (right : grammar.right rule = .nonterminal (grammar.left rule) :: rest)
    (vanishes : grammar.Vanishes rest) :
    { state := number, nonterminal := grammar.left rule, rule } ∈
      (base.traceLanes grammar first).ambiguities := by
  have laned := lookaheadless.laned wellFormed unused
  obtain ⟨index, within, isItem⟩ := State.mem_items.mp item
  have turn : base.Turns grammar first { state := number, index }
      { state := number, index } :=
    laned.turns_self wellFormed unused exact ⟨inside, within⟩ isItem right
      vanishes
  obtain ⟨other, isPlace, found⟩ := lookaheadless.reports_circle wellFormed
    unused exact (circle_singleton turn) (Set.mem_singleton _)
  have same : base.ambiguityAt grammar { state := number, index } =
      { state := number, nonterminal := grammar.left rule, rule } := by
    rw [ambiguityAt, leftAt, Automaton.configuration, isItem]
  rw [← same, ← Set.mem_singleton_iff.mp isPlace]
  exact found

end Lookaheadless

/-- If rules that a state of the automaton without lookaheads begins lead round
from one to the next, while all that follows vanishes, and no lane returns to
them after it has left the state, then tracing reports one of them. -/
theorem cycles_reported {grammar : Grammar} (accepted : grammar.Accepted)
    (unused : grammar.GoalUnused) :
    ∃ base tracing, collect? grammar (.ofGrammar grammar) .lr0 = some base ∧
      base.traceLanes grammar (.ofGrammar grammar) = tracing ∧
      ∀ place, Relation.TransGen (base.Turns grammar (.ofGrammar grammar))
          place place →
        ¬ base.Strays grammar (.ofGrammar grammar) place place →
          ∃ other ∈ base.circleOf grammar (.ofGrammar grammar) place,
            base.ambiguityAt grammar other ∈ tracing.ambiguities := by
  have wellFormed := accepted.wellFormed
  have exact := FirstSets.exact_ofGrammar wellFormed
  obtain ⟨base, found⟩ := exists_collect? wellFormed exact .lr0
  have lookaheadless :=
    lookaheadless_of_collect? wellFormed unused exact found
  refine ⟨base, _, found, rfl, ?_⟩
  intro place turns noStray
  exact lookaheadless.reports_circle wellFormed unused exact
    (circle_circleOf noStray) ⟨turns, turns⟩

/-- In a state to which no transitions lead back, tracing reports a rule of
every cycle. -/
theorem cycles_reported_of_acyclic {grammar : Grammar}
    (accepted : grammar.Accepted) (unused : grammar.GoalUnused) :
    ∃ base tracing, collect? grammar (.ofGrammar grammar) .lr0 = some base ∧
      base.traceLanes grammar (.ofGrammar grammar) = tracing ∧
      ∀ place, Relation.TransGen (base.Turns grammar (.ofGrammar grammar))
          place place →
        ¬ Relation.TransGen base.Precedes place.state place.state →
          ∃ other ∈ base.circleOf grammar (.ofGrammar grammar) place,
            base.ambiguityAt grammar other ∈ tracing.ambiguities := by
  have wellFormed := accepted.wellFormed
  have exact := FirstSets.exact_ofGrammar wellFormed
  obtain ⟨base, tracing, found, traced, reports⟩ :=
    cycles_reported accepted unused
  have laned := (lookaheadless_of_collect? wellFormed unused exact
    found).laned wellFormed unused
  refine ⟨base, tracing, found, traced, ?_⟩
  intro place turns acyclic
  obtain ⟨_, turn, -⟩ := Relation.TransGen.head'_iff.mp turns
  exact reports place turns fun strays =>
    acyclic (laned.precedes_of_strays turn.holds strays)

/-- Tracing the lanes of the automaton without lookaheads reports genuine
ambiguities only, so that each nonterminal reported derives itself, and none of
them twice.  A rule that begins with its own nonterminal and lets the rest
vanish is reported in each state where it is begun. -/
theorem traced_ambiguities {grammar : Grammar} (accepted : grammar.Accepted)
    (unused : grammar.GoalUnused) :
    ∃ base tracing, collect? grammar (.ofGrammar grammar) .lr0 = some base ∧
      base.traceLanes grammar (.ofGrammar grammar) = tracing ∧
      (∀ ambiguity ∈ tracing.ambiguities,
        ambiguity.Genuine grammar tracing.automaton ∧
          Relation.TransGen grammar.Produces
            [.nonterminal ambiguity.nonterminal]
            [.nonterminal ambiguity.nonterminal]) ∧
      tracing.ambiguities.toList.Nodup ∧
      ∀ number < base.size, ∀ rule rest,
        { rule, dot := 0 } ∈ (base.state number).items →
          grammar.right rule = .nonterminal (grammar.left rule) :: rest →
            grammar.Vanishes rest →
              { state := number, nonterminal := grammar.left rule, rule } ∈
                tracing.ambiguities := by
  have wellFormed := accepted.wellFormed
  have exact := FirstSets.exact_ofGrammar wellFormed
  obtain ⟨base, found⟩ := exists_collect? wellFormed exact .lr0
  have lookaheadless :=
    lookaheadless_of_collect? wellFormed unused exact found
  have routed := lookaheadless.routed wellFormed unused exact
  refine ⟨base, _, found, rfl, ?_, routed.distinct, ?_⟩
  · intro ambiguity member
    have genuine := routed.genuine ambiguity member
    exact ⟨genuine.retraced routed.retraced, genuine.derives_self⟩
  · intro number inside rule rest item right vanishes
    exact lookaheadless.reports wellFormed unused exact inside item right
      vanishes

/-- In the grammar that loops, the start symbol derives itself, and this is
reported for the start state. -/
theorem traced_ambiguities_looped :
    ∃ base tracing, collect? .looped (.ofGrammar .looped) .lr0 = some base ∧
      base.traceLanes .looped (.ofGrammar .looped) = tracing ∧
      { state := start, nonterminal := 1, rule := 1 } ∈ tracing.ambiguities ∧
      (∀ ambiguity ∈ tracing.ambiguities,
        ambiguity.Genuine .looped tracing.automaton ∧
          Relation.TransGen Grammar.looped.Produces
            [.nonterminal ambiguity.nonterminal]
            [.nonterminal ambiguity.nonterminal]) ∧
      tracing.ambiguities.toList.Nodup := by
  obtain ⟨base, tracing, found, traced, genuine, distinct, reports⟩ :=
    traced_ambiguities accepted_looped goalUnused_looped
  refine ⟨base, tracing, found, traced, ?_, genuine, distinct⟩
  have wellFormed := accepted_looped.wellFormed
  have framed := (lookaheadless_of_collect? wellFormed goalUnused_looped
    (FirstSets.exact_ofGrammar wellFormed) found).collected.framed
  refine reports start framed.positive 1 [] ?_ rfl Grammar.Vanishes.nil
  rw [framed.mem_items wellFormed goalUnused_looped .start]
  exact .closure .goal rfl (by decide)

end Automaton

end LRTables
