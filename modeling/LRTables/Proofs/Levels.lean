import LRTables.Proofs.Components

/-!
# Levels of a walk

The work that is left of a walk falls into levels, one for each place whose
lanes are still being followed.  A level owns the part of the lane from its
place up to that of the next level.  Each place there leads back to the place
of its level, has passed its lookaheads on to it, and leads to nothing but
complete places and places further down the lane.
-/

namespace LRTables.Tracing

variable {grammar : Grammar} {first : FirstSets} {base : Automaton}
  {tracing next : Tracing} {lane : List Place} {place : Place}

theorem Gains.contextOf_ne {gained : Nat → Prop}
    (gains : Gains place gained tracing next) {other : Place}
    (different : other ≠ place) :
    next.contextOf other = tracing.contextOf other := by
  rw [contextOf, Automaton.context, gains.others other different]
  rfl

theorem Gains.isComplete_eq {gained : Nat → Prop}
    (gains : Gains place gained tracing next) (other : Place) :
    next.isComplete other = tracing.isComplete other := by
  by_cases same : other = place
  · subst same
    exact gains.complete
  · rw [isComplete, gains.others other same]
    rfl

theorem Gains.isInLane_eq {gained : Nat → Prop}
    (gains : Gains place gained tracing next) (other : Place) :
    next.isInLane other = tracing.isInLane other := by
  by_cases same : other = place
  · subst same
    exact gains.inLane
  · rw [isInLane, gains.others other same]
    rfl

theorem Gains.visitOf_eq {gained : Nat → Prop}
    (gains : Gains place gained tracing next) (other : Place) :
    next.visitOf other = tracing.visitOf other := by
  rw [visitOf, gains.visits]
  rfl

theorem Gains.subset {gained : Nat → Prop}
    (gains : Gains place gained tracing next) (other : Place) :
    ∀ terminal ∈ tracing.contextOf other, terminal ∈ next.contextOf other := by
  intro terminal member
  by_cases same : other = place
  · subst same
    exact (gains.context terminal).mpr (Or.inl member)
  · rwa [gains.contextOf_ne same]

/-- A place of the lane may gain what flows to it. -/
theorem Labeled.gains (labeled : tracing.Labeled grammar first base lane)
    (onLane : place ∈ lane) {gained : Nat → Prop}
    (gains : Gains place gained tracing next)
    (flows : ∀ terminal, gained terminal →
      base.Flows grammar first place terminal) :
    next.Labeled grammar first base lane := by
  constructor
  · exact labeled.retraced.trans gains.retraced
  · intro other holds terminal inContext
    by_cases same : other = place
    · subst same
      rcases (gains.context terminal).mp inContext with old | new
      · exact labeled.sound other holds terminal old
      · exact flows terminal new
    · rw [gains.contextOf_ne same] at inContext
      exact labeled.sound other holds terminal inContext
  · intro other holds complete terminal flow
    rw [gains.isComplete_eq] at complete
    exact gains.subset other terminal
      (labeled.finished other holds complete terminal flow)
  · intro other inLane terminal generates
    exact gains.subset other terminal
      (labeled.own other inLane terminal generates)
  · exact labeled.holds
  · intro other holds
    rw [gains.isInLane_eq]
    exact labeled.marked other holds
  · intro other inLane
    rw [gains.isComplete_eq]
    exact labeled.unfinished other inLane
  · intro other inLane
    rw [gains.visits]
    exact labeled.entered other inLane
  · intro other visited
    rw [gains.visits] at visited
    rw [gains.isComplete_eq]
    exact labeled.lapsed other visited
  · refine labeled.ordered.imp ?_
    intro later earlier less
    rwa [orderOf, orderOf, gains.visitOf_eq, gains.visitOf_eq]
  · intro other inLane
    rw [orderOf, gains.visitOf_eq, gains.traced]
    exact labeled.order_lt other inLane

section Visiting

variable {parent : Option Place} {edges : List LaneEdge}
  (visits : Visits grammar first place parent edges tracing next)

include visits

theorem Visits.visitOf_self :
    ∃ crossings, next.visitOf place =
      { order := tracing.traced
        low := tracing.traced
        crossings
        active := true } := by
  obtain ⟨crossings, equal⟩ := visits.order
  refine ⟨crossings, ?_⟩
  rw [visitOf, equal, Std.HashMap.getD_insert_self]

theorem Visits.visitOf_ne {other : Place} (different : other ≠ place) :
    next.visitOf other = tracing.visitOf other := by
  obtain ⟨crossings, equal⟩ := visits.order
  rw [visitOf, equal, Std.HashMap.getD_insert]
  simp [different.symm, visitOf]

theorem Visits.isSome_iff (other : Place) :
    next.visits[other]?.isSome = true ↔
      other = place ∨ tracing.visits[other]?.isSome = true := by
  obtain ⟨crossings, equal⟩ := visits.order
  rw [equal, Std.HashMap.getElem?_insert]
  by_cases same : place = other
  · simp [same]
  · simp [same, Ne.symm same]

theorem Visits.contextOf_ne {other : Place} (different : other ≠ place) :
    next.contextOf other = tracing.contextOf other := by
  rw [contextOf, Automaton.context, visits.others other different]
  rfl

theorem Visits.isComplete_eq (other : Place) :
    next.isComplete other = tracing.isComplete other := by
  by_cases same : other = place
  · subst same
    exact visits.complete
  · rw [isComplete, visits.others other same]
    rfl

/-- A place that is visited goes on the lane. -/
theorem Labeled.enterLane (labeled : tracing.Labeled grammar first base lane)
    (holds : base.Holds place) (unvisited : tracing.visits[place]? = none)
    (incomplete : tracing.isComplete place = false) :
    next.Labeled grammar first base (place :: lane) := by
  have notOnLane {other : Place} (onLane : other ∈ lane) : other ≠ place := by
    rintro rfl
    have entered := labeled.entered other onLane
    rw [unvisited] at entered
    cases entered
  obtain ⟨crossings, atPlace⟩ := visits.visitOf_self
  have generates {other : Place} {terminal : Nat} :
      tracing.automaton.Generates grammar first other terminal ↔
        base.Generates grammar first other terminal :=
    labeled.retraced.generates_iff
  constructor
  · exact labeled.retraced.trans visits.retraced
  · intro other otherHolds terminal inContext
    by_cases same : other = place
    · subst same
      rcases (visits.context terminal).mp inContext with old | new
      · exact labeled.sound other otherHolds terminal old
      · exact .generated (generates.mp new)
    · rw [visits.contextOf_ne same] at inContext
      exact labeled.sound other otherHolds terminal inContext
  · intro other otherHolds complete terminal flow
    rw [visits.isComplete_eq] at complete
    have different : other ≠ place := by
      rintro rfl
      rw [incomplete] at complete
      cases complete
    rw [visits.contextOf_ne different]
    exact labeled.finished other otherHolds complete terminal flow
  · intro other onLane terminal generated
    rcases List.mem_cons.mp onLane with rfl | old
    · exact (visits.context terminal).mpr (Or.inr (generates.mpr generated))
    · rw [visits.contextOf_ne (notOnLane old)]
      exact labeled.own other old terminal generated
  · intro other onLane
    rcases List.mem_cons.mp onLane with rfl | old
    · exact holds
    · exact labeled.holds other old
  · intro other otherHolds
    rw [List.mem_cons]
    by_cases same : other = place
    · subst same
      simp [visits.inLane]
    · rw [isInLane, visits.others other same, or_iff_right same]
      exact labeled.marked other otherHolds
  · intro other onLane
    rw [visits.isComplete_eq]
    rcases List.mem_cons.mp onLane with rfl | old
    · exact incomplete
    · exact labeled.unfinished other old
  · intro other onLane
    rw [visits.isSome_iff]
    rcases List.mem_cons.mp onLane with rfl | old
    · exact Or.inl rfl
    · exact Or.inr (labeled.entered other old)
  · intro other visited
    rw [visits.isComplete_eq, List.mem_cons]
    rcases (visits.isSome_iff other).mp visited with rfl | before
    · exact ⟨holds, Or.inl (Or.inl rfl)⟩
    · obtain ⟨otherHolds, onLane | complete⟩ := labeled.lapsed other before
      · exact ⟨otherHolds, Or.inl (Or.inr onLane)⟩
      · exact ⟨otherHolds, Or.inr complete⟩
  · rw [List.pairwise_cons]
    constructor
    · intro earlier onLane
      rw [orderOf, orderOf, visits.visitOf_ne (notOnLane onLane), atPlace]
      exact labeled.order_lt earlier onLane
    · refine labeled.ordered.imp_of_mem ?_
      intro later earlier laterOn earlierOn less
      rwa [orderOf, orderOf, visits.visitOf_ne (notOnLane earlierOn),
        visits.visitOf_ne (notOnLane laterOn)]
  · intro other onLane
    rw [visits.traced]
    rcases List.mem_cons.mp onLane with rfl | old
    · rw [orderOf, atPlace]
      exact Nat.lt_succ_self _
    · rw [orderOf, visits.visitOf_ne (notOnLane old)]
      exact Nat.lt_succ_of_lt (labeled.order_lt other old)

end Visiting

/-- A place whose lanes are being followed, with the places above it on the
lane that are done and the steps that are still to be taken. -/
structure Level where
  place : Place
  members : List Place
  pending : List LaneEdge

/-- The lane up to and including what a level owns, latest place first. -/
def Level.owned (level : Level) (below : List Place) : List Place :=
  level.members ++ level.place :: below

def laneOf : List Level → List Place
  | [] => []
  | level :: rest => level.owned (laneOf rest)

def framesOf : List Level → List Frame
  | [] => []
  | level :: rest =>
    level.pending.map .follow ++
      .finish level.place (rest.head?.map Level.place) :: framesOf rest

/-- The step to the target has been taken: its final context has been passed
on, or it lies on the lane and the place is known to reach so far down. -/
def Settled (base : Automaton) (lane : List Place) (tracing : Tracing)
    (place target : Place) : Prop :=
  base.Holds target ∧ tracing.isComplete target = true ∧
      (∀ terminal ∈ tracing.contextOf target,
        terminal ∈ tracing.contextOf place) ∨
    target ∈ lane ∧ tracing.lowOf place ≤ tracing.orderOf target

/-- What is known about the places that a level owns. -/
structure Level.Sound (grammar : Grammar) (first : FirstSets)
    (base : Automaton) (tracing : Tracing) (below : List Place)
    (child : Option Place) (level : Level) : Prop where
  contexts : ∀ member ∈ level.members,
    ∀ terminal ∈ tracing.contextOf member,
      terminal ∈ tracing.contextOf level.place
  lows : ∀ member ∈ level.members,
    tracing.lowOf level.place ≤ tracing.lowOf member
  sinks : ∀ member ∈ level.members,
    tracing.lowOf member < tracing.orderOf member
  low_le : tracing.lowOf level.place ≤ tracing.orderOf level.place
  grounded : ∀ member ∈ level.place :: level.members,
    ∃ ground ∈ level.owned below,
      tracing.orderOf ground = tracing.lowOf member ∧
        base.LaneLeads grammar first member ground
  reaches : ∀ member ∈ level.members,
    base.LaneLeads grammar first level.place member
  settled : ∀ member ∈ level.members,
    ∀ target ∈ base.laneTargets grammar first member,
      Settled base (level.owned below) tracing member target
  partly : ∀ target ∈ base.laneTargets grammar first level.place,
    Settled base (level.owned below) tracing level.place target ∨
      (∃ edge ∈ level.pending, edge.target = target) ∨ child = some target
  pending : ∀ edge ∈ level.pending, edge.source = level.place ∧
    edge.target ∈ base.laneTargets grammar first level.place
  child : ∀ place, child = some place →
    place ∈ base.laneTargets grammar first level.place

/-- All levels are sound; each level is the child of the one below it. -/
def LevelsSound (grammar : Grammar) (first : FirstSets) (base : Automaton)
    (tracing : Tracing) : Option Place → List Level → Prop
  | _, [] => True
  | child, level :: rest =>
    level.Sound grammar first base tracing (laneOf rest) child ∧
      LevelsSound grammar first base tracing (some level.place) rest

/-- The places of a lane, and all complete places, are as they were. -/
structure Stable (base : Automaton) (lane : List Place)
    (old new : Tracing) : Prop where
  complete : ∀ place, base.Holds place → old.isComplete place = true →
    new.isComplete place = true ∧
      new.contextOf place = old.contextOf place
  context : ∀ place ∈ lane, new.contextOf place = old.contextOf place
  order : ∀ place ∈ lane, new.orderOf place = old.orderOf place
  low : ∀ place ∈ lane, new.lowOf place = old.lowOf place

/-- It is enough that nothing but one place has changed that is neither complete
nor on the lane. -/
theorem Stable.of_ne {old new : Tracing}
    (complete : ∀ other, new.isComplete other = old.isComplete other)
    (context : ∀ other, other ≠ place →
      new.contextOf other = old.contextOf other)
    (order : ∀ other, other ≠ place → new.orderOf other = old.orderOf other)
    (low : ∀ other, other ≠ place → new.lowOf other = old.lowOf other)
    (incomplete : old.isComplete place = false) (notOnLane : place ∉ lane) :
    Stable base lane old new := by
  have different {other : Place} (onLane : other ∈ lane) : other ≠ place := by
    rintro rfl
    exact notOnLane onLane
  constructor
  · intro other _ isComplete
    have notPlace : other ≠ place := by
      rintro rfl
      rw [incomplete] at isComplete
      cases isComplete
    exact ⟨(complete other).trans isComplete, context other notPlace⟩
  · exact fun other onLane => context other (different onLane)
  · exact fun other onLane => order other (different onLane)
  · exact fun other onLane => low other (different onLane)

theorem Stable.mono {more : List Place} {old new : Tracing}
    (stable : Stable base more old new)
    (subset : ∀ place ∈ lane, place ∈ more) :
    Stable base lane old new := by
  constructor
  · exact stable.complete
  · exact fun place member => stable.context place (subset place member)
  · exact fun place member => stable.order place (subset place member)
  · exact fun place member => stable.low place (subset place member)

theorem Settled.stable {old new : Tracing} {target : Place}
    (settled : Settled base lane old place target)
    (stable : Stable base lane old new) (onLane : place ∈ lane) :
    Settled base lane new place target := by
  rcases settled with ⟨holds, complete, passed⟩ | ⟨targetOn, low⟩
  · obtain ⟨stillComplete, same⟩ := stable.complete target holds complete
    refine Or.inl ⟨holds, stillComplete, ?_⟩
    rw [same, stable.context place onLane]
    exact passed
  · refine Or.inr ⟨targetOn, ?_⟩
    rw [stable.low place onLane, stable.order target targetOn]
    exact low

theorem Level.place_mem (level : Level) (below : List Place) :
    level.place ∈ level.owned below :=
  List.mem_append_right _ List.mem_cons_self

theorem Level.member_mem {level : Level} {member : Place}
    (inside : member ∈ level.members) (below : List Place) :
    member ∈ level.owned below :=
  List.mem_append_left _ inside

theorem Level.below_mem {level : Level} {below : List Place}
    (inside : place ∈ below) : place ∈ level.owned below :=
  List.mem_append_right _ (List.mem_cons_of_mem _ inside)

theorem Level.Sound.stable {level : Level} {below : List Place}
    {child : Option Place} {old new : Tracing}
    (sound : level.Sound grammar first base old below child)
    (stable : Stable base (level.owned below) old new) :
    level.Sound grammar first base new below child := by
  have atPlace := level.place_mem below
  have context := stable.context _ atPlace
  have low := stable.low _ atPlace
  constructor
  · intro member inside
    rw [stable.context member (Level.member_mem inside below), context]
    exact sound.contexts member inside
  · intro member inside
    rw [stable.low member (Level.member_mem inside below), low]
    exact sound.lows member inside
  · intro member inside
    rw [stable.low member (Level.member_mem inside below),
      stable.order member (Level.member_mem inside below)]
    exact sound.sinks member inside
  · rw [low, stable.order _ atPlace]
    exact sound.low_le
  · intro member inside
    obtain ⟨ground, onLane, order, leads⟩ := sound.grounded member inside
    refine ⟨ground, onLane, ?_, leads⟩
    have memberOn : member ∈ level.owned below := by
      rcases List.mem_cons.mp inside with rfl | isMember
      · exact atPlace
      · exact Level.member_mem isMember below
    rw [stable.order ground onLane, stable.low member memberOn]
    exact order
  · exact sound.reaches
  · intro member inside target isTarget
    exact (sound.settled member inside target isTarget).stable stable
      (Level.member_mem inside below)
  · intro target isTarget
    rcases sound.partly target isTarget with settled | waits
    · exact Or.inl (settled.stable stable atPlace)
    · exact Or.inr waits
  · exact sound.pending
  · exact sound.child

theorem LevelsSound.stable {levels : List Level} {child : Option Place}
    {old new : Tracing}
    (sound : LevelsSound grammar first base old child levels)
    (stable : Stable base (laneOf levels) old new) :
    LevelsSound grammar first base new child levels := by
  induction levels generalizing child with
  | nil => trivial
  | cons level rest ih =>
      obtain ⟨top, others⟩ := sound
      refine ⟨top.stable stable, ih others ?_⟩
      exact stable.mono fun place inside => Level.below_mem inside

end LRTables.Tracing
