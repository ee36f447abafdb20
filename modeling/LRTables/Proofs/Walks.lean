import LRTables.Proofs.Levels

/-!
# Steps of a walk

Following a lane and leaving a place keep the levels of a walk sound.  A place
that reaches nothing below itself on the lane is left together with all that
its level owns, and these places share their final context.
-/

namespace LRTables.Tracing

variable {grammar : Grammar} {first : FirstSets} {base : Automaton}
  {tracing next : Tracing} {level : Level} {below : List Place}

theorem Labeled.order_lt_of_below
    (labeled : tracing.Labeled grammar first base (level.owned below))
    {place : Place} (inside : place ∈ below) :
    tracing.orderOf place < tracing.orderOf level.place := by
  have ordered := (List.pairwise_append.mp labeled.ordered).2.1
  exact (List.pairwise_cons.mp ordered).1 place inside

theorem Labeled.order_lt_of_member
    (labeled : tracing.Labeled grammar first base (level.owned below))
    {member : Place} (inside : member ∈ level.members) :
    tracing.orderOf level.place < tracing.orderOf member :=
  (List.pairwise_append.mp labeled.ordered).2.2 member inside level.place
    List.mem_cons_self

theorem Labeled.mem_of_order_le
    (labeled : tracing.Labeled grammar first base (level.owned below))
    {place : Place} (onLane : place ∈ level.owned below)
    (order : tracing.orderOf level.place ≤ tracing.orderOf place) :
    place ∈ level.place :: level.members := by
  rcases List.mem_append.mp onLane with member | rest
  · exact List.mem_cons_of_mem _ member
  · rcases List.mem_cons.mp rest with same | inside
    · exact same ▸ List.mem_cons_self
    · have less := labeled.order_lt_of_below inside
      omega

section Owned

variable {child : Option Place} {member : Place}
  (sound : level.Sound grammar first base tracing below child)
  (inside : member ∈ level.place :: level.members)

include sound inside

theorem Level.Sound.contexts_owned (terminal : Nat)
    (present : terminal ∈ tracing.contextOf member) :
    terminal ∈ tracing.contextOf level.place := by
  rcases List.mem_cons.mp inside with rfl | isMember
  · exact present
  · exact sound.contexts member isMember terminal present

theorem Level.Sound.lows_owned :
    tracing.lowOf level.place ≤ tracing.lowOf member := by
  rcases List.mem_cons.mp inside with rfl | isMember
  · exact Nat.le_refl _
  · exact sound.lows member isMember

theorem Level.Sound.reaches_owned :
    base.LaneLeads grammar first level.place member := by
  rcases List.mem_cons.mp inside with rfl | isMember
  · exact .refl
  · exact sound.reaches member isMember

theorem Level.Sound.sinks_owned
    (notRoot : tracing.lowOf level.place < tracing.orderOf level.place) :
    tracing.lowOf member < tracing.orderOf member := by
  rcases List.mem_cons.mp inside with rfl | isMember
  · exact notRoot
  · exact sound.sinks member isMember

end Owned

theorem Level.Sound.leads_root
    (labeled : tracing.Labeled grammar first base (level.owned below))
    (sound : level.Sound grammar first base tracing below none)
    (root : tracing.lowOf level.place = tracing.orderOf level.place)
    {member : Place} (inside : member ∈ level.place :: level.members) :
    base.LaneLeads grammar first member level.place := by
  generalize bound : tracing.orderOf member = order
  induction order using Nat.strong_induction_on generalizing member with
  | h order ih =>
      rcases List.mem_cons.mp inside with rfl | isMember
      · exact .refl
      · obtain ⟨ground, onLane, same, leads⟩ := sound.grounded member inside
        have low := sound.lows member isMember
        have sinks := sound.sinks member isMember
        have owned := labeled.mem_of_order_le onLane (by omega)
        exact leads.trans (ih _ (by omega) owned rfl)

theorem Level.Sound.all_settled
    (sound : level.Sound grammar first base tracing below none)
    (idle : level.pending = []) {member target : Place}
    (inside : member ∈ level.place :: level.members)
    (isTarget : target ∈ base.laneTargets grammar first member) :
    Settled base (level.owned below) tracing member target := by
  rcases List.mem_cons.mp inside with rfl | isMember
  · rcases sound.partly target isTarget with settled | waits | child
    · exact settled
    · obtain ⟨edge, pending, -⟩ := waits
      rw [idle] at pending
      cases pending
    · cases child
  · exact sound.settled member isMember target isTarget

/-- What flows to a member of a component has been passed on to its root. -/
theorem Level.Sound.collected
    (labeled : tracing.Labeled grammar first base (level.owned below))
    (sound : level.Sound grammar first base tracing below none)
    (idle : level.pending = [])
    (root : tracing.lowOf level.place = tracing.orderOf level.place)
    {member : Place} (inside : member ∈ level.place :: level.members)
    {terminal : Nat} (flows : base.Flows grammar first member terminal) :
    terminal ∈ tracing.contextOf level.place := by
  induction flows with
  | @generated place terminal generates =>
      apply sound.contexts_owned inside
      apply labeled.own place _ terminal generates
      rcases List.mem_cons.mp inside with rfl | isMember
      · exact level.place_mem below
      · exact Level.member_mem isMember below
  | @along place target terminal isTarget flows ih =>
      have settled := sound.all_settled idle inside isTarget
      have low := sound.lows_owned inside
      rcases settled with ⟨holds, complete, passed⟩ | ⟨onLane, reaches⟩
      · apply sound.contexts_owned inside
        apply passed
        exact labeled.finished target holds complete terminal flows
      · exact ih (labeled.mem_of_order_le onLane (by omega))

theorem Level.Sound.final
    (labeled : tracing.Labeled grammar first base (level.owned below))
    (sound : level.Sound grammar first base tracing below none)
    (idle : level.pending = [])
    (root : tracing.lowOf level.place = tracing.orderOf level.place)
    {member : Place} (inside : member ∈ level.place :: level.members)
    (terminal : Nat) :
    base.Flows grammar first member terminal ↔
      terminal ∈ tracing.contextOf level.place := by
  constructor
  · exact sound.collected labeled idle root inside
  · intro present
    apply Automaton.Flows.of_laneLeads
      (sound.leads_root labeled root inside)
    exact labeled.sound level.place
      (labeled.holds _ (level.place_mem below)) terminal present

theorem Level.Sound.is_root
    (labeled : tracing.Labeled grammar first base (level.owned []))
    {child : Option Place}
    (sound : level.Sound grammar first base tracing [] child) :
    tracing.lowOf level.place = tracing.orderOf level.place := by
  obtain ⟨ground, onLane, same, -⟩ :=
    sound.grounded level.place List.mem_cons_self
  have low := sound.low_le
  rcases List.mem_append.mp onLane with member | rest
  · have above := labeled.order_lt_of_member member
    omega
  · rw [List.mem_singleton] at rest
    subst rest
    exact same.symm

/-- Only one place has changed: it may have gained terminals, and may be known
to reach further down. -/
structure Adjusts (place : Place) (old new : Tracing) : Prop where
  context_ne : ∀ other, other ≠ place →
    new.contextOf other = old.contextOf other
  subset : ∀ terminal ∈ old.contextOf place, terminal ∈ new.contextOf place
  complete : ∀ other, new.isComplete other = old.isComplete other
  order : ∀ other, new.orderOf other = old.orderOf other
  low_ne : ∀ other, other ≠ place → new.lowOf other = old.lowOf other
  low_le : new.lowOf place ≤ old.lowOf place

theorem Adjusts.stable {place : Place} {lane : List Place}
    (adjusts : Adjusts place tracing next)
    (incomplete : tracing.isComplete place = false)
    (notOnLane : place ∉ lane) : Stable base lane tracing next :=
  .of_ne adjusts.complete adjusts.context_ne (fun other _ => adjusts.order other)
    adjusts.low_ne incomplete notOnLane

theorem Adjusts.settled {place member target : Place} {lane : List Place}
    (adjusts : Adjusts place tracing next)
    (incomplete : tracing.isComplete place = false)
    (settled : Settled base lane tracing member target) :
    Settled base lane next member target := by
  have low : next.lowOf member ≤ tracing.lowOf member := by
    by_cases same : member = place
    · exact same ▸ adjusts.low_le
    · exact Nat.le_of_eq (adjusts.low_ne member same)
  rcases settled with ⟨holds, complete, passed⟩ | ⟨onLane, reaches⟩
  · refine Or.inl ⟨holds, adjusts.complete target ▸ complete, ?_⟩
    have notPlace : target ≠ place := by
      rintro rfl
      rw [incomplete] at complete
      cases complete
    rw [adjusts.context_ne target notPlace]
    intro terminal present
    by_cases same : member = place
    · exact same ▸ adjusts.subset terminal (same ▸ passed terminal present)
    · rw [adjusts.context_ne member same]
      exact passed terminal present
  · refine Or.inr ⟨onLane, ?_⟩
    rw [adjusts.order]
    exact low.trans reaches

/-- A level stays sound when its place takes a step. -/
theorem Level.Sound.adjust {child more : Option Place}
    {pending : List LaneEdge}
    (labeled : tracing.Labeled grammar first base (level.owned below))
    (sound : level.Sound grammar first base tracing below child)
    (adjusts : Adjusts level.place tracing next)
    (ground : ∃ ground ∈ level.owned below,
      tracing.orderOf ground = next.lowOf level.place ∧
        base.LaneLeads grammar first level.place ground)
    (partly : ∀ target ∈ base.laneTargets grammar first level.place,
      Settled base (level.owned below) next level.place target ∨
        (∃ edge ∈ pending, edge.target = target) ∨ more = some target)
    (subset : ∀ edge ∈ pending, edge ∈ level.pending)
    (isChild : ∀ place, more = some place → child = some place) :
    { level with pending }.Sound grammar first base next below more := by
  have incomplete := labeled.unfinished _ (level.place_mem below)
  have different {member : Place} (inside : member ∈ level.members) :
      member ≠ level.place := by
    rintro rfl
    exact Nat.lt_irrefl _ (labeled.order_lt_of_member inside)
  constructor
  · intro member inside terminal present
    rw [adjusts.context_ne member (different inside)] at present
    exact adjusts.subset terminal
      (sound.contexts member inside terminal present)
  · intro member inside
    rw [adjusts.low_ne member (different inside)]
    exact adjusts.low_le.trans (sound.lows member inside)
  · intro member inside
    rw [adjusts.low_ne member (different inside), adjusts.order]
    exact sound.sinks member inside
  · rw [adjusts.order]
    exact adjusts.low_le.trans sound.low_le
  · intro member inside
    rcases List.mem_cons.mp inside with rfl | isMember
    · obtain ⟨place, onLane, order, leads⟩ := ground
      exact ⟨place, onLane, (adjusts.order place).trans order, leads⟩
    · obtain ⟨place, onLane, order, leads⟩ :=
        sound.grounded member (List.mem_cons_of_mem _ isMember)
      refine ⟨place, onLane, ?_, leads⟩
      rw [adjusts.order, adjusts.low_ne member (different isMember)]
      exact order
  · exact sound.reaches
  · intro member inside target isTarget
    exact adjusts.settled incomplete
      (sound.settled member inside target isTarget)
  · exact partly
  · intro edge inside
    exact sound.pending edge (subset edge inside)
  · intro place same
    exact sound.child place (isChild place same)

theorem Adjusts.trans {place : Place} {later : Tracing}
    (before : Adjusts place tracing next)
    (after : Adjusts place next later) : Adjusts place tracing later := by
  constructor
  · intro other different
    rw [after.context_ne other different, before.context_ne other different]
  · intro terminal present
    exact after.subset terminal (before.subset terminal present)
  · intro other
    rw [after.complete, before.complete]
  · intro other
    rw [after.order, before.order]
  · intro other different
    rw [after.low_ne other different, before.low_ne other different]
  · exact after.low_le.trans before.low_le

/-- The lookaheads, marks and orders of the tracings are the same. -/
structure SameLabels (old new : Tracing) : Prop where
  automaton : new.automaton = old.automaton
  order : ∀ place, new.orderOf place = old.orderOf place
  low : ∀ place, new.lowOf place = old.lowOf place
  visited : ∀ place : Place,
    new.visits[place]?.isSome = old.visits[place]?.isSome
  traced : new.traced = old.traced

theorem SameLabels.of_eq (automaton : next.automaton = tracing.automaton)
    (visits : next.visits = tracing.visits)
    (traced : next.traced = tracing.traced) : SameLabels tracing next := by
  constructor
  · exact automaton
  · intro place
    rw [orderOf, visitOf, visits]
    rfl
  · intro place
    rw [lowOf, visitOf, visits]
    rfl
  · intro place
    rw [visits]
  · exact traced

theorem SameLabels.contextOf_eq (same : SameLabels tracing next)
    (place : Place) : next.contextOf place = tracing.contextOf place := by
  rw [contextOf, same.automaton, contextOf]

theorem SameLabels.isComplete_eq (same : SameLabels tracing next)
    (place : Place) : next.isComplete place = tracing.isComplete place := by
  rw [isComplete, same.automaton, isComplete]

theorem SameLabels.adjusts (same : SameLabels tracing next) (place : Place) :
    Adjusts place tracing next := by
  constructor
  · exact fun other _ => same.contextOf_eq other
  · intro terminal present
    rwa [same.contextOf_eq]
  · exact same.isComplete_eq
  · exact same.order
  · exact fun other _ => same.low other
  · exact Nat.le_of_eq (same.low place)

theorem SameLabels.stable (same : SameLabels tracing next)
    (lane : List Place) : Stable base lane tracing next := by
  constructor
  · intro place _ complete
    exact ⟨same.isComplete_eq place ▸ complete, same.contextOf_eq place⟩
  · exact fun place _ => same.contextOf_eq place
  · exact fun place _ => same.order place
  · exact fun place _ => same.low place

theorem Preserves.stable {lane : List Place}
    (preserves : Preserves base lane tracing next) :
    Stable base lane tracing next := by
  constructor
  · exact preserves.complete
  · exact preserves.context
  · intro place _
    rw [orderOf, visitOf, preserves.visits]
    rfl
  · intro place _
    rw [lowOf, visitOf, preserves.visits]
    rfl

theorem Labeled.sameLabels {lane : List Place}
    (labeled : tracing.Labeled grammar first base lane)
    (same : SameLabels tracing next) :
    next.Labeled grammar first base lane :=
  labeled.congr same.automaton same.order same.visited same.traced

theorem Gains.adjusts {place : Place} {gained : Nat → Prop}
    (gains : Gains place gained tracing next) :
    Adjusts place tracing next := by
  constructor
  · exact fun other different => gains.contextOf_ne different
  · exact gains.subset place
  · exact gains.isComplete_eq
  · intro other
    rw [orderOf, gains.visitOf_eq]
    rfl
  · intro other _
    rw [lowOf, gains.visitOf_eq]
    rfl
  · rw [lowOf, gains.visitOf_eq]
    exact Nat.le_refl _

theorem visitOf_lower {place other : Place} {order : Nat}
    (visited : tracing.visits[place]?.isSome = true) :
    (tracing.lower place order).visitOf other =
      if other = place then
        { tracing.visitOf place with
          low := min (tracing.visitOf place).low order }
      else tracing.visitOf other := by
  rw [visitOf, lower, Std.HashMap.getD_modify]
  by_cases same : other = place
  · subst same
    obtain ⟨visit, found⟩ := Option.isSome_iff_exists.mp visited
    simp [visitOf, Std.HashMap.getD_eq_getD_getElem?, found]
  · simp [same, Ne.symm same, visitOf]

theorem visited_lower {place other : Place} {order : Nat} :
    (tracing.lower place order).visits[other]?.isSome =
      tracing.visits[other]?.isSome := by
  rw [lower, Std.HashMap.getElem?_modify]
  by_cases same : place = other
  · subst same
    simp
  · simp [same]

theorem adjusts_lower {place : Place} {order : Nat}
    (visited : tracing.visits[place]?.isSome = true) :
    Adjusts place tracing (tracing.lower place order) ∧
      (tracing.lower place order).lowOf place =
        min (tracing.lowOf place) order := by
  have low : (tracing.lower place order).lowOf place =
      min (tracing.lowOf place) order := by
    rw [lowOf, visitOf_lower visited, if_pos rfl]
    rfl
  refine ⟨?_, low⟩
  constructor
  · exact fun _ _ => rfl
  · exact fun _ present => present
  · exact fun _ => rfl
  · intro other
    rw [orderOf, visitOf_lower visited]
    split
    · rename_i same
      rw [same]
      rfl
    · rfl
  · intro other different
    rw [lowOf, visitOf_lower visited, if_neg different]
    rfl
  · rw [low]
    exact Nat.min_le_left _ _

/-- One place has taken in the context of another, and is known to reach as
far down as the given order. -/
structure Passes (place source : Place) (order : Nat)
    (old new : Tracing) : Prop where
  adjusts : Adjusts place old new
  low : new.lowOf place = min (old.lowOf place) order
  passed : ∀ terminal ∈ old.contextOf source,
    terminal ∈ new.contextOf place
  visited : ∀ other : Place,
    new.visits[other]?.isSome = old.visits[other]?.isSome
  lane : new.lane = old.lane
  frames : new.frames = old.frames

/-- A place takes in the context of a target of its lanes. -/
theorem Labeled.passes {place source : Place} {lane : List Place}
    (labeled : tracing.Labeled grammar first base lane)
    (onLane : place ∈ lane) (holds : base.Holds source)
    (isTarget : source ∈ base.laneTargets grammar first place)
    (order : Nat) :
    Passes place source order tracing
        ((tracing.lower place order).inherit place source) ∧
      ((tracing.lower place order).inherit place source).Labeled grammar
        first base lane := by
  have visited := labeled.entered place onLane
  obtain ⟨lowers, low⟩ := @adjusts_lower tracing place order visited
  have placeHolds := labeled.holds place onLane
  have between : (tracing.lower place order).Labeled grammar first base
      lane :=
    labeled.congr rfl lowers.order (fun _ => visited_lower) rfl
  have gains := gains_inherit (between.retraced.holds_iff.mpr placeHolds)
    source
  constructor
  · constructor
    · exact lowers.trans gains.adjusts
    · rw [lowOf, gains.visitOf_eq]
      exact low
    · intro terminal present
      exact (gains.context terminal).mpr (Or.inr present)
    · intro other
      rw [gains.visits]
      exact visited_lower
    · exact gains.lane
    · exact gains.frames
  · apply between.gains onLane gains
    intro terminal present
    exact .along isTarget (labeled.sound source holds terminal present)

end LRTables.Tracing
