import LRTables.Proofs.Retracings

/-!
# Components

A place is labeled well when it has only terminals that flow to it, and all of
them once it is complete.  Taking a component off the lane keeps that, because
the members of a component share what flows to them, and so do the rules that
a state brings in for one nonterminal.
-/

namespace LRTables

namespace Automaton

variable {grammar : Grammar} {first : FirstSets} {base : Automaton}

/-- Some lane leads from one place to the other. -/
def LaneLeads (grammar : Grammar) (first : FirstSets) (automaton : Automaton) :
    Place → Place → Prop :=
  Relation.ReflTransGen fun place target =>
    target ∈ automaton.laneTargets grammar first place

theorem Flows.of_laneLeads {place source : Place} {terminal : Nat}
    (leads : base.LaneLeads grammar first place source)
    (flows : base.Flows grammar first source terminal) :
    base.Flows grammar first place terminal := by
  induction leads using Relation.ReflTransGen.head_induction_on with
  | refl => exact flows
  | head step _ ih => exact .along step ih

/-- Rules that closure brings in are not those of the goal symbol. -/
def Goalless (grammar : Grammar) (base : Automaton) : Prop :=
  ∀ place, base.Holds place → (base.configuration place).item ≠ .goal →
    (base.configuration place).item.dot = 0 →
      grammar.left (base.configuration place).item.rule ≠ goalSymbol

theorem Laned.goalless (wellFormed : grammar.WellFormed)
    (unused : grammar.GoalUnused) (laned : base.Laned grammar) :
    base.Goalless grammar := by
  intro place holds notGoal isStart
  obtain ⟨word, leads⟩ := laned.reached place.state holds.1
  have valid := laned.valid wellFormed unused holds leads
  rw [isStart_of_dot isStart] at valid notGoal
  rcases valid.parent with ⟨-, isGoal⟩ | ⟨parent, -, scans⟩
  · rw [isGoal] at notGoal
    exact absurd rfl notGoal
  · exact Grammar.scanned_ne_goalSymbol unused scans

/-- Two rules that a state brings in for the same nonterminal. -/
structure Siblings (grammar : Grammar) (automaton : Automaton)
    (place sibling : Place) : Prop where
  state : sibling.state = place.state
  place_dot : (automaton.configuration place).item.dot = 0
  sibling_dot : (automaton.configuration sibling).item.dot = 0
  left : grammar.left (automaton.configuration sibling).item.rule =
    grammar.left (automaton.configuration place).item.rule
  place_ne : (automaton.configuration place).item ≠ .goal
  sibling_ne : (automaton.configuration sibling).item ≠ .goal

theorem Siblings.symm {place sibling : Place}
    (siblings : base.Siblings grammar place sibling) :
    base.Siblings grammar sibling place :=
  ⟨siblings.state.symm, siblings.sibling_dot, siblings.place_dot,
    siblings.left.symm, siblings.sibling_ne, siblings.place_ne⟩

section Siblings

variable {place sibling : Place} (sourced : base.Sourced grammar)
  (siblings : base.Siblings grammar place sibling)
  (holds : base.Holds place) (siblingHolds : base.Holds sibling)

include sourced siblings holds siblingHolds

theorem Siblings.mem_originators (index : Nat) :
    index ∈ (base.configuration sibling).originators ↔
      index ∈ (base.configuration place).originators := by
  rw [sourced sibling siblingHolds siblings.sibling_dot,
    sourced place holds siblings.place_dot, siblings.left, siblings.state]

theorem Siblings.mem_laneTargets {target : Place}
    (member : target ∈ base.laneTargets grammar first place) :
    target ∈ base.laneTargets grammar first sibling := by
  rw [Automaton.mem_laneTargets] at member ⊢
  refine ⟨siblings.sibling_ne, Or.inr ⟨siblings.sibling_dot, ?_⟩⟩
  obtain ⟨-, ⟨moved, -⟩ | ⟨-, index, isOrigin, same, vanishes⟩⟩ := member
  · rw [siblings.place_dot] at moved
    exact absurd moved (Nat.lt_irrefl 0)
  · rw [← siblings.state] at same
    exact ⟨index, (siblings.mem_originators sourced holds siblingHolds
      index).mpr isOrigin, same, vanishes⟩

theorem Siblings.flows {terminal : Nat}
    (flows : base.Flows grammar first place terminal) :
    base.Flows grammar first sibling terminal := by
  cases flows with
  | generated generates =>
      obtain ⟨-, index, member, inHeads⟩ :=
        (generates_of_ne_goal siblings.place_ne).mp generates
      apply Flows.generated
      rw [generates_of_ne_goal siblings.sibling_ne, siblings.state]
      exact ⟨siblings.sibling_dot, index, (siblings.mem_originators sourced
        holds siblingHolds index).mpr member, inHeads⟩
  | along member flows =>
      exact .along (siblings.mem_laneTargets sourced holds siblingHolds member)
        flows

end Siblings

end Automaton

namespace Tracing

variable {grammar : Grammar} {first : FirstSets} {base : Automaton}
  {tracing : Tracing} {lane : List Place} {place : Place}

def orderOf (tracing : Tracing) (place : Place) : Nat :=
  (tracing.visitOf place).order

def lowOf (tracing : Tracing) (place : Place) : Nat :=
  (tracing.visitOf place).low

/-- The labels are right when the places of the lane, latest first, are those
without a final context that have been visited. -/
structure Labeled (grammar : Grammar) (first : FirstSets) (base : Automaton)
    (lane : List Place) (tracing : Tracing) : Prop where
  retraced : base.Retraced tracing.automaton
  sound : ∀ place, base.Holds place → ∀ terminal ∈ tracing.contextOf place,
    base.Flows grammar first place terminal
  finished : ∀ place, base.Holds place → tracing.isComplete place = true →
    ∀ terminal, base.Flows grammar first place terminal →
      terminal ∈ tracing.contextOf place
  own : ∀ place ∈ lane, ∀ terminal,
    base.Generates grammar first place terminal →
      terminal ∈ tracing.contextOf place
  holds : ∀ place ∈ lane, base.Holds place
  marked : ∀ place, base.Holds place →
    (tracing.isInLane place = true ↔ place ∈ lane)
  unfinished : ∀ place ∈ lane, tracing.isComplete place = false
  entered : ∀ place ∈ lane, tracing.visits[place]?.isSome = true
  lapsed : ∀ place, tracing.visits[place]?.isSome = true →
    base.Holds place ∧ (place ∈ lane ∨ tracing.isComplete place = true)
  ordered : lane.Pairwise fun later earlier =>
    tracing.orderOf earlier < tracing.orderOf later
  order_lt : ∀ place ∈ lane, tracing.orderOf place < tracing.traced

theorem Labeled.nodup (labeled : tracing.Labeled grammar first base lane) :
    lane.Nodup := by
  refine labeled.ordered.imp ?_
  intro later earlier less same
  subst same
  exact Nat.lt_irrefl _ less

/-- Labels depend on the lookaheads and the order of the visits only. -/
theorem Labeled.congr {other : Tracing}
    (labeled : tracing.Labeled grammar first base lane)
    (automaton : other.automaton = tracing.automaton)
    (order : ∀ place, other.orderOf place = tracing.orderOf place)
    (visited : ∀ place : Place, other.visits[place]?.isSome =
      tracing.visits[place]?.isSome)
    (traced : other.traced = tracing.traced) :
    other.Labeled grammar first base lane := by
  have context (place : Place) :
      other.contextOf place = tracing.contextOf place := by
    rw [contextOf, automaton, contextOf]
  have complete (place : Place) :
      other.isComplete place = tracing.isComplete place := by
    rw [isComplete, automaton, isComplete]
  have inLane (place : Place) :
      other.isInLane place = tracing.isInLane place := by
    rw [isInLane, automaton, isInLane]
  constructor
  · rw [automaton]
    exact labeled.retraced
  · intro place
    rw [context]
    exact labeled.sound place
  · intro place
    rw [context, complete]
    exact labeled.finished place
  · intro place
    rw [context]
    exact labeled.own place
  · exact labeled.holds
  · intro place
    rw [inLane]
    exact labeled.marked place
  · intro place
    rw [complete]
    exact labeled.unfinished place
  · intro place
    rw [visited]
    exact labeled.entered place
  · intro place
    rw [visited, complete]
    exact labeled.lapsed place
  · simp only [order]
    exact labeled.ordered
  · intro place
    rw [order, traced]
    exact labeled.order_lt place

/-- Give a member of a component its final context. -/
def settle (grammar : Grammar) (context : TerminalSet) (tracing : Tracing)
    (member : Place) : Tracing :=
  (tracing.change member fun configuration =>
    { configuration with
      context := configuration.context ∪ context
      marks :=
        { configuration.marks with
          inLane := false
          complete := true } }).shareContext grammar member

/-- A configuration with its final context, off the lane. -/
def settled (context : TerminalSet) (configuration : Configuration) :
    Configuration :=
  { configuration with
    context := configuration.context ∪ context
    marks :=
      { configuration.marks with
        inLane := false
        complete := true } }

theorem settle_eq (context : TerminalSet) (member : Place) :
    tracing.settle grammar context member =
      (tracing.change member (settled context)).shareContext grammar member :=
  rfl

theorem retraced_settled (context : TerminalSet) (member : Place) :
    tracing.automaton.Retraced
      (tracing.change member (settled context)).automaton := by
  apply change_retraced
  intro configuration
  exact ⟨rfl, rfl, rfl⟩

theorem closeComponent_cons (root : Place) (context : TerminalSet)
    (member : Place) (rest : List Place) :
    tracing.closeComponent grammar root context (member :: rest) =
      if member = root then
        { tracing.settle grammar context member with lane := rest }
      else
        (tracing.settle grammar context member).closeComponent grammar root
          context rest :=
  rfl

/-- What settling a member does to a place. -/
inductive Settles (grammar : Grammar) (base : Automaton)
    (context : TerminalSet) (member : Place) (old new : Tracing)
    (place : Place) : Prop where
  | member : place = member →
      new.contextOf place = old.contextOf place ∪ context →
      new.isInLane place = false → new.isComplete place = true →
      Settles grammar base context member old new place
  | sibling : place ≠ member → base.Siblings grammar member place →
      old.isInLane place = false → old.isComplete place = false →
      new.contextOf place = old.contextOf member ∪ context →
      new.isInLane place = false → new.isComplete place = true →
      Settles grammar base context member old new place
  | other : place ≠ member →
      new.automaton.configuration place =
        old.automaton.configuration place →
      Settles grammar base context member old new place

theorem configuration_mapState {automaton : Automaton} {number : Nat}
    {change : Configuration → Configuration} {place : Place}
    (holds : automaton.Holds place) :
    (automaton.modify number fun state =>
        state.mapConfigurations change).configuration place =
      if place.state = number then change (automaton.configuration place)
      else automaton.configuration place := by
  rw [Automaton.configuration]
  by_cases same : place.state = number
  · rw [if_pos same, same, Automaton.state_modify_self (same ▸ holds.1),
      State.configuration_mapConfigurations (same ▸ holds.2),
      Automaton.configuration, same]
  · rw [if_neg same, Automaton.state_modify_ne same, Automaton.configuration]

/-- Sharing gives the context of a place to siblings that are neither on the
lane nor complete. -/
theorem configuration_shareContext (wellFormed : grammar.WellFormed)
    {member : Place}
    (rules : (tracing.automaton.configuration member).item ≠ .goal →
      (tracing.automaton.configuration member).item.dot = 0 →
        grammar.left (tracing.automaton.configuration member).item.rule ≠
          goalSymbol)
    (holds : tracing.automaton.Holds place) :
    (tracing.shareContext grammar member).automaton.configuration place =
        tracing.automaton.configuration place ∨
      tracing.automaton.Siblings grammar member place ∧
        tracing.isInLane place = false ∧
        tracing.isComplete place = false ∧
        (tracing.shareContext grammar member).automaton.configuration place =
          { tracing.automaton.configuration place with
            context := tracing.contextOf member
            marks :=
              { (tracing.automaton.configuration place).marks with
                complete := true } } := by
  unfold shareContext
  dsimp only
  split
  · exact Or.inl rfl
  · rename_i isRule
    simp only [Bool.or_eq_true, decide_eq_true_eq, beq_iff_eq, not_or] at isRule
    obtain ⟨notMoved, notGoal⟩ := isRule
    have isStart : (tracing.automaton.configuration member).item.dot = 0 := by
      omega
    dsimp only
    rw [configuration_mapState holds]
    by_cases same : place.state = member.state
    · rw [if_pos same]
      split
      · rename_i shares
        obtain ⟨placeStart, left, notInLane, notComplete⟩ := shares
        refine Or.inr ⟨⟨same, isStart, placeStart, left, notGoal, ?_⟩, ?_, ?_,
          rfl⟩
        · intro isGoal
          apply rules notGoal isStart
          rw [← left, isGoal]
          exact wellFormed.left_goalRule
        · rw [isInLane]
          simpa using notInLane
        · rw [isComplete]
          simpa using notComplete
      · exact Or.inl rfl
    · rw [if_neg same]
      exact Or.inl rfl

theorem retraced_shareContext (member : Place) :
    tracing.automaton.Retraced
      (tracing.shareContext grammar member).automaton := by
  unfold shareContext
  dsimp only
  split
  · exact .refl _
  · apply Automaton.Retraced.of_modify
    · intro state
      rfl
    · intro state
      exact State.size_mapConfigurations _
    · intro state index inside
      rw [State.configuration_mapConfigurations inside]
      split
      · exact ⟨rfl, rfl, rfl⟩
      · exact .refl _

theorem retraced_settle (context : TerminalSet) (member : Place) :
    tracing.automaton.Retraced
      (tracing.settle grammar context member).automaton :=
  (retraced_settled context member).trans (retraced_shareContext member)

theorem settles_settle (wellFormed : grammar.WellFormed)
    (goalless : base.Goalless grammar)
    (retraced : base.Retraced tracing.automaton) {member : Place}
    (memberHolds : base.Holds member) (holds : base.Holds place)
    (context : TerminalSet) :
    Settles grammar base context member tracing
      (tracing.settle grammar context member) place := by
  have value := (retraced.holds_iff.mpr memberHolds).modifyConfiguration
    (settled context)
  have changed := retraced.trans (retraced_settled context member)
  have shared := configuration_shareContext wellFormed
    (by
      rw [changed.item]
      exact goalless member memberHolds)
    (changed.holds_iff.mpr holds)
  rw [settle_eq]
  have atMember := value member
  rw [if_pos rfl] at atMember
  by_cases same : place = member
  · subst same
    rcases shared with unchanged | ⟨-, -, notComplete, -⟩
    · refine .member rfl ?_ ?_ ?_
      · rw [contextOf, Automaton.context, unchanged, change, atMember]
        rfl
      · rw [isInLane, unchanged, change, atMember]
        rfl
      · rw [isComplete, unchanged, change, atMember]
        rfl
    · rw [isComplete, change, atMember] at notComplete
      cases notComplete
  · have atPlace := value place
    rw [if_neg same] at atPlace
    rcases shared with unchanged | ⟨siblings, notInLane, notComplete, became⟩
    · refine .other same ?_
      rw [unchanged, change, atPlace]
    · refine .sibling same ?_ ?_ ?_ ?_ ?_ ?_
      · obtain ⟨state, memberDot, placeDot, left, memberNe, placeNe⟩ := siblings
        simp only [changed.item] at memberDot placeDot left memberNe placeNe
        exact ⟨state, memberDot, placeDot, left, memberNe, placeNe⟩
      · rw [isInLane, change, atPlace] at notInLane
        exact notInLane
      · rw [isComplete, change, atPlace] at notComplete
        exact notComplete
      · rw [contextOf, Automaton.context, became]
        dsimp only
        rw [contextOf, Automaton.context, change, atMember]
        rfl
      · rw [isInLane, became]
        exact notInLane
      · rw [isComplete, became]

section Completing

variable (wellFormed : grammar.WellFormed) (goalless : base.Goalless grammar)
  {context : TerminalSet}

include wellFormed goalless

theorem complete_of_settle (retraced : base.Retraced tracing.automaton)
    {member : Place} (memberHolds : base.Holds member)
    (holds : base.Holds place)
    (complete :
      (tracing.settle grammar context member).isComplete place = true) :
    tracing.isComplete place = true ∨
      place = member ∨ base.Siblings grammar member place := by
  cases settles_settle wellFormed goalless retraced memberHolds holds
    context with
  | member same => exact Or.inr (Or.inl same)
  | sibling _ siblings => exact Or.inr (Or.inr siblings)
  | other _ unchanged =>
      rw [isComplete, unchanged] at complete
      exact Or.inl complete

/-- Closing a component completes its members and their siblings only. -/
theorem complete_of_closeComponent {members below : List Place}
    {root : Place} (retraced : base.Retraced tracing.automaton)
    (memberHolds : ∀ member ∈ members ++ [root], base.Holds member)
    (different : root ∉ members) (holds : base.Holds place)
    (complete : (tracing.closeComponent grammar root context
      (members ++ root :: below)).isComplete place = true) :
    tracing.isComplete place = true ∨ ∃ member ∈ members ++ [root],
      place = member ∨ base.Siblings grammar member place := by
  induction members generalizing tracing with
  | nil =>
      have own := List.mem_singleton_self root
      have same (closed : Tracing) :
          { closed with lane := below }.isComplete place =
            closed.isComplete place := rfl
      rw [List.nil_append, closeComponent_cons, if_pos rfl, same] at complete
      rcases complete_of_settle wellFormed goalless retraced
          (memberHolds root own) holds complete with old | settled
      · exact Or.inl old
      · exact Or.inr ⟨root, own, settled⟩
  | cons member rest ih =>
      rw [List.mem_cons, not_or] at different
      rw [List.cons_append, closeComponent_cons,
        if_neg (Ne.symm different.1)] at complete
      rcases ih (retraced.trans (retraced_settle context member))
          (fun other inside => memberHolds other
            (List.mem_cons_of_mem _ inside))
          different.2 complete with here | ⟨other, inside, settled⟩
      · rcases complete_of_settle wellFormed goalless retraced
            (memberHolds member List.mem_cons_self) holds here with
          old | settled
        · exact Or.inl old
        · exact Or.inr ⟨member, List.mem_cons_self, settled⟩
      · exact Or.inr ⟨other, List.mem_cons_of_mem _ inside, settled⟩

end Completing

/-- Nothing that is final or still on the lane has changed. -/
structure Preserves (base : Automaton) (lane : List Place)
    (old new : Tracing) : Prop where
  complete : ∀ place, base.Holds place → old.isComplete place = true →
    new.isComplete place = true ∧
      new.contextOf place = old.contextOf place
  context : ∀ place ∈ lane, new.contextOf place = old.contextOf place
  visits : new.visits = old.visits
  frames : new.frames = old.frames
  traced : new.traced = old.traced

theorem Preserves.trans {more : List Place} {old new later : Tracing}
    (before : Preserves base more old new)
    (after : Preserves base lane new later)
    (subset : ∀ place ∈ lane, place ∈ more) :
    Preserves base lane old later := by
  constructor
  · intro place holds complete
    obtain ⟨between, same⟩ := before.complete place holds complete
    obtain ⟨finally_, again⟩ := after.complete place holds between
    exact ⟨finally_, again.trans same⟩
  · intro place member
    exact (after.context place member).trans
      (before.context place (subset place member))
  · exact after.visits.trans before.visits
  · exact after.frames.trans before.frames
  · exact after.traced.trans before.traced

theorem visits_settle (context : TerminalSet) (member : Place) :
    (tracing.settle grammar context member).visits = tracing.visits ∧
      (tracing.settle grammar context member).frames = tracing.frames ∧
      (tracing.settle grammar context member).traced = tracing.traced := by
  unfold settle shareContext
  dsimp only
  split
  · exact ⟨rfl, rfl, rfl⟩
  · exact ⟨rfl, rfl, rfl⟩

section Settling

variable (wellFormed : grammar.WellFormed) (goalless : base.Goalless grammar)
  (sourced : base.Sourced grammar) {context : TerminalSet} {member : Place}
  {rest : List Place}
  (labeled : tracing.Labeled grammar first base (member :: rest))
  (final : ∀ terminal, base.Flows grammar first member terminal ↔
    terminal ∈ context)

include wellFormed goalless labeled in
theorem Labeled.settles (context : TerminalSet) (holds : base.Holds place) :
    Settles grammar base context member tracing
      (tracing.settle grammar context member) place :=
  settles_settle wellFormed goalless labeled.retraced
    (labeled.holds member List.mem_cons_self) holds context

include wellFormed goalless labeled in
theorem Labeled.configuration_settle (onLane : place ∈ rest) :
    (tracing.settle grammar context member).automaton.configuration place =
      tracing.automaton.configuration place := by
  have later := List.mem_cons_of_mem member onLane
  have holds := labeled.holds place later
  cases labeled.settles wellFormed goalless context holds with
  | member same =>
      subst same
      exact absurd onLane (List.nodup_cons.mp labeled.nodup).1
  | sibling _ _ notInLane =>
      rw [(labeled.marked place holds).mpr later] at notInLane
      cases notInLane
  | other _ unchanged => exact unchanged

include wellFormed goalless labeled in
theorem Labeled.preserves_settle :
    Preserves base rest tracing (tracing.settle grammar context member) := by
  obtain ⟨visits, frames, traced⟩ :=
    @visits_settle grammar tracing context member
  constructor
  · intro place holds complete
    cases labeled.settles wellFormed goalless context holds with
    | member same =>
        subst same
        rw [labeled.unfinished place List.mem_cons_self] at complete
        cases complete
    | sibling _ _ _ notComplete =>
        rw [notComplete] at complete
        cases complete
    | other _ unchanged =>
        constructor
        · rw [isComplete, unchanged]
          exact complete
        · rw [contextOf, Automaton.context, unchanged]
          rfl
  · intro place onLane
    rw [contextOf, Automaton.context,
      labeled.configuration_settle wellFormed goalless onLane]
    rfl
  · exact visits
  · exact frames
  · exact traced

include wellFormed goalless labeled in
theorem Labeled.isComplete_settle :
    (tracing.settle grammar context member).isComplete member = true := by
  cases labeled.settles wellFormed goalless context
      (labeled.holds member List.mem_cons_self) with
  | member _ _ _ complete => exact complete
  | sibling different => exact absurd rfl different
  | other different => exact absurd rfl different

include labeled final in
theorem Labeled.mem_settled (terminal : Nat) :
    terminal ∈ tracing.contextOf member ∪ context ↔
      base.Flows grammar first member terminal := by
  rw [TerminalSet.mem_union, ← final]
  constructor
  · rintro (old | flows)
    · exact labeled.sound member (labeled.holds member List.mem_cons_self)
        terminal old
    · exact flows
  · exact Or.inr

include wellFormed goalless sourced labeled final in
theorem Labeled.sound_settle (holds : base.Holds place) {terminal : Nat}
    (inContext : terminal ∈
      (tracing.settle grammar context member).contextOf place) :
    base.Flows grammar first place terminal := by
  have whole := labeled.mem_settled final terminal
  cases labeled.settles wellFormed goalless context holds with
  | member same value =>
      subst same
      rw [value] at inContext
      exact whole.mp inContext
  | sibling _ siblings _ _ value =>
      rw [value] at inContext
      exact siblings.flows sourced (labeled.holds member List.mem_cons_self)
        holds (whole.mp inContext)
  | other _ unchanged =>
      rw [contextOf, Automaton.context, unchanged] at inContext
      exact labeled.sound place holds terminal inContext

include wellFormed goalless sourced labeled final in
theorem Labeled.finished_settle (holds : base.Holds place)
    (complete :
      (tracing.settle grammar context member).isComplete place = true)
    {terminal : Nat} (flows : base.Flows grammar first place terminal) :
    terminal ∈ (tracing.settle grammar context member).contextOf place := by
  have whole := labeled.mem_settled final terminal
  cases labeled.settles wellFormed goalless context holds with
  | member same value =>
      subst same
      rw [value]
      exact whole.mpr flows
  | sibling _ siblings _ _ value =>
      rw [value]
      exact whole.mpr (siblings.symm.flows sourced holds
        (labeled.holds member List.mem_cons_self) flows)
  | other _ unchanged =>
      rw [isComplete, unchanged] at complete
      rw [contextOf, Automaton.context, unchanged]
      exact labeled.finished place holds complete terminal flows

include wellFormed goalless labeled in
theorem Labeled.marked_settle (holds : base.Holds place) :
    (tracing.settle grammar context member).isInLane place = true ↔
      place ∈ rest := by
  have marked := labeled.marked place holds
  rw [List.mem_cons] at marked
  cases labeled.settles wellFormed goalless context holds with
  | member same _ notInLane =>
      subst same
      rw [notInLane]
      exact iff_of_false Bool.false_ne_true (List.nodup_cons.mp labeled.nodup).1
  | sibling different _ before _ _ notInLane =>
      rw [before] at marked
      rw [notInLane]
      exact marked.trans (or_iff_right different)
  | other different unchanged =>
      rw [isInLane, unchanged]
      exact marked.trans (or_iff_right different)

include wellFormed goalless sourced labeled final in
/-- A member that has been settled leaves the lane. -/
theorem Labeled.settle :
    (tracing.settle grammar context member).Labeled grammar first base
      rest := by
  have preserves : Preserves base rest tracing
      (tracing.settle grammar context member) :=
    labeled.preserves_settle wellFormed goalless
  have visitOf (place : Place) :
      (tracing.settle grammar context member).visitOf place =
        tracing.visitOf place := by
    rw [Tracing.visitOf, preserves.visits]
    rfl
  constructor
  · exact labeled.retraced.trans (retraced_settle context member)
  · exact fun place holds terminal =>
      labeled.sound_settle wellFormed goalless sourced final holds
  · exact fun place holds complete terminal =>
      labeled.finished_settle wellFormed goalless sourced final holds complete
  · intro place onLane
    rw [preserves.context place onLane]
    exact labeled.own place (List.mem_cons_of_mem _ onLane)
  · exact fun place onLane =>
      labeled.holds place (List.mem_cons_of_mem _ onLane)
  · exact fun place => labeled.marked_settle wellFormed goalless
  · intro place onLane
    rw [isComplete, labeled.configuration_settle wellFormed goalless onLane]
    exact labeled.unfinished place (List.mem_cons_of_mem _ onLane)
  · intro place onLane
    rw [preserves.visits]
    exact labeled.entered place (List.mem_cons_of_mem _ onLane)
  · intro place visited
    rw [preserves.visits] at visited
    obtain ⟨holds, onLane | complete⟩ := labeled.lapsed place visited
    · refine ⟨holds, ?_⟩
      rcases List.mem_cons.mp onLane with rfl | later
      · exact Or.inr (labeled.isComplete_settle wellFormed goalless)
      · exact Or.inl later
    · exact ⟨holds, Or.inr (preserves.complete place holds complete).1⟩
  · refine (List.pairwise_cons.mp labeled.ordered).2.imp ?_
    intro later earlier less
    rwa [orderOf, orderOf, visitOf, visitOf]
  · intro place onLane
    rw [orderOf, visitOf, preserves.traced]
    exact labeled.order_lt place (List.mem_cons_of_mem _ onLane)

end Settling

/-- A component whose members share what flows to them leaves the lane. -/
theorem Labeled.closeComponent (wellFormed : grammar.WellFormed)
    (goalless : base.Goalless grammar) (sourced : base.Sourced grammar)
    {context : TerminalSet} {members : List Place} {root : Place}
    {below : List Place}
    (labeled : tracing.Labeled grammar first base
      (members ++ root :: below))
    (final : ∀ place ∈ members ++ [root], ∀ terminal,
      base.Flows grammar first place terminal ↔ terminal ∈ context)
    {result : Tracing}
    (equal : result = tracing.closeComponent grammar root context
      (members ++ root :: below)) :
    result.Labeled grammar first base below ∧
      Preserves base below tracing result ∧
      result.lane = below ∧ result.isComplete root = true := by
  induction members generalizing tracing with
  | nil =>
      rw [List.nil_append] at labeled equal
      rw [closeComponent_cons, if_pos rfl] at equal
      have settled := labeled.settle wellFormed goalless sourced
        (final root (List.mem_singleton_self root))
      have complete : (tracing.settle grammar context root).isComplete root =
          true :=
        labeled.isComplete_settle wellFormed goalless
      have preserves : Preserves base below tracing
          (tracing.settle grammar context root) :=
        labeled.preserves_settle wellFormed goalless
      generalize tracing.settle grammar context root = after at *
      subst equal
      refine ⟨settled.congr rfl (fun _ => rfl) (fun _ => rfl) rfl, ?_, rfl,
        complete⟩
      exact ⟨preserves.complete, preserves.context, preserves.visits,
        preserves.frames, preserves.traced⟩
  | cons member members ih =>
      rw [List.cons_append] at labeled equal
      have different : member ≠ root := by
        rintro rfl
        refine (List.nodup_cons.mp labeled.nodup).1 ?_
        exact List.mem_append_right _ List.mem_cons_self
      rw [closeComponent_cons, if_neg different] at equal
      have settled := labeled.settle wellFormed goalless sourced
        (final member List.mem_cons_self)
      have preserves : Preserves base (members ++ root :: below) tracing
          (tracing.settle grammar context member) :=
        labeled.preserves_settle wellFormed goalless
      obtain ⟨closed, later, lane, complete⟩ := ih settled
        (fun place inside => final place (List.mem_cons_of_mem _ inside))
        equal
      refine ⟨closed, preserves.trans later ?_, lane, complete⟩
      intro place onLane
      exact List.mem_append_right _ (List.mem_cons_of_mem _ onLane)

end Tracing

end LRTables
