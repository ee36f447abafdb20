import LRTables.Proofs.Contention
import LRTables.Proofs.LoggedConflicts
import LRTables.Proofs.TracingEffects

/-!
# Marked lanes

Marking finds the configurations and terminals to which a lane leads back from
an unsettled reduce/reduce conflict, and no others.  Tracing finds no lookahead
without a source, so every lane goes on until its terminal is generated.
-/

namespace LRTables

/-- The same configuration, marked as being on the lane of a conflict or not. -/
def Configuration.withLaneMark (configuration : Configuration)
    (onConflictLane : Bool) : Configuration :=
  { configuration with
    marks := { configuration.marks with onConflictLane } }

namespace Automaton

/-- A configuration takes lookaheads from one that becomes it by a transition,
and from one of the same state that brings it in, if all that is left after its
nonterminal can vanish. -/
inductive LeadsBack (grammar : Grammar) (automaton : Automaton) :
    Place → Place → Prop where
  | transitor {place source : Place} :
      source ∈ (automaton.configuration place).transitors →
      LeadsBack grammar automaton place source
  | originator {place : Place} {index : Nat} :
      index ∈ (automaton.configuration place).originators →
      grammar.Vanishes ((automaton.configuration
        { state := place.state, index }).item.tail grammar) →
      LeadsBack grammar automaton place { state := place.state, index }

/-- The configuration is one of two reductions that compete on the terminal,
and precedence does not settle which to prefer. -/
structure Disputes (grammar : Grammar) (automaton : Automaton)
    (conflict : Conflict) (place : Place) (terminal : Nat) : Prop where
  kind : conflict.kind = .reduceReduce
  unsettled : conflict.byPrecedence = false
  concerns : conflict.Concerns place.state terminal
    (automaton.configuration place).item.rule
  final : (automaton.configuration place).item.isFinal grammar = true
  context : terminal ∈ automaton.context place

/-- A lane of the terminal leads back to the configuration from a reduction
that a logged conflict is about.  All its configurations hold the terminal. -/
inductive OnConflictLane (grammar : Grammar) (automaton : Automaton)
    (log : ConflictLog) (terminal : Nat) : Place → Prop where
  | source {conflict : Conflict} {place : Place} :
      conflict ∈ log.conflicts →
      automaton.Disputes grammar conflict place terminal →
      OnConflictLane grammar automaton log terminal place
  | back {place source : Place} :
      OnConflictLane grammar automaton log terminal place →
      automaton.LeadsBack grammar place source →
      terminal ∈ automaton.context source →
      OnConflictLane grammar automaton log terminal source

/-- The terminal is a lookahead of the configuration for no other reason than
the configuration itself: the goal is followed by the end of input, and a rule
by what can follow its nonterminal. -/
inductive Originates (grammar : Grammar) (automaton : Automaton)
    (terminal : Nat) (place : Place) : Prop where
  | goal : (automaton.configuration place).item = .goal →
      terminal = Terminal.endOfInput →
      Originates grammar automaton terminal place
  | originator {index : Nat} :
      index ∈ (automaton.configuration place).originators →
      grammar.Begins ((automaton.configuration
        { state := place.state, index }).item.tail grammar) terminal →
      Originates grammar automaton terminal place

/-- One step along a lane of a conflict. -/
def LaneStep (grammar : Grammar) (automaton : Automaton) (log : ConflictLog)
    (terminal : Nat) (place source : Place) : Prop :=
  automaton.LeadsBack grammar place source ∧
    automaton.OnConflictLane grammar log terminal source

/-- The marks and the region are those of the lanes of conflicts. -/
structure MarksLanes (grammar : Grammar) (first : FirstSets)
    (automaton : Automaton) (log : ConflictLog) (marked : Automaton)
    (region : Region) : Prop where
  /-- Each configuration is marked once for each terminal. -/
  once : (automaton.laneMembers grammar first log).Nodup
  members : ∀ place terminal,
    (place, terminal) ∈ automaton.laneMembers grammar first log ↔
      automaton.OnConflictLane grammar log terminal place
  marks : ∀ place,
    (marked.configuration place).marks.onConflictLane = true ↔
      ∃ terminal, automaton.OnConflictLane grammar log terminal place
  /-- Nothing but this mark has changed. -/
  unchanged : ∀ place, marked.configuration place =
    (automaton.configuration place).withLaneMark
      (marked.configuration place).marks.onConflictLane
  states : ∀ number, number ∈ region.states ↔ ∃ index terminal,
    automaton.OnConflictLane grammar log terminal { state := number, index }
  terminals : ∀ number terminal, terminal ∈ region.terminalsAt number ↔
    ∃ index,
      automaton.OnConflictLane grammar log terminal { state := number, index }
  onward : ∀ source target, target ∈ region.onwardFrom source ↔
    ∃ place origin terminal, place.state = target ∧ origin.state = source ∧
      origin ∈ (automaton.configuration place).transitors ∧
      automaton.OnConflictLane grammar log terminal place ∧
      automaton.OnConflictLane grammar log terminal origin
  heads : ∀ number, number ∈ region.heads ↔ ∃ index terminal,
    automaton.OnConflictLane grammar log terminal
        { state := number, index } ∧
      automaton.Originates grammar terminal { state := number, index }
  /-- Every lane goes on to a head. -/
  lead : ∀ place terminal,
    automaton.OnConflictLane grammar log terminal place →
      ∃ head, Relation.ReflTransGen
          (automaton.LaneStep grammar log terminal) place head ∧
        automaton.OnConflictLane grammar log terminal head ∧
        head.state ∈ region.heads
  headed : region.isEmpty = false → region.heads ≠ []

end Automaton

namespace Region

variable {grammar : Grammar} {first : FirstSets} {automaton : Automaton}
  {region : Region} {member : Place × Nat} {number terminal target : Nat}

/-- The places from which the lane of a member comes over a transition. -/
def crossed (automaton : Automaton) (member : Place × Nat) : List Place :=
  if (automaton.configuration member.1).item.dot > 0 then
    (automaton.configuration member.1).transitors.filter
      (automaton.holds member.2)
  else []

theorem mem_terminalsAt_addToRegion :
    terminal ∈ (automaton.addToRegion grammar first region
        member).terminalsAt number ↔
      terminal ∈ region.terminalsAt number ∨
        member.1.state = number ∧ member.2 = terminal := by
  have value : (automaton.addToRegion grammar first region
      member).terminalsAt number =
      if number = member.1.state then
        (region.terminalsAt number).insert member.2
      else region.terminalsAt number := Ordered.getD_find?_update
  rw [value]
  split
  · rename_i same
    simp [same, eq_comm]
  · rename_i different
    simp [Ne.symm different]

theorem mem_heads_addToRegion :
    number ∈ (automaton.addToRegion grammar first region member).heads ↔
      number ∈ region.heads ∨ member.1.state = number ∧
        automaton.isLaneHead grammar first member.1 member.2 = true := by
  show number ∈ (if automaton.isLaneHead grammar first member.1 member.2 then
    Ordered.insert region.heads member.1.state else region.heads) ↔ _
  split
  · rename_i isHead
    rw [Ordered.mem_insert, eq_comm]
    simp [isHead]
  · rename_i noHead
    simp [noHead]

theorem mem_onwardFrom_addToRegion :
    target ∈ (automaton.addToRegion grammar first region
        member).onwardFrom number ↔
      target ∈ region.onwardFrom number ∨ member.1.state = target ∧
        ∃ origin ∈ crossed automaton member, origin.state = number := by
  have each (onward : List (Nat × List Nat)) (origin : Place) :
      target ∈ (Ordered.find? (Ordered.update onward origin.state []
          fun targets => Ordered.insert targets member.1.state)
          number).getD [] ↔
        target ∈ (Ordered.find? onward number).getD [] ∨
          member.1.state = target ∧ origin.state = number := by
    rw [Ordered.getD_find?_update]
    split
    · rename_i same
      rw [Ordered.mem_insert, same]
      simp [eq_comm]
    · rename_i different
      simp [Ne.symm different]
  have all := @Automaton.foldl_iff_of_adds _ _ _
    (fun onward => target ∈ (Ordered.find? onward number).getD []) _ each
    (crossed automaton member) region.onward
  refine all.trans (or_congr_right ?_)
  constructor
  · rintro ⟨origin, isCrossed, isTarget, isNumber⟩
    exact ⟨isTarget, origin, isCrossed, isNumber⟩
  · rintro ⟨isTarget, origin, isCrossed, isNumber⟩
    exact ⟨origin, isCrossed, isTarget, isNumber⟩

end Region

namespace Automaton

variable {grammar : Grammar} {first : FirstSets} {automaton base : Automaton}
  {log : ConflictLog} {place source : Place} {number terminal target : Nat}

theorem mem_terminalsAt_mark :
    terminal ∈ (automaton.markConflictLanes grammar first
        log).2.terminalsAt number ↔
      ∃ member ∈ automaton.laneMembers grammar first log,
        member.1.state = number ∧ member.2 = terminal := by
  have all := @foldl_iff_of_adds _ _ (automaton.addToRegion grammar first)
    (fun region => terminal ∈ region.terminalsAt number) _
    (fun _ _ => Region.mem_terminalsAt_addToRegion)
    (automaton.laneMembers grammar first log) .empty
  exact all.trans (or_iff_right (TerminalSet.not_mem_empty terminal))

theorem mem_heads_mark :
    number ∈ (automaton.markConflictLanes grammar first log).2.heads ↔
      ∃ member ∈ automaton.laneMembers grammar first log,
        member.1.state = number ∧
          automaton.isLaneHead grammar first member.1 member.2 = true := by
  have all := @foldl_iff_of_adds _ _ (automaton.addToRegion grammar first)
    (fun region => number ∈ region.heads) _
    (fun _ _ => Region.mem_heads_addToRegion)
    (automaton.laneMembers grammar first log) .empty
  exact all.trans (or_iff_right List.not_mem_nil)

theorem mem_onwardFrom_mark :
    target ∈ (automaton.markConflictLanes grammar first
        log).2.onwardFrom number ↔
      ∃ member ∈ automaton.laneMembers grammar first log,
        member.1.state = target ∧
          ∃ origin ∈ Region.crossed automaton member,
            origin.state = number := by
  have all := @foldl_iff_of_adds _ _ (automaton.addToRegion grammar first)
    (fun region => target ∈ region.onwardFrom number) _
    (fun _ _ => Region.mem_onwardFrom_addToRegion)
    (automaton.laneMembers grammar first log) .empty
  exact all.trans (or_iff_right List.not_mem_nil)

/-- No configuration is marked as being on the lane of a conflict. -/
def Unmarked (automaton : Automaton) : Prop :=
  ∀ place, (automaton.configuration place).marks.onConflictLane = false

/-- Tracing has nothing to do with conflicts. -/
theorem keeps_unmarked :
    Tracing.Keeps grammar first (fun _ => True) Unmarked := by
  constructor
  · exact fun _ _ => trivial
  · trivial
  · exact fun _ => trivial
  · exact fun _ _ => trivial
  · intro automaton change unmarked retraces place other
    rw [← unmarked other]
    refine state_modify_keeps
      (fun state => (state.configuration other.index).marks.onConflictLane) ?_
    intro state
    exact State.configuration_modify_keeps
      (fun configuration => configuration.marks.onConflictLane)
      fun configuration => (retraces configuration).onConflictLane
  · intro automaton change unmarked retraces number other
    rw [← unmarked other]
    refine state_modify_keeps
      (fun state => (state.configuration other.index).marks.onConflictLane) ?_
    intro state
    by_cases inside : other.index < state.configurations.size
    · rw [State.configuration_mapConfigurations inside]
      exact (retraces _).onConflictLane
    · rw [State.configuration_of_size_le (Nat.le_of_not_lt inside),
        State.configuration_of_size_le (by
          rw [State.size_mapConfigurations]
          exact Nat.le_of_not_lt inside)]

theorem Lookaheadless.unmarked
    (lookaheadless : base.Lookaheadless grammar first) : base.Unmarked := by
  intro place
  by_cases holds : base.Holds place
  · rw [lookaheadless.plain.unmarked place holds]
    rfl
  · rw [configuration_of_not_holds holds]
    rfl

/-- Put a configuration on a conflict lane. -/
def mark (automaton : Automaton) (member : Place × Nat) : Automaton :=
  automaton.modifyConfiguration member.1 (·.withLaneMark true)

theorem markConflictLanes_fst :
    (automaton.markConflictLanes grammar first log).1 =
      (automaton.laneMembers grammar first log).foldl mark automaton :=
  rfl

theorem retraced_mark (member : Place × Nat) :
    automaton.Retraced (automaton.mark member) :=
  retraced_modifyConfiguration member.1 fun _ => ⟨rfl, rfl, rfl⟩

/-- The configurations of the members are marked. -/
theorem onConflictLane_foldl_mark {members : List (Place × Nat)}
    (holds : ∀ member ∈ members, automaton.Holds member.1) :
    ((members.foldl mark automaton).configuration
        place).marks.onConflictLane = true ↔
      (automaton.configuration place).marks.onConflictLane = true ∨
        ∃ member ∈ members, member.1 = place := by
  induction members generalizing automaton with
  | nil => simp
  | cons member rest ih =>
      have here : ((automaton.mark member).configuration
            place).marks.onConflictLane = true ↔
          (automaton.configuration place).marks.onConflictLane = true ∨
            member.1 = place := by
        rw [mark, (holds member List.mem_cons_self).modifyConfiguration]
        split
        · rename_i same
          simp [same, Configuration.withLaneMark]
        · rename_i different
          simp [Ne.symm different]
      have later : ∀ other ∈ rest, (automaton.mark member).Holds other.1 :=
        fun other inside => (retraced_mark member).holds_iff.mpr
          (holds other (List.mem_cons_of_mem _ inside))
      rw [List.foldl_cons, ih later, here, List.exists_mem_cons_iff, or_assoc]

theorem configuration_foldl_mark (members : List (Place × Nat)) :
    (members.foldl mark automaton).configuration place =
      (automaton.configuration place).withLaneMark
        ((members.foldl mark automaton).configuration
          place).marks.onConflictLane := by
  induction members generalizing automaton with
  | nil => rfl
  | cons member rest ih =>
      have here (value : Bool) :
          ((automaton.mark member).configuration place).withLaneMark value =
            (automaton.configuration place).withLaneMark value := by
        refine state_modify_keeps (fun state =>
          (state.configuration place.index).withLaneMark value) ?_
        intro state
        exact State.configuration_modify_keeps (·.withLaneMark value)
          fun _ => rfl
      rw [List.foldl_cons]
      exact ih.trans (here _)

theorem OnConflictLane.context
    (onLane : automaton.OnConflictLane grammar log terminal place) :
    terminal ∈ automaton.context place := by
  cases onLane with
  | source _ disputes => exact disputes.context
  | back _ _ inContext => exact inContext

namespace TracedFrom

variable (wellFormed : grammar.WellFormed) (unused : grammar.GoalUnused)
  (exact : first.Exact grammar)
  (traced : TracedFrom grammar first base automaton)

include traced in
theorem dot_of_transitor (holds : automaton.Holds place)
    (isTransitor : source ∈ (automaton.configuration place).transitors) :
    0 < (automaton.configuration place).item.dot := by
  have relabels := traced.retraced.relabels
  rw [(relabels place).transitors] at isTransitor
  have baseHolds := traced.retraced.holds_iff.mp holds
  obtain ⟨-, symbol, -, -, advanced⟩ :=
    (traced.lookaheadless.plain.wired place baseHolds source).mp isTransitor
  rw [(relabels place).item, advanced]
  exact Nat.succ_pos _

include unused wellFormed traced in
theorem dot_of_originator (holds : automaton.Holds place) {index : Nat}
    (isOrigin : index ∈ (automaton.configuration place).originators) :
    (automaton.configuration place).item.dot = 0 ∧
      (automaton.configuration place).item ≠ .goal := by
  have regular := traced.framed.regular place.state holds.1
  obtain ⟨-, isStart, scans⟩ :=
    regular.originators place.index holds.2 index isOrigin
  refine ⟨isStart, fun isGoal => ?_⟩
  apply Grammar.scanned_ne_goalSymbol unused scans
  rw [← wellFormed.left_goalRule]
  exact congrArg (grammar.left ·.rule) isGoal

include wellFormed unused exact traced in
/-- Lanes lead back just as tracing follows them. -/
theorem mem_laneTargets_iff (holds : automaton.Holds place) :
    source ∈ automaton.laneTargets grammar first place ↔
      automaton.LeadsBack grammar place source := by
  have vanishes (item : Item) :=
    exact.vanishes _ (Grammar.declares_tail wellFormed item)
  rw [mem_laneTargets]
  constructor
  · rintro ⟨-, ⟨-, isTransitor⟩ | ⟨-, index, isOrigin, rfl, tail⟩⟩
    · exact .transitor isTransitor
    · exact .originator isOrigin ((vanishes _).mp tail)
  · rintro (isTransitor | ⟨isOrigin, tail⟩)
    · have moved := traced.dot_of_transitor holds isTransitor
      refine ⟨fun isGoal => ?_, Or.inl ⟨moved, isTransitor⟩⟩
      rw [isGoal] at moved
      exact Nat.lt_irrefl 0 moved
    · obtain ⟨isStart, notGoal⟩ :=
        traced.dot_of_originator wellFormed unused holds isOrigin
      exact ⟨notGoal,
        Or.inr ⟨isStart, _, isOrigin, rfl, (vanishes _).mpr tail⟩⟩

include wellFormed unused exact traced in
theorem generates_iff (holds : automaton.Holds place) :
    automaton.Generates grammar first place terminal ↔
      automaton.Originates grammar terminal place := by
  have begins (item : Item) :=
    exact.begins _ (Grammar.declares_tail wellFormed item) terminal
  constructor
  · intro generates
    by_cases isGoal : (automaton.configuration place).item = .goal
    · exact .goal isGoal ((generates_of_goal isGoal).mp generates)
    · obtain ⟨-, index, isOrigin, inHeads⟩ :=
        (generates_of_ne_goal isGoal).mp generates
      exact .originator isOrigin ((begins _).mp inHeads)
  · rintro (⟨isGoal, atEnd⟩ | ⟨isOrigin, follows⟩)
    · exact (generates_of_goal isGoal).mpr atEnd
    · obtain ⟨isStart, notGoal⟩ :=
        traced.dot_of_originator wellFormed unused holds isOrigin
      exact (generates_of_ne_goal notGoal).mpr
        ⟨isStart, _, isOrigin, (begins _).mpr follows⟩

include traced in
/-- Heads are where the terminal is generated: at the goal there is no other
lookahead than the end of input. -/
theorem isLaneHead_iff (inContext : terminal ∈ automaton.context place) :
    automaton.isLaneHead grammar first place terminal = true ↔
      automaton.Generates grammar first place terminal := by
  have flows : base.Flows grammar first place terminal :=
    (traced.context place (traced.holds_of_mem_context inContext)
      terminal).mp inContext
  unfold isLaneHead Generates
  dsimp only
  by_cases isGoal : (automaton.configuration place).item = .goal
  · rw [if_pos isGoal, if_pos isGoal]
    refine iff_of_true rfl ?_
    have goalItem : (base.configuration place).item = .goal :=
      (traced.retraced.item place).symm.trans isGoal
    cases flows with
    | generated generates =>
        rwa [Generates, if_pos goalItem] at generates
    | along isTarget =>
        exact absurd goalItem (mem_laneTargets.mp isTarget).1
  · rw [if_neg isGoal, if_neg isGoal]
    by_cases moved : (automaton.configuration place).item.dot > 0
    · rw [if_pos moved]
      refine iff_of_false (by decide) fun both => ?_
      omega
    · have isStart : (automaton.configuration place).item.dot = 0 := by omega
      rw [if_neg moved, originatorsOf, List.any_map, List.any_eq_true]
      simp only [isStart, true_and, Function.comp_apply,
        TerminalSet.mem_iff_contains]

section Log

variable (genuine : ∀ conflict ∈ log.conflicts, conflict.Genuine)

include wellFormed unused exact traced genuine

theorem onConflictLane_of_reachedFrom {member : Place × Nat}
    (reached : ReachedFrom (automaton.laneStep grammar first)
      (log.conflicts.toList.flatMap (automaton.conflictSources grammar))
      member) :
    automaton.OnConflictLane grammar log member.2 member.1 := by
  obtain ⟨root, isRoot, lane⟩ := reached
  induction lane with
  | refl =>
      obtain ⟨conflict, listed, isSource⟩ := List.mem_flatMap.mp isRoot
      have logged := Array.mem_toList_iff.mp listed
      obtain ⟨isReduce, unsettled, concerns, final, inContext⟩ :=
        mem_conflictSources.mp isSource
      have kind :=
        (genuine conflict logged).kind_eq_reduceReduce.mpr isReduce
      exact .source logged ⟨kind, unsettled, concerns, final, inContext⟩
  | @tail member other _ step ih =>
      obtain ⟨isTarget, same, inContext⟩ := mem_laneStep.mp step
      have holds := Automaton.holds_of_mem_context ih.context
      rw [same] at inContext ⊢
      exact .back ih ((traced.mem_laneTargets_iff wellFormed unused exact
        holds).mp isTarget) inContext

theorem reachedFrom_of_onConflictLane
    (onLane : automaton.OnConflictLane grammar log terminal place) :
    ReachedFrom (automaton.laneStep grammar first)
      (log.conflicts.toList.flatMap (automaton.conflictSources grammar))
      (place, terminal) := by
  induction onLane with
  | @source conflict place logged disputes =>
      have isReduce :=
        (genuine conflict logged).kind_eq_reduceReduce.mp disputes.kind
      have isSource := mem_conflictSources.mpr ⟨isReduce, disputes.unsettled,
        disputes.concerns, disputes.final, disputes.context⟩
      exact ⟨_, List.mem_flatMap.mpr
        ⟨conflict, Array.mem_toList_iff.mpr logged, isSource⟩, .refl⟩
  | back onLane leadsBack inContext ih =>
      have holds := Automaton.holds_of_mem_context onLane.context
      have isTarget := (traced.mem_laneTargets_iff wellFormed unused exact
        holds).mpr leadsBack
      exact ih.step (mem_laneStep.mpr ⟨isTarget, rfl, inContext⟩)

theorem mem_laneMembers_iff {member : Place × Nat} :
    member ∈ automaton.laneMembers grammar first log ↔
      automaton.OnConflictLane grammar log member.2 member.1 := by
  rw [mem_laneMembers (traced.terminated wellFormed unused exact)]
  constructor
  · exact traced.onConflictLane_of_reachedFrom wellFormed unused exact genuine
  · exact traced.reachedFrom_of_onConflictLane wellFormed unused exact genuine

/-- The heads are the states in which the terminal of a lane originates. -/
theorem mem_heads_iff :
    number ∈ (automaton.markConflictLanes grammar first log).2.heads ↔
      ∃ index terminal,
        automaton.OnConflictLane grammar log terminal
            { state := number, index } ∧
          automaton.Originates grammar terminal { state := number, index } := by
  have isHead {place : Place} {terminal : Nat}
      (onLane : automaton.OnConflictLane grammar log terminal place) :
      automaton.isLaneHead grammar first place terminal = true ↔
        automaton.Originates grammar terminal place :=
    (traced.isLaneHead_iff onLane.context).trans
      (traced.generates_iff wellFormed unused exact
        (Automaton.holds_of_mem_context onLane.context))
  have isMember {member : Place × Nat} :=
    @mem_laneMembers_iff grammar first automaton base log wellFormed unused
      exact traced genuine member
  rw [mem_heads_mark]
  constructor
  · rintro ⟨⟨⟨_, index⟩, terminal⟩, member, rfl, head⟩
    have onLane := isMember.mp member
    exact ⟨index, terminal, onLane, (isHead onLane).mp head⟩
  · rintro ⟨index, terminal, onLane, originates⟩
    exact ⟨({ state := number, index }, terminal), isMember.mpr onLane, rfl,
      (isHead onLane).mpr originates⟩

/-- A lookahead that was found by tracing has a source, to which its lane leads
back. -/
theorem exists_head
    (onLane : automaton.OnConflictLane grammar log terminal place) :
    ∃ head, Relation.ReflTransGen
        (automaton.LaneStep grammar log terminal) place head ∧
      automaton.OnConflictLane grammar log terminal head ∧
      head.state ∈ (automaton.markConflictLanes grammar first log).2.heads := by
  have flows : base.Flows grammar first place terminal :=
    (traced.context place (traced.holds_of_mem_context onLane.context)
      terminal).mp onLane.context
  induction flows with
  | @generated place terminal generates =>
      have holds := Automaton.holds_of_mem_context onLane.context
      have originates := (traced.generates_iff wellFormed unused exact
        holds).mp (traced.retraced.generates_iff.mpr generates)
      exact ⟨place, .refl, onLane,
        (traced.mem_heads_iff wellFormed unused exact genuine).mpr
          ⟨place.index, terminal, onLane, originates⟩⟩
  | @along place source terminal isTarget flows ih =>
      have holds := Automaton.holds_of_mem_context onLane.context
      have baseHolds := traced.holds_of_mem_context onLane.context
      have laned := traced.lookaheadless.laned wellFormed unused
      have inContext := (traced.context source
        (laned.holds_target baseHolds isTarget) terminal).mpr flows
      rw [← traced.retraced.laneTargets_eq] at isTarget
      have leadsBack := (traced.mem_laneTargets_iff wellFormed unused exact
        holds).mp isTarget
      have further := onLane.back leadsBack inContext
      obtain ⟨head, lane, rest⟩ := ih further
      exact ⟨head, .head ⟨leadsBack, further⟩ lane, rest⟩

theorem mem_onwardFrom_iff :
    target ∈ (automaton.markConflictLanes grammar first
        log).2.onwardFrom number ↔
      ∃ place origin terminal, place.state = target ∧
        origin.state = number ∧
        origin ∈ (automaton.configuration place).transitors ∧
        automaton.OnConflictLane grammar log terminal place ∧
        automaton.OnConflictLane grammar log terminal origin := by
  have isMember {member : Place × Nat} :=
    @mem_laneMembers_iff grammar first automaton base log wellFormed unused
      exact traced genuine member
  rw [mem_onwardFrom_mark]
  constructor
  · rintro ⟨⟨place, terminal⟩, member, isTarget, origin, isCrossed, isSource⟩
    have onLane := isMember.mp member
    rw [Region.crossed] at isCrossed
    split at isCrossed
    · obtain ⟨isTransitor, held⟩ := List.mem_filter.mp isCrossed
      exact ⟨place, origin, terminal, isTarget, isSource, isTransitor, onLane,
        onLane.back (.transitor isTransitor)
          (TerminalSet.mem_iff_contains.mpr held)⟩
    · cases isCrossed
  · rintro ⟨place, origin, terminal, isTarget, isSource, isTransitor, onLane,
      further⟩
    have moved := traced.dot_of_transitor
      (Automaton.holds_of_mem_context onLane.context) isTransitor
    refine ⟨(place, terminal), isMember.mpr onLane, isTarget, origin, ?_,
      isSource⟩
    rw [Region.crossed, if_pos moved]
    exact List.mem_filter.mpr
      ⟨isTransitor, TerminalSet.mem_iff_contains.mp further.context⟩

theorem mem_states_iff :
    number ∈ (automaton.markConflictLanes grammar first log).2.states ↔
      ∃ index terminal, automaton.OnConflictLane grammar log terminal
        { state := number, index } := by
  have isMember {member : Place × Nat} :=
    @mem_laneMembers_iff grammar first automaton base log wellFormed unused
      exact traced genuine member
  rw [← contains_iff, contains_mark]
  constructor
  · rintro ⟨⟨⟨_, index⟩, terminal⟩, member, rfl⟩
    exact ⟨index, terminal, isMember.mp member⟩
  · rintro ⟨index, terminal, onLane⟩
    exact ⟨({ state := number, index }, terminal), isMember.mpr onLane, rfl⟩

theorem mem_terminalsAt_iff :
    terminal ∈ (automaton.markConflictLanes grammar first
        log).2.terminalsAt number ↔
      ∃ index, automaton.OnConflictLane grammar log terminal
        { state := number, index } := by
  have isMember {member : Place × Nat} :=
    @mem_laneMembers_iff grammar first automaton base log wellFormed unused
      exact traced genuine member
  rw [mem_terminalsAt_mark]
  constructor
  · rintro ⟨⟨⟨_, index⟩, _⟩, member, rfl, rfl⟩
    exact ⟨index, isMember.mp member⟩
  · rintro ⟨index, onLane⟩
    exact ⟨({ state := number, index }, terminal), isMember.mpr onLane, rfl,
      rfl⟩

theorem onConflictLane_markConflictLanes (unmarked : automaton.Unmarked) :
    ((automaton.markConflictLanes grammar first log).1.configuration
        place).marks.onConflictLane = true ↔
      ∃ terminal, automaton.OnConflictLane grammar log terminal place := by
  have isMember {member : Place × Nat} :=
    @mem_laneMembers_iff grammar first automaton base log wellFormed unused
      exact traced genuine member
  have holds (member : Place × Nat)
      (listed : member ∈ automaton.laneMembers grammar first log) :
      automaton.Holds member.1 :=
    Automaton.holds_of_mem_context (isMember.mp listed).context
  rw [markConflictLanes_fst, onConflictLane_foldl_mark holds, unmarked place]
  constructor
  · rintro (impossible | ⟨⟨_, terminal⟩, member, rfl⟩)
    · cases impossible
    · exact ⟨terminal, isMember.mp member⟩
  · rintro ⟨terminal, onLane⟩
    exact Or.inr ⟨(place, terminal), isMember.mpr onLane, rfl⟩

/-- The lanes of a log are marked as they should be. -/
theorem marksLanes (unmarked : automaton.Unmarked) :
    automaton.MarksLanes grammar first log
      (automaton.markConflictLanes grammar first log).1
      (automaton.markConflictLanes grammar first log).2 := by
  have states (number : Nat) :=
    @mem_states_iff grammar first automaton base log number wellFormed unused
      exact traced genuine
  have lead {place : Place} {terminal : Nat} :=
    @exists_head grammar first automaton base log place terminal wellFormed
      unused exact traced genuine
  constructor
  · exact nodup_discover _ _ _
  · intro place terminal
    exact traced.mem_laneMembers_iff wellFormed unused exact genuine
  · intro place
    exact traced.onConflictLane_markConflictLanes wellFormed unused exact
      genuine unmarked
  · intro place
    rw [markConflictLanes_fst]
    exact configuration_foldl_mark _
  · exact states
  · intro number terminal
    exact traced.mem_terminalsAt_iff wellFormed unused exact genuine
  · intro source target
    exact traced.mem_onwardFrom_iff wellFormed unused exact genuine
  · intro number
    exact traced.mem_heads_iff wellFormed unused exact genuine
  · exact fun place terminal => lead
  · intro affected none
    rw [Region.isEmpty, List.isEmpty_eq_false_iff_exists_mem] at affected
    obtain ⟨entry, member⟩ := affected
    obtain ⟨index, terminal, onLane⟩ :=
      (states entry.1).mp (List.mem_map.mpr ⟨entry, member, rfl⟩)
    obtain ⟨head, -, -, isHead⟩ := lead onLane
    rw [none] at isHead
    cases isHead

end Log

end TracedFrom

/-- After the lanes have been traced, exactly the lanes of the reduce/reduce
conflicts of the table are marked. -/
theorem marked_lanes (accepted : grammar.Accepted)
    (unused : grammar.GoalUnused) :
    ∃ base traced, collect? grammar (.ofGrammar grammar) .lr0 = some base ∧
      (base.traceLanes grammar (.ofGrammar grammar)).automaton = traced ∧
      ∀ table marked region, Table.ofAutomaton grammar traced false =
          .ok table →
        traced.markConflictLanes grammar (.ofGrammar grammar) table.log =
            (marked, region) →
          traced.MarksLanes grammar (.ofGrammar grammar) table.log marked
            region := by
  have wellFormed := accepted.wellFormed
  have exact := FirstSets.exact_ofGrammar wellFormed
  obtain ⟨base, collected⟩ := exists_collect? wellFormed exact .lr0
  have lookaheadless :=
    lookaheadless_of_collect? wellFormed unused exact collected
  have traced := lookaheadless.tracedFrom wellFormed unused
  refine ⟨base, _, collected, rfl, ?_⟩
  intro table marked region filled found
  have genuine := Table.genuine_of_mem_log filled
  have unmarked := (@keeps_unmarked grammar
    (.ofGrammar grammar)).traceLanes lookaheadless.unmarked
  have marks :=
    traced.marksLanes wellFormed unused exact genuine unmarked
  rwa [found] at marks

/-- Where lanes cross there is a conflict, and its lanes have heads. -/
theorem marked_lanes_crossed :
    ∃ base traced table marked region,
      collect? .crossed (.ofGrammar .crossed) .lr0 = some base ∧
      (base.traceLanes .crossed (.ofGrammar .crossed)).automaton = traced ∧
      Table.ofAutomaton .crossed traced false = .ok table ∧
      traced.markConflictLanes .crossed (.ofGrammar .crossed) table.log =
        (marked, region) ∧
      region.isEmpty = false ∧ region.heads ≠ [] ∧
      traced.MarksLanes .crossed (.ofGrammar .crossed) table.log marked
        region := by
  obtain ⟨base, traced, collected, isTraced, exact⟩ :=
    marked_lanes accepted_crossed goalUnused_crossed
  obtain ⟨automaton, region, contended⟩ := exists_contended_crossed
  obtain ⟨other, again, sameTraced⟩ := contended.traced
  cases collected.symm.trans again
  cases isTraced.symm.trans sameTraced
  obtain ⟨table, filled, -, found⟩ := contended.conflicts
  have marks := exact table _ region filled (Prod.ext rfl found)
  exact ⟨base, traced, table, _, region, collected, isTraced, filled,
    Prod.ext rfl found, contended.affected,
    marks.headed contended.affected, marks⟩

end Automaton

end LRTables
