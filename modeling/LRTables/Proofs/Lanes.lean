import LRTables.Lane.Tracing
import LRTables.Proofs.PlainCollections

/-!
# Lanes

A terminal flows to a configuration when some lane leads backward from the
configuration to one at which the terminal is generated.  The terminals that
flow to a configuration are those that its item admits after some word that
leads to its state.
-/

namespace LRTables

namespace Automaton

variable {grammar : Grammar} {first : FirstSets} {automaton : Automaton}

/-- The places that a configuration takes its lookaheads from. -/
def laneTargets (grammar : Grammar) (first : FirstSets)
    (automaton : Automaton) (place : Place) : List Place :=
  let configuration := automaton.configuration place
  if configuration.item = .goal then []
  else if configuration.item.dot > 0 then configuration.transitors
  else
    (configuration.originators.filter fun index =>
      (first.heads ((automaton.configuration
        { state := place.state, index }).item.tail grammar)).2).map
      fun index => { state := place.state, index }

/-- The terminal is a lookahead of the configuration on its own account. -/
def Generates (grammar : Grammar) (first : FirstSets)
    (automaton : Automaton) (place : Place) (terminal : Nat) : Prop :=
  let configuration := automaton.configuration place
  if configuration.item = .goal then terminal = Terminal.endOfInput
  else configuration.item.dot = 0 ∧ ∃ index ∈ configuration.originators,
    terminal ∈ (first.heads ((automaton.configuration
      { state := place.state, index }).item.tail grammar)).1

theorem generates_of_goal {place : Place} {terminal : Nat}
    (isGoal : (automaton.configuration place).item = .goal) :
    automaton.Generates grammar first place terminal ↔
      terminal = Terminal.endOfInput := by
  unfold Generates
  dsimp only
  rw [if_pos isGoal]

theorem generates_of_ne_goal {place : Place} {terminal : Nat}
    (notGoal : (automaton.configuration place).item ≠ .goal) :
    automaton.Generates grammar first place terminal ↔
      (automaton.configuration place).item.dot = 0 ∧
        ∃ index ∈ (automaton.configuration place).originators,
          terminal ∈ (first.heads ((automaton.configuration
            { state := place.state, index }).item.tail grammar)).1 := by
  unfold Generates
  dsimp only
  rw [if_neg notGoal]

/-- The terminal gets to the place along a lane. -/
inductive Flows (grammar : Grammar) (first : FirstSets)
    (automaton : Automaton) : Place → Nat → Prop where
  | generated {place : Place} {terminal : Nat} :
      automaton.Generates grammar first place terminal →
      Flows grammar first automaton place terminal
  | along {place source : Place} {terminal : Nat} :
      source ∈ automaton.laneTargets grammar first place →
      Flows grammar first automaton source terminal →
      Flows grammar first automaton place terminal

/-- The originators of a configuration are those that scan its nonterminal. -/
def Sourced (grammar : Grammar) (automaton : Automaton) : Prop :=
  ∀ place, automaton.Holds place →
    (automaton.configuration place).item.dot = 0 →
    ∀ index, index ∈ (automaton.configuration place).originators ↔
      automaton.Holds { state := place.state, index } ∧
        (automaton.configuration
            { state := place.state, index }).item.scanned grammar =
          some (.nonterminal
            (grammar.left (automaton.configuration place).item.rule))

/-- What the lanes of an automaton need of it. -/
structure Laned (grammar : Grammar) (automaton : Automaton) : Prop where
  framed : automaton.Framed grammar
  reached : ∀ number < automaton.size, ∃ word, automaton.Leads word number
  wired : automaton.Wired grammar
  sourced : automaton.Sourced grammar

theorem mem_originators {state : State} (regular : state.Regular grammar)
    {contexts : Bool} (closed : state.Closed grammar first contexts)
    {index : Nat} (inside : index < state.configurations.size)
    (isStart : (state.configuration index).item.dot = 0)
    (ruleInside : (state.configuration index).item.rule < grammar.rules.size)
    (origin : Nat) :
    origin ∈ (state.configuration index).originators ↔
      origin < state.configurations.size ∧
        (state.configuration origin).item.scanned grammar =
          some (.nonterminal
            (grammar.left (state.configuration index).item.rule)) := by
  constructor
  · intro member
    obtain ⟨originInside, -, scans⟩ :=
      regular.originators index inside origin member
    exact ⟨originInside, scans⟩
  · rintro ⟨originInside, scans⟩
    have rest := Item.rest_of_scanned scans
    obtain ⟨other, otherInside, item, byOrigin, -⟩ :=
      closed origin originInside _ _ rest
        (state.configuration index).item.rule
        (Grammar.mem_rulesOf.mpr ⟨ruleInside, rfl⟩)
    have same : other = index := by
      apply regular.distinct other index otherInside inside
      rw [item]
      cases value : (state.configuration index).item with
      | mk rule dot =>
          rw [value] at isStart
          cases isStart
          rfl
    exact same ▸ byOrigin

theorem Lookaheadless.laned (wellFormed : grammar.WellFormed)
    (unused : grammar.GoalUnused)
    (lookaheadless : automaton.Lookaheadless grammar first) :
    automaton.Laned grammar := by
  obtain ⟨collected, plain, -, reached⟩ := lookaheadless
  have framed := collected.framed
  constructor
  · exact framed
  · exact reached
  · exact plain.wired
  · intro place holds isStart index
    obtain ⟨word, leads⟩ := reached place.state holds.1
    have valid : grammar.Valid word (automaton.configuration place).item :=
      (framed.mem_items wellFormed unused leads).mp
        (State.mem_items.mpr ⟨place.index, holds.2, rfl⟩)
    have sound := (collected.states place.state holds.1).1
    refine (mem_originators sound.regular sound.closed holds.2 isStart
      (valid.rule_lt wellFormed) index).trans ?_
    refine and_congr_left fun _ => ?_
    exact ⟨fun inside => ⟨holds.1, inside⟩, fun both => both.2⟩

section Flows

variable (wellFormed : grammar.WellFormed) (unused : grammar.GoalUnused)
  (exact : first.Exact grammar) (laned : automaton.Laned grammar)

include wellFormed unused laned in
theorem Laned.valid {place : Place} (holds : automaton.Holds place)
    {word : List Symbol} (leads : automaton.Leads word place.state) :
    grammar.Valid word (automaton.configuration place).item :=
  (laned.framed.mem_items wellFormed unused leads).mp
    (State.mem_items.mpr ⟨place.index, holds.2, rfl⟩)

include wellFormed unused laned in
theorem Laned.exists_place {word : List Symbol} {number : Nat} {item : Item}
    (leads : automaton.Leads word number) (valid : grammar.Valid word item) :
    ∃ index, automaton.Holds { state := number, index } ∧
      (automaton.configuration { state := number, index }).item = item := by
  have member := (laned.framed.mem_items wellFormed unused leads).mpr valid
  obtain ⟨index, inside, equal⟩ := State.mem_items.mp member
  exact ⟨index, ⟨laned.framed.lt_size leads, inside⟩, equal⟩

theorem isStart_of_dot {item : Item} (isStart : item.dot = 0) :
    item = { rule := item.rule, dot := 0 } := by
  cases item
  cases isStart
  rfl

include wellFormed unused exact laned in
theorem Laned.admits_of_generates {place : Place} {terminal : Nat}
    (holds : automaton.Holds place)
    (generates : automaton.Generates grammar first place terminal) :
    ∃ word, automaton.Leads word place.state ∧
      grammar.Admits word (automaton.configuration place).item terminal := by
  obtain ⟨word, leads⟩ := laned.reached place.state holds.1
  have valid := laned.valid wellFormed unused holds leads
  refine ⟨word, leads, ?_⟩
  by_cases isGoal : (automaton.configuration place).item = .goal
  · cases (generates_of_goal isGoal).mp generates
    rw [isGoal] at valid ⊢
    rw [valid.eq_nil_of_goal wellFormed unused]
    exact .goal
  · obtain ⟨isStart, index, member, inHeads⟩ :=
      (generates_of_ne_goal isGoal).mp generates
    obtain ⟨originHolds, scans⟩ :=
      (laned.sourced place holds isStart index).mp member
    rw [isStart_of_dot isStart]
    refine .generated
      (laned.valid wellFormed unused originHolds leads) scans
      (Grammar.mem_rulesOf.mpr ⟨valid.rule_lt wellFormed, rfl⟩) ?_
    exact (exact.begins _ (Grammar.declares_tail wellFormed _) terminal).mp
      inHeads

/-- A step back along a lane: over a transition, or from a rule to an item
whose tail can vanish. -/
theorem mem_laneTargets {place source : Place} :
    source ∈ automaton.laneTargets grammar first place ↔
      (automaton.configuration place).item ≠ .goal ∧
        (0 < (automaton.configuration place).item.dot ∧
            source ∈ (automaton.configuration place).transitors ∨
          (automaton.configuration place).item.dot = 0 ∧
            ∃ index ∈ (automaton.configuration place).originators,
              source = { state := place.state, index } ∧
              (first.heads
                ((automaton.configuration source).item.tail
                  grammar)).2 = true) := by
  unfold laneTargets
  dsimp only
  by_cases isGoal : (automaton.configuration place).item = .goal
  · simp [isGoal]
  · rw [if_neg isGoal]
    by_cases moved : (automaton.configuration place).item.dot > 0
    · have notZero : (automaton.configuration place).item.dot ≠ 0 := by omega
      simp [isGoal, moved, notZero]
    · have isStart : (automaton.configuration place).item.dot = 0 := by omega
      rw [if_neg moved]
      simp only [isGoal, isStart, List.mem_map, List.mem_filter,
        Nat.lt_irrefl, false_and, false_or, true_and, ne_eq,
        not_false_eq_true]
      constructor
      · rintro ⟨index, ⟨member, vanishes⟩, rfl⟩
        exact ⟨index, member, rfl, vanishes⟩
      · rintro ⟨index, member, rfl, vanishes⟩
        exact ⟨index, ⟨member, vanishes⟩, rfl⟩

include laned in
theorem Laned.holds_target {place source : Place}
    (holds : automaton.Holds place)
    (member : source ∈ automaton.laneTargets grammar first place) :
    automaton.Holds source := by
  obtain ⟨-, ⟨-, isTransitor⟩ | ⟨isStart, index, isOrigin, rfl, -⟩⟩ :=
    mem_laneTargets.mp member
  · exact ((laned.wired place holds source).mp isTransitor).1
  · exact ((laned.sourced place holds isStart index).mp isOrigin).1

include wellFormed unused exact laned in
/-- What flows to a configuration is admitted after some word. -/
theorem Laned.admits_of_flows {place : Place} {terminal : Nat}
    (holds : automaton.Holds place)
    (flows : automaton.Flows grammar first place terminal) :
    ∃ word, automaton.Leads word place.state ∧
      grammar.Admits word (automaton.configuration place).item terminal := by
  induction flows with
  | generated generates =>
      exact laned.admits_of_generates wellFormed unused exact holds generates
  | @along place source terminal member _ ih =>
      have sourceHolds := laned.holds_target holds member
      obtain ⟨word, leads, admits⟩ := ih sourceHolds
      obtain ⟨-, ⟨-, isTransitor⟩ | ⟨isStart, index, isOrigin, rfl, tail⟩⟩ :=
        mem_laneTargets.mp member
      · obtain ⟨-, symbol, edge, scans, equal⟩ :=
          (laned.wired place holds source).mp isTransitor
        refine ⟨word ++ [symbol], leads.step edge, ?_⟩
        rw [equal]
        exact admits.advance scans
      · obtain ⟨-, scans⟩ :=
          (laned.sourced place holds isStart index).mp isOrigin
        have valid := laned.valid wellFormed unused holds leads
        refine ⟨word, leads, ?_⟩
        rw [isStart_of_dot isStart]
        refine .inherited admits scans
          (Grammar.mem_rulesOf.mpr ⟨valid.rule_lt wellFormed, rfl⟩) ?_
        exact (exact.vanishes _ (Grammar.declares_tail wellFormed _)).mp tail

include laned in
theorem Laned.mem_laneTargets_of_becomes {place source : Place}
    (holds : automaton.Holds place)
    (becomes : automaton.Becomes grammar source place) :
    source ∈ automaton.laneTargets grammar first place := by
  have ⟨_, _, _, _, equal⟩ := becomes
  have moved : 0 < (automaton.configuration place).item.dot := by
    rw [equal]
    exact Nat.succ_pos _
  have notGoal : (automaton.configuration place).item ≠ .goal := by
    intro isGoal
    rw [isGoal] at moved
    exact Nat.lt_irrefl 0 moved
  refine mem_laneTargets.mpr ⟨notGoal, Or.inl ⟨moved, ?_⟩⟩
  exact (laned.wired place holds source).mpr becomes

include wellFormed unused exact laned in
/-- A lane leads back to an item that hands its lookaheads on. -/
theorem Laned.mem_laneTargets_of_hands {number index origin : Nat}
    (holds : automaton.Holds { state := number, index })
    (originHolds : automaton.Holds { state := number, index := origin })
    (hands : grammar.Hands
      (automaton.configuration { state := number, index := origin }).item
      (automaton.configuration { state := number, index }).item) :
    { state := number, index := origin } ∈
      automaton.laneTargets grammar first { state := number, index } := by
  generalize isInner : (automaton.configuration
    { state := number, index }).item = inner at hands
  cases hands with
  | @intro nonterminal rule scans member vanishes =>
      obtain ⟨-, left⟩ := Grammar.mem_rulesOf.mp member
      have notGoal : (automaton.configuration
          { state := number, index }).item ≠ .goal := by
        intro isGoal
        exact Grammar.rule_ne_goalRule wellFormed unused scans member
          (congrArg Item.rule (isInner.symm.trans isGoal))
      have isStart : (automaton.configuration
          { state := number, index }).item.dot = 0 := by
        rw [isInner]
      refine mem_laneTargets.mpr
        ⟨notGoal, Or.inr ⟨isStart, origin, ?_, rfl, ?_⟩⟩
      · rw [laned.sourced _ holds isStart origin]
        refine ⟨originHolds, ?_⟩
        rw [scans, isInner, left]
      · exact (exact.vanishes _ (Grammar.declares_tail wellFormed _)).mpr
          vanishes

include wellFormed unused exact laned in
/-- What is admitted after some word flows to the configuration. -/
theorem Laned.flows_of_admits {word : List Symbol} {item : Item}
    {terminal : Nat} (admits : grammar.Admits word item terminal)
    {place : Place} (holds : automaton.Holds place)
    (equal : (automaton.configuration place).item = item)
    (leads : automaton.Leads word place.state) :
    automaton.Flows grammar first place terminal := by
  induction admits generalizing place with
  | goal =>
      exact .generated ((generates_of_goal equal).mpr rfl)
  | @generated word item nonterminal rule terminal valid scans member begins =>
      have notGoal : (automaton.configuration place).item ≠ .goal := by
        intro isGoal
        exact Grammar.rule_ne_goalRule wellFormed unused scans member
          (congrArg Item.rule (equal.symm.trans isGoal))
      have isStart : (automaton.configuration place).item.dot = 0 := by
        rw [equal]
      obtain ⟨index, originHolds, origin⟩ :=
        laned.exists_place wellFormed unused leads valid
      obtain ⟨-, left⟩ := Grammar.mem_rulesOf.mp member
      refine .generated ((generates_of_ne_goal notGoal).mpr
        ⟨isStart, index, ?_, ?_⟩)
      · rw [laned.sourced place holds isStart index]
        refine ⟨originHolds, ?_⟩
        rw [origin, scans, equal, left]
      · rw [origin]
        exact (exact.begins _ (Grammar.declares_tail wellFormed _)
          terminal).mpr begins
  | @inherited word item nonterminal rule terminal before scans member
      vanishes ih =>
      obtain ⟨index, originHolds, origin⟩ :=
        laned.exists_place wellFormed unused leads before.valid
      apply Flows.along _ (ih originHolds origin leads)
      apply laned.mem_laneTargets_of_hands wellFormed unused exact holds
        originHolds
      rw [origin]
      show grammar.Hands item (automaton.configuration place).item
      rw [equal]
      exact .intro scans member vanishes
  | @advance word item symbol terminal before scans ih =>
      obtain ⟨number, path, edge⟩ := leads_append.mp leads
      obtain ⟨index, originHolds, origin⟩ :=
        laned.exists_place wellFormed unused path before.valid
      apply Flows.along _ (ih originHolds origin path)
      exact laned.mem_laneTargets_of_becomes holds ⟨originHolds, _, edge,
        origin ▸ scans, equal.trans (congrArg Item.advance origin.symm)⟩

include wellFormed unused exact laned in
theorem Laned.flows_iff {place : Place} (holds : automaton.Holds place)
    {terminal : Nat} :
    automaton.Flows grammar first place terminal ↔
      ∃ word, automaton.Leads word place.state ∧
        grammar.Admits word (automaton.configuration place).item terminal := by
  constructor
  · exact laned.admits_of_flows wellFormed unused exact holds
  · rintro ⟨word, leads, admits⟩
    exact laned.flows_of_admits wellFormed unused exact admits holds rfl leads

end Flows

end Automaton

end LRTables
