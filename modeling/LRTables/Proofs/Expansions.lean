import LRTables.Proofs.Frames
import LRTables.Proofs.Outcomes

/-!
# Expansion of a state

Making a transition keeps the automaton of a collection framed.  A state that
does not wait has all its transitions, and its lookaheads have arrived at
their targets.
-/

namespace LRTables

namespace State

/-- A state as the search for states makes it. -/
structure Sound (grammar : Grammar) (first : FirstSets)
    (precision : Precision) (state : State) : Prop where
  regular : state.Regular grammar
  closed : state.Closed grammar first precision.tracksContexts
  snug : state.Snug grammar
  blank : precision = .lr0 → ∀ item terminal,
    ¬ state.HasContext item terminal

theorem Sound.alike {grammar : Grammar} {first : FirstSets}
    {precision : Precision} {old new : State}
    (sound : old.Sound grammar first precision) (alike : old.Alike new) :
    new.Sound grammar first precision := by
  constructor
  · exact alike.regular sound.regular
  · exact alike.closed sound.closed
  · exact alike.snug sound.snug
  · intro lr0 item terminal has
    exact sound.blank lr0 item terminal (alike.hasContext_iff.mp has)

end State

namespace Collecting

variable {grammar : Grammar} {first : FirstSets} {precision : Precision}
  {collecting : Collecting}

/-- The start state of a collection. -/
def startState (grammar : Grammar) (first : FirstSets)
    (precision : Precision) : State :=
  ((State.ofCores none
    [Configuration.ofItem .goal
      (if precision.tracksContexts then .singleton Terminal.endOfInput
        else ∅)]).close grammar first precision.tracksContexts).1

/-- Every way to make or change a state keeps the property. -/
structure Keeps (grammar : Grammar) (first : FirstSets)
    (precision : Precision) (good : State → Prop) : Prop where
  alike : ∀ old new : State, old.Alike new → good old → good new
  start : good (startState grammar first precision)
  fresh : ∀ (source : State) (symbol : Symbol),
    source.Sound grammar first precision → good source →
      good (freshState grammar first precision source symbol)
  joined : precision = .pager → ∀ (source target : State) (symbol : Symbol),
    source.Sound grammar first precision → good source →
    target.Sound grammar first precision → good target →
    target.Matches grammar (source.successorCores grammar true symbol) →
    weaklyCompatible (target.coreContexts.zip
      ((source.successorCores grammar true symbol).map
        Configuration.context)) = true →
      good (target.joined grammar first
        (source.successorCores grammar true symbol))

theorem snug_close_ofCores (wellFormed : grammar.WellFormed)
    (exact : first.Exact grammar) {entry : Option Symbol}
    {cores : List Configuration} {contexts : Bool}
    (regular : (State.ofCores entry cores).Regular grammar) :
    ((State.ofCores entry cores).close grammar first contexts).1.Snug
      grammar :=
  (State.snug_ofCores entry cores).close wellFormed exact regular

/-- Without lookaheads, closing brings none in. -/
theorem blank_close {state : State}
    (blank : ∀ item terminal, ¬ state.HasContext item terminal) :
    ∀ item terminal,
      ¬ (state.close grammar first false).1.HasContext item terminal := by
  have bounds : ClosedBounds grammar first false (fun _ => True)
      fun _ _ => False := by
    intro item nonterminal tail rule context _ _ _ _
    refine ⟨trivial, ?_⟩
    intro terminal member
    exact Closing.not_mem_generated member
  have within := @State.close_within grammar first false state _ _ bounds (by
    intro index inside
    refine ⟨trivial, ?_⟩
    intro terminal member
    exact blank _ terminal ⟨index, inside, rfl, member⟩)
  intro item terminal has
  obtain ⟨index, inside, -, member⟩ := has
  exact (within index inside).2 terminal member

theorem sound_close_ofCores (wellFormed : grammar.WellFormed)
    (unused : grammar.GoalUnused) (exact : first.Exact grammar)
    {entry : Option Symbol} {cores : List Configuration}
    (regular : (State.ofCores entry cores).Regular grammar)
    (blank : precision = .lr0 → ∀ item terminal,
      ¬ State.Arrives cores item terminal) :
    ((State.ofCores entry cores).close grammar first
      precision.tracksContexts).1.Sound grammar first precision := by
  constructor
  · exact regular.close wellFormed unused
  · exact State.close_closed wellFormed exact
  · exact snug_close_ofCores wellFormed exact regular
  · intro lr0
    subst lr0
    apply blank_close
    intro item terminal has
    exact blank rfl item terminal (State.hasContext_ofCores.mp has)

theorem regular_goalCore (context : TerminalSet) :
    (State.ofCores none [Configuration.ofItem .goal context]).Regular
      grammar := by
  apply State.regular_ofCores
  · simp
  · intro configuration member
    rw [List.mem_singleton] at member
    rw [member]
    exact Or.inl rfl
  · intro configuration member
    rw [List.mem_singleton] at member
    rw [member]
    rfl

theorem not_arrives_blank {source : State} {symbol : Symbol}
    (lr0 : precision = .lr0) (item : Item) (terminal : Nat) :
    ¬ State.Arrives (source.successorCores grammar precision.tracksContexts
      symbol) item terminal := by
  subst lr0
  exact State.not_arrives_successorCores

/-- All states of a collection are sound. -/
theorem keeps_sound (wellFormed : grammar.WellFormed)
    (unused : grammar.GoalUnused) (exact : first.Exact grammar) :
    Keeps grammar first precision
      (State.Sound grammar first precision) := by
  constructor
  · intro old new alike sound
    exact sound.alike alike
  · apply sound_close_ofCores wellFormed unused exact (regular_goalCore _)
    intro lr0 item terminal arrives
    subst lr0
    obtain ⟨configuration, member, -, inContext⟩ := arrives
    rw [List.mem_singleton] at member
    rw [member] at inContext
    exact TerminalSet.not_mem_empty terminal inContext
  · intro source symbol sound _
    exact sound_close_ofCores wellFormed unused exact
      (State.regular_ofSuccessorCores sound.regular.distinct)
      not_arrives_blank
  · intro pager source target symbol _ _ sound _ matching _
    have joined := matching.joined wellFormed unused exact
      sound.closed.itemsClosed sound.snug
    subst pager
    constructor
    · exact joined.regular
    · exact joined.closed
    · exact joined.snug
    · intro lr0
      cases lr0

/-- The states of a collection are sound and have the property. -/
def AllGood (grammar : Grammar) (first : FirstSets) (precision : Precision)
    (good : State → Prop) (collecting : Collecting) : Prop :=
  ∀ number < collecting.automaton.size,
    (collecting.automaton.state number).Sound grammar first precision ∧
      good (collecting.automaton.state number)

theorem Provides.allGood (wellFormed : grammar.WellFormed)
    (unused : grammar.GoalUnused) (exact : first.Exact grammar)
    {good : State → Prop} (keeps : Keeps grammar first precision good)
    {source target : Nat} {symbol : Symbol} {provided : Collecting}
    (inside : source < collecting.automaton.size)
    (allGood : collecting.AllGood grammar first precision good)
    (provides : Provides grammar first precision source symbol collecting
      target provided) :
    provided.AllGood grammar first precision good := by
  have soundKeeps : Keeps grammar first precision
      (State.Sound grammar first precision) :=
    keeps_sound wellFormed unused exact
  obtain ⟨sound, sourceGood⟩ := allGood source inside
  cases provides with
  | kept => exact allGood
  | joined _ targetInside matching pager weakly _ =>
      obtain ⟨targetSound, targetGood⟩ := allGood target targetInside
      intro number member
      rw [Automaton.size_modify] at member
      by_cases same : number = target
      · subst same
        rw [Automaton.state_modify_self member]
        have tracks : precision.tracksContexts = true := by
          rw [pager]
          rfl
        rw [arriving, tracks] at matching weakly ⊢
        exact ⟨soundKeeps.joined pager _ _ symbol sound sound targetSound
            targetSound matching weakly,
          keeps.joined pager _ _ symbol sound sourceGood targetSound
            targetGood matching weakly⟩
      · rw [Automaton.state_modify_ne same]
        exact allGood number member
  | fresh =>
      intro number member
      rcases Automaton.lt_or_eq_of_lt_size_add member with old | rfl
      · rw [Automaton.state_add_of_lt old]
        exact allGood number old
      · rw [Automaton.state_add_size]
        exact ⟨soundKeeps.fresh _ symbol sound sound,
          keeps.fresh _ symbol sound sourceGood⟩

theorem AllGood.relink {good : State → Prop}
    (keeps : Keeps grammar first precision good)
    (allGood : collecting.AllGood grammar first precision good)
    (source : Nat) (symbol : Symbol) (target : Nat) :
    ({ collecting with
      automaton := collecting.automaton.relink source symbol
        target } : Collecting).AllGood grammar first precision good := by
  intro number member
  rw [Automaton.size_relink] at member
  obtain ⟨sound, isGood⟩ := allGood number member
  have alike := collecting.automaton.alike_relink source symbol target number
  exact ⟨sound.alike alike, keeps.alike _ _ alike isGood⟩

/-- The state has been expanded before. -/
def Expanded (collecting : Collecting) (number : Nat) : Prop :=
  collecting.expanded.getD number false = true

/-- Transitions are made and lookaheads pushed, except for states that wait
and for exempted transitions. -/
structure Consistent (grammar : Grammar) (exempt : Nat → Symbol → Prop)
    (collecting : Collecting) : Prop where
  framed : collecting.automaton.Framed grammar
  sizes : collecting.expanded.size = collecting.automaton.size
  waiting_lt : ∀ number ∈ collecting.queue.waiting,
    number < collecting.automaton.size
  unexpanded : ∀ number < collecting.automaton.size,
    ¬ collecting.Expanded number →
      number ∈ collecting.queue.waiting ∧
        (collecting.automaton.state number).successors = []
  total : ∀ number < collecting.automaton.size, collecting.Expanded number →
    ∀ symbol ∈ (collecting.automaton.state number).scannedSymbols grammar,
      ¬ exempt number symbol →
        ∃ target, (collecting.automaton.state number).successor? symbol =
          some target
  feeds : ∀ number symbol target,
    (collecting.automaton.state number).successor? symbol = some target →
      number ∉ collecting.queue.waiting → ¬ exempt number symbol →
        Automaton.Feeds grammar (collecting.automaton.state number) symbol
          (collecting.automaton.state target)

theorem Consistent.weaken {exempt more : Nat → Symbol → Prop}
    (consistent : collecting.Consistent grammar exempt)
    (subset : ∀ number symbol, exempt number symbol → more number symbol) :
    collecting.Consistent grammar more := by
  constructor
  · exact consistent.framed
  · exact consistent.sizes
  · exact consistent.waiting_lt
  · exact consistent.unexpanded
  · intro number inside expanded symbol scans notExempt
    apply consistent.total number inside expanded symbol scans
    intro exempted
    exact notExempt (subset number symbol exempted)
  · intro number symbol target edge quiet notExempt
    apply consistent.feeds number symbol target edge quiet
    intro exempted
    exact notExempt (subset number symbol exempted)

/-- What a transition needs of its target. -/
structure Ready (grammar : Grammar) (source : Nat) (symbol : Symbol)
    (target : Nat) (collecting : Collecting) : Prop where
  source_lt : source < collecting.automaton.size
  target_lt : target < collecting.automaton.size
  expanded : collecting.Expanded source
  scans : symbol ∈ (collecting.automaton.state source).scannedSymbols grammar
  core : (collecting.automaton.state target).coreItems =
    (collecting.automaton.state source).successorItems grammar symbol
  feeds : source ∉ collecting.queue.waiting →
    Automaton.Feeds grammar (collecting.automaton.state source) symbol
      (collecting.automaton.state target)

theorem feeds_of_arrives {source target : State} {symbol : Symbol}
    (covers : ∀ item terminal,
      State.Arrives (source.successorCores grammar true symbol) item
        terminal → target.HasContext item terminal) :
    Automaton.Feeds grammar source symbol target := by
  intro item terminal has scanned
  apply covers
  exact State.arrives_successorCores.mpr ⟨item, has, scanned, rfl⟩

theorem feeds_of_blank {source target : State} {symbol : Symbol}
    (blank : ∀ item terminal, ¬ source.HasContext item terminal) :
    Automaton.Feeds grammar source symbol target := by
  intro item terminal has
  exact absurd has (blank item terminal)

theorem eq_lr0_or_tracks (precision : Precision) :
    precision = .lr0 ∨ precision.tracksContexts = true := by
  cases precision with
  | lr0 => exact Or.inl rfl
  | canonical => exact Or.inr rfl
  | pager => exact Or.inr rfl

theorem feeds_of_covers {source target : State} {symbol : Symbol}
    (sound : source.Sound grammar first precision)
    (covers : ∀ item terminal,
      State.Arrives (source.successorCores grammar precision.tracksContexts
        symbol) item terminal → target.HasContext item terminal) :
    Automaton.Feeds grammar source symbol target := by
  rcases eq_lr0_or_tracks precision with lr0 | tracks
  · exact feeds_of_blank (sound.blank lr0)
  · rw [tracks] at covers
    exact feeds_of_arrives covers

theorem coreItems_freshState {source : State} {symbol : Symbol}
    (distinct : source.Distinct) :
    (freshState grammar first precision source symbol).coreItems =
      source.successorItems grammar symbol := by
  have regular : (State.ofCores (some symbol) (source.successorCores grammar
      precision.tracksContexts symbol)).Regular grammar :=
    State.regular_ofSuccessorCores distinct
  rw [freshState, State.close_coreItems regular.coreCount_le,
    State.coreItems_ofCores, State.items_successorCores]

theorem successors_freshState {source : State} {symbol : Symbol} :
    (freshState grammar first precision source symbol).successors = [] := by
  rw [freshState, State.close_extends.frame]
  rfl

section Steps

variable {exempt : Nat → Symbol → Prop} {source target : Nat}
  {symbol : Symbol} {provided : Collecting}
  (wellFormed : grammar.WellFormed) (unused : grammar.GoalUnused)
  (exact : first.Exact grammar)

theorem items_of_matches {cores : State}
    (matching : cores.Matches grammar
      (collecting.arriving grammar precision source symbol)) :
    cores.coreItems =
      (collecting.automaton.state source).successorItems grammar symbol := by
  rw [matching.items, arriving, State.items_successorCores]

include wellFormed unused exact in
theorem joined_of_good
    (allGood : collecting.AllGood grammar first precision fun _ => True)
    (inside : target < collecting.automaton.size)
    (matching : (collecting.automaton.state target).Matches grammar
      (collecting.arriving grammar precision source symbol)) :
    State.Joined grammar first
      (collecting.arriving grammar precision source symbol)
      (collecting.automaton.state target)
      ((collecting.automaton.state target).joined grammar first
        (collecting.arriving grammar precision source symbol)) := by
  have sound := (allGood target inside).1
  exact matching.joined wellFormed unused exact sound.closed.itemsClosed
    sound.snug

include wellFormed unused exact in
theorem sameFrame_joined
    (allGood : collecting.AllGood grammar first precision fun _ => True)
    (inside : target < collecting.automaton.size)
    (matching : (collecting.automaton.state target).Matches grammar
      (collecting.arriving grammar precision source symbol)) :
    collecting.automaton.SameFrame
      (collecting.automaton.modify target fun _ =>
        (collecting.automaton.state target).joined grammar first
          (collecting.arriving grammar precision source symbol)) := by
  have joined :=
    joined_of_good wellFormed unused exact allGood inside matching
  apply Automaton.SameFrame.modify
  · exact joined.sameItems
  · rw [joined.links]

include wellFormed unused exact in
theorem Provides.sameItems
    (allGood : collecting.AllGood grammar first precision fun _ => True)
    {number : Nat} (inside : number < collecting.automaton.size)
    (provides : Provides grammar first precision source symbol collecting
      target provided) :
    (collecting.automaton.state number).SameItems
      (provided.automaton.state number) := by
  cases provides with
  | kept => exact .refl _
  | joined _ targetInside matching =>
      exact (sameFrame_joined wellFormed unused exact allGood targetInside
        matching).sameItems number inside
  | fresh =>
      dsimp only
      rw [Automaton.state_add_of_lt inside]
      exact .refl _

include wellFormed unused exact in
theorem Provides.ready
    (allGood : collecting.AllGood grammar first precision fun _ => True)
    (consistent : collecting.Consistent grammar exempt)
    (inside : source < collecting.automaton.size)
    (expanded : collecting.Expanded source)
    (scans : symbol ∈
      (collecting.automaton.state source).scannedSymbols grammar)
    (provides : Provides grammar first precision source symbol collecting
      target provided) :
    provided.Ready grammar source symbol target := by
  obtain ⟨sound, -⟩ := allGood source inside
  cases provides with
  | kept _ targetInside matching covers =>
      constructor
      · exact inside
      · exact targetInside
      · exact expanded
      · exact scans
      · exact items_of_matches matching
      · intro _
        exact feeds_of_covers sound covers
  | joined _ targetInside matching pager weakly grows =>
      have joined :=
        joined_of_good wellFormed unused exact allGood targetInside matching
      have frame :=
        sameFrame_joined wellFormed unused exact allGood targetInside matching
      constructor
      · exact frame.size.symm ▸ inside
      · exact frame.size.symm ▸ targetInside
      · exact expanded
      · show symbol ∈ ((collecting.automaton.modify target _).state
          _).scannedSymbols grammar
        rw [(frame.sameItems source inside).mem_scannedSymbols]
        exact scans
      · show ((collecting.automaton.modify target _).state _).coreItems =
          ((collecting.automaton.modify target _).state _).successorItems
            grammar symbol
        rw [(frame.sameItems target targetInside).coreItems,
          (frame.sameItems source inside).successorItems]
        exact items_of_matches matching
      · intro quiet
        -- A state that feeds itself waits again when it has grown.
        have different : source ≠ target := by
          intro same
          subst same
          have before : collecting.expanded.getD source false = true :=
            expanded
          dsimp only at quiet
          rw [if_pos before] at quiet
          exact quiet (WorkQueue.mem_push.mpr (Or.inr rfl))
        dsimp only
        rw [Automaton.state_modify_ne different,
          Automaton.state_modify_self targetInside]
        apply feeds_of_covers sound
        intro item terminal arrives
        have inKernel : item.InKernel := by
          obtain ⟨configuration, member, rfl, -⟩ := arrives
          obtain ⟨index, -, -, rfl⟩ := State.mem_successorCores.mp member
          exact Item.inKernel_advance _
        exact (joined.core item terminal inKernel).mpr (Or.inr arrives)
  | fresh refuses =>
      have coreItems : (freshState grammar first precision
            (collecting.automaton.state source) symbol).coreItems =
          (collecting.automaton.state source).successorItems grammar symbol :=
        coreItems_freshState sound.regular.distinct
      constructor
      · dsimp only
        rw [Automaton.size_add]
        exact Nat.lt_succ_of_lt inside
      · dsimp only
        rw [Automaton.size_add]
        exact Nat.lt_succ_self _
      · show (collecting.expanded.push false).getD source false = true
        have bound : source < collecting.expanded.size :=
          consistent.sizes.symm ▸ inside
        have old := expanded
        simp only [Expanded, Array.getD_eq_getD_getElem?] at old ⊢
        rwa [Array.getElem?_push_lt bound,
          ← Array.getElem?_eq_getElem bound]
      · dsimp only
        rw [Automaton.state_add_of_lt inside]
        exact scans
      · dsimp only
        rw [Automaton.state_add_size, Automaton.state_add_of_lt inside]
        exact coreItems
      · intro _
        dsimp only
        rw [Automaton.state_add_size, Automaton.state_add_of_lt inside]
        apply feeds_of_covers sound
        intro item terminal arrives
        apply State.close_extends.hasContext
        exact State.hasContext_ofCores.mpr arrives

/-- A state whose contexts have grown waits again. -/
theorem Consistent.grow {grown : State}
    (consistent : collecting.Consistent grammar exempt)
    (targetInside : target < collecting.automaton.size)
    (frame : collecting.automaton.SameFrame
      (collecting.automaton.modify target fun _ => grown))
    (framed : (collecting.automaton.modify target
      fun _ => grown).Framed grammar)
    (grows : ∀ item terminal,
      (collecting.automaton.state target).HasContext item terminal →
        grown.HasContext item terminal) :
    Consistent grammar exempt
      { collecting with
        automaton := collecting.automaton.modify target fun _ => grown
        queue :=
          if collecting.expanded.getD target false then
            collecting.queue.push target
          else collecting.queue } := by
  -- What waited still waits.
  have keeps : ∀ number ∈ collecting.queue.waiting, number ∈
      (if collecting.expanded.getD target false then
        collecting.queue.push target else collecting.queue).waiting := by
    intro number waits
    split
    · exact WorkQueue.mem_push.mpr (Or.inl waits)
    · exact waits
  constructor
  · exact framed
  · exact consistent.sizes.trans frame.size.symm
  · intro number waits
    dsimp only at waits ⊢
    rw [frame.size]
    split at waits
    · rcases WorkQueue.mem_push.mp waits with old | rfl
      · exact consistent.waiting_lt number old
      · exact targetInside
    · exact consistent.waiting_lt number waits
  · intro number member unexpanded
    dsimp only at member ⊢
    rw [frame.size] at member
    obtain ⟨waits, bare⟩ := consistent.unexpanded number member unexpanded
    rw [frame.successors number member]
    exact ⟨keeps number waits, bare⟩
  · intro number member expanded scanned scans notExempt
    dsimp only at member scans ⊢
    rw [frame.size] at member
    rw [(frame.sameItems number member).mem_scannedSymbols] at scans
    rw [frame.successor?_eq]
    exact consistent.total number member expanded scanned scans notExempt
  · intro number scanned next edge quiet notExempt
    dsimp only at edge quiet ⊢
    rw [frame.successor?_eq] at edge
    have member := Automaton.lt_size_of_successor edge
    have oldQuiet : number ∉ collecting.queue.waiting := fun waits =>
      quiet (keeps number waits)
    have feeds :=
      consistent.feeds number scanned next edge oldQuiet notExempt
    -- The grown state waits, so the source of the edge is another one.
    have different : number ≠ target := by
      intro same
      subst same
      by_cases expanded : collecting.expanded.getD number false = true
      · rw [if_pos expanded] at quiet
        exact quiet (WorkQueue.mem_push.mpr (Or.inr rfl))
      · exact oldQuiet (consistent.unexpanded number member expanded).1
    rw [Automaton.state_modify_ne different]
    intro item terminal has scansIt
    have arrived := feeds item terminal has scansIt
    by_cases same : next = target
    · subst same
      rw [Automaton.state_modify_self targetInside]
      exact grows _ _ arrived
    · rwa [Automaton.state_modify_ne same]

/-- A state without transitions that is added waits. -/
theorem Consistent.addState {added : State}
    (consistent : collecting.Consistent grammar exempt)
    (framed : (collecting.automaton.add added).Framed grammar)
    (bare : added.successors = []) :
    Consistent grammar exempt
      { automaton := collecting.automaton.add added
        queue := collecting.queue.push collecting.automaton.size
        expanded := collecting.expanded.push false } := by
  have size : (collecting.automaton.add added).size =
      collecting.automaton.size + 1 := Automaton.size_add _
  have flag (number : Nat) : (collecting.expanded.push false).getD number
      false = collecting.expanded.getD number false := by
    simp only [Array.getD_eq_getD_getElem?, Array.getElem?_push]
    split
    · rename_i same
      simp [same]
    · rfl
  have old {number : Nat} (member : number < collecting.automaton.size) :=
    @Automaton.state_add_of_lt collecting.automaton number added member
  constructor
  · exact framed
  · dsimp only
    rw [Array.size_push, size, consistent.sizes]
  · intro number waits
    dsimp only at waits ⊢
    rw [size]
    rcases WorkQueue.mem_push.mp waits with before | rfl
    · exact Nat.lt_succ_of_lt (consistent.waiting_lt number before)
    · exact Nat.lt_succ_self _
  · intro number member unexpanded
    rcases Automaton.lt_or_eq_of_lt_size_add member with before | rfl
    · dsimp only
      rw [Expanded, flag] at unexpanded
      obtain ⟨waits, oldBare⟩ :=
        consistent.unexpanded number before unexpanded
      rw [old before]
      exact ⟨WorkQueue.mem_push.mpr (Or.inl waits), oldBare⟩
    · rw [Automaton.state_add_size]
      exact ⟨WorkQueue.mem_push.mpr (Or.inr rfl), bare⟩
  · intro number member expanded scanned scans notExempt
    dsimp only at scans ⊢
    rw [Expanded, flag] at expanded
    rcases Automaton.lt_or_eq_of_lt_size_add member with before | rfl
    · rw [old before] at scans ⊢
      exact consistent.total number before expanded scanned scans notExempt
    · rw [Array.getD_eq_getD_getElem?, Array.getElem?_eq_none
        (consistent.sizes ▸ Nat.le_refl _)] at expanded
      cases expanded
  · intro number scanned next edge quiet notExempt
    dsimp only at edge quiet ⊢
    rw [Automaton.successor?_add bare] at edge
    rw [old (Automaton.lt_size_of_successor edge),
      old (consistent.framed.bounded _ _ _ edge)]
    apply consistent.feeds number scanned next edge _ notExempt
    intro waits
    exact quiet (WorkQueue.mem_push.mpr (Or.inl waits))

include wellFormed unused exact in
theorem Provides.consistent
    (allGood : collecting.AllGood grammar first precision fun _ => True)
    (consistent : collecting.Consistent grammar exempt)
    (inside : source < collecting.automaton.size)
    (provides : Provides grammar first precision source symbol collecting
      target provided) :
    provided.Consistent grammar exempt := by
  obtain ⟨sound, -⟩ := allGood source inside
  cases provides with
  | kept => exact consistent
  | joined _ targetInside matching =>
      have joined :=
        joined_of_good wellFormed unused exact allGood targetInside matching
      have frame :=
        sameFrame_joined wellFormed unused exact allGood targetInside matching
      apply consistent.grow targetInside frame _ joined.grows
      apply consistent.framed.of_sameFrame frame
      intro number member
      by_cases same : number = target
      · subst same
        rw [Automaton.state_modify_self member]
        exact joined.regular.originators
      · rw [Automaton.state_modify_ne same]
        exact (allGood number member).1.regular.originators
  | fresh =>
      have fresh := (keeps_sound wellFormed unused exact).fresh _ symbol sound
        sound
      exact consistent.addState
        (consistent.framed.add fresh.regular fresh.closed.itemsClosed
          successors_freshState) successors_freshState

/-- Once linked, the transition is no longer exempted. -/
theorem Ready.relink (ready : collecting.Ready grammar source symbol target)
    (consistent : collecting.Consistent grammar fun number scanned =>
      exempt number scanned ∨ number = source ∧ scanned = symbol) :
    ({ collecting with
      automaton := collecting.automaton.relink source symbol
        target } : Collecting).Consistent grammar exempt := by
  have alike := collecting.automaton.alike_relink source symbol target
  have size := collecting.automaton.size_relink source symbol target
  have successor {number : Nat} {scanned : Symbol} :=
    @Automaton.successor?_relink collecting.automaton source target number
      symbol scanned ready.source_lt
  constructor
  · exact consistent.framed.relink ready.source_lt ready.target_lt ready.scans
      ready.core
  · exact consistent.sizes.trans size.symm
  · intro number waits
    exact size.symm ▸ consistent.waiting_lt number waits
  · intro number member unexpanded
    dsimp only at member ⊢
    rw [size] at member
    obtain ⟨waits, bare⟩ := consistent.unexpanded number member unexpanded
    refine ⟨waits, ?_⟩
    have different : number ≠ source := by
      intro same
      subst same
      exact unexpanded ready.expanded
    rw [Automaton.successors_relink_ne different, bare]
  · intro number member expanded scanned scans notExempt
    dsimp only at member scans ⊢
    rw [size] at member
    rw [(alike number).sameItems.mem_scannedSymbols] at scans
    rw [successor]
    split
    · exact ⟨target, rfl⟩
    · rename_i other
      apply consistent.total number member expanded scanned scans
      intro either
      exact either.elim notExempt other
  · intro number scanned next edge quiet notExempt
    dsimp only at edge quiet ⊢
    rw [successor] at edge
    intro item terminal has scansIt
    rw [(alike number).hasContext_iff] at has
    rw [(alike next).hasContext_iff]
    split at edge
    · rename_i both
      obtain ⟨rfl, rfl⟩ := both
      cases edge
      exact ready.feeds quiet item terminal has scansIt
    · rename_i other
      refine consistent.feeds number scanned next edge quiet ?_ item terminal
        has scansIt
      intro either
      exact either.elim notExempt other

end Steps

end Collecting

end LRTables
