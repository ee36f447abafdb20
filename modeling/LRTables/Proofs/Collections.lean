import LRTables.Proofs.Expansions

/-!
# Collections of states

A run of the search keeps its invariant, so the automaton that it yields is
framed, total and, with lookaheads, saturated.
-/

namespace LRTables

namespace Collecting

variable {grammar : Grammar} {first : FirstSets} {precision : Precision}
  {collecting : Collecting}

/-- The invariant of a search between two expansions. -/
structure Resting (grammar : Grammar) (first : FirstSets)
    (precision : Precision) (good : State → Prop)
    (collecting : Collecting) : Prop where
  allGood : collecting.AllGood grammar first precision good
  consistent : collecting.Consistent grammar fun _ _ => False

/-- The invariant of a search that is making the transitions of a state. -/
structure Expanding (grammar : Grammar) (first : FirstSets)
    (precision : Precision) (good : State → Prop) (source : Nat)
    (pending : List Symbol) (collecting : Collecting) : Prop where
  allGood : collecting.AllGood grammar first precision good
  consistent : collecting.Consistent grammar fun number symbol =>
    number = source ∧ symbol ∈ pending
  source_lt : source < collecting.automaton.size
  expanded : collecting.Expanded source
  scans : ∀ symbol ∈ pending,
    symbol ∈ (collecting.automaton.state source).scannedSymbols grammar

/-- A state taken from the queue, about to be expanded. -/
def taken (collecting : Collecting) (queue : WorkQueue Nat) (number : Nat) :
    Collecting :=
  { collecting with
    queue
    expanded := collecting.expanded.setIfInBounds number true }

theorem expand_eq {queue : WorkQueue Nat} {number : Nat} :
    expand grammar first precision { collecting with queue } number =
      ((collecting.automaton.state number).scannedSymbols grammar).foldl
        (addTransition grammar first precision number)
        (collecting.taken queue number) :=
  rfl

theorem AllGood.weaken {good : State → Prop}
    (allGood : collecting.AllGood grammar first precision good) :
    collecting.AllGood grammar first precision fun _ => True :=
  fun number inside => ⟨(allGood number inside).1, trivial⟩

theorem Resting.take {good : State → Prop} {queue : WorkQueue Nat}
    {number : Nat}
    (resting : collecting.Resting grammar first precision good)
    (popped : collecting.queue.pop = some (number, queue)) :
    (collecting.taken queue number).Expanding grammar first precision good
      number
      ((collecting.automaton.state number).scannedSymbols grammar) := by
  obtain ⟨allGood, consistent⟩ := resting
  have waiting := WorkQueue.waiting_of_pop popped
  have inside : number < collecting.automaton.size :=
    consistent.waiting_lt number (waiting ▸ List.mem_cons_self)
  have flag {other : Nat} :
      (collecting.taken queue number).Expanded other ↔
        other = number ∨ collecting.Expanded other := by
    simp only [taken, Expanded, Array.getD_eq_getD_getElem?,
      Array.getElem?_setIfInBounds]
    by_cases same : number = other
    · subst same
      have bound : number < collecting.expanded.size :=
        consistent.sizes.symm ▸ inside
      simp [bound]
    · simp [same, Ne.symm same]
  constructor
  · exact allGood
  · constructor
    · exact consistent.framed
    · rw [taken, Array.size_setIfInBounds]
      exact consistent.sizes
    · intro other waits
      exact consistent.waiting_lt other
        (waiting ▸ List.mem_cons_of_mem _ waits)
    · intro other member unexpanded
      rw [flag, not_or] at unexpanded
      obtain ⟨waits, bare⟩ :=
        consistent.unexpanded other member unexpanded.2
      rw [waiting, List.mem_cons] at waits
      exact ⟨waits.resolve_left unexpanded.1, bare⟩
    · intro other member expanded symbol scans notExempt
      rcases flag.mp expanded with rfl | before
      · exact absurd ⟨rfl, scans⟩ notExempt
      · exact consistent.total other member before symbol scans id
    · intro other symbol target edge quiet notExempt
      by_cases same : other = number
      · subst same
        intro item terminal has scanned
        refine absurd ⟨rfl, ?_⟩ notExempt
        exact State.mem_scannedSymbols.mpr ⟨item, has.mem_items, scanned⟩
      · apply consistent.feeds other symbol target edge _ id
        rw [waiting, List.mem_cons, not_or]
        exact ⟨same, quiet⟩
  · exact inside
  · exact flag.mpr (Or.inl rfl)
  · intro symbol scans
    exact scans

/-- One more transition is made: how its target is provided, and the invariant
before it is linked and after. -/
theorem Expanding.addTransition (wellFormed : grammar.WellFormed)
    (unused : grammar.GoalUnused) (exact : first.Exact grammar)
    {good : State → Prop} (keeps : Keeps grammar first precision good)
    {source : Nat} {symbol : Symbol} {pending : List Symbol}
    (expanding : collecting.Expanding grammar first precision good source
      (symbol :: pending)) :
    ∃ target provided,
      Provides grammar first precision source symbol collecting target
          provided ∧
        collecting.addTransition grammar first precision source symbol =
          { provided with
            automaton :=
              provided.automaton.relink source symbol target } ∧
        provided.Expanding grammar first precision good source
          (symbol :: pending) ∧
        provided.Ready grammar source symbol target ∧
        (collecting.addTransition grammar first precision source
          symbol).Expanding grammar first precision good source pending := by
  obtain ⟨allGood, consistent, inside, expanded, scans⟩ := expanding
  obtain ⟨target, provided, provides, equal⟩ :=
    @addTransition_provides grammar first precision collecting source symbol
      (fun number member => (allGood number member).1.regular)
      not_arrives_blank
  have ready := provides.ready wellFormed unused exact allGood.weaken
    consistent inside expanded (scans symbol List.mem_cons_self)
  have stillScans : ∀ other ∈ symbol :: pending, other ∈
      (provided.automaton.state source).scannedSymbols grammar := by
    intro other member
    rw [(provides.sameItems wellFormed unused exact allGood.weaken
      inside).mem_scannedSymbols]
    exact scans other member
  have providedGood :=
    provides.allGood wellFormed unused exact keeps inside allGood
  have providedConsistent := provides.consistent wellFormed unused exact
    allGood.weaken consistent inside
  refine ⟨target, provided, provides, equal,
    ⟨providedGood, providedConsistent, ready.source_lt, ready.expanded,
      stillScans⟩, ready, ?_⟩
  rw [equal]
  constructor
  · exact providedGood.relink keeps source symbol target
  · apply ready.relink
    apply providedConsistent.weaken
    intro number scanned exempted
    obtain ⟨same, member⟩ := exempted
    rcases List.mem_cons.mp member with isSymbol | later
    · exact Or.inr ⟨same, isSymbol⟩
    · exact Or.inl ⟨same, later⟩
  · dsimp only
    rw [Automaton.size_relink]
    exact ready.source_lt
  · exact ready.expanded
  · intro other member
    rw [(Automaton.alike_relink source symbol target
      source).sameItems.mem_scannedSymbols]
    exact stillScans other (List.mem_cons_of_mem _ member)

theorem Expanding.rest {good : State → Prop} {source : Nat}
    (expanding : collecting.Expanding grammar first precision good source
      []) :
    collecting.Resting grammar first precision good := by
  obtain ⟨allGood, consistent, -, -, -⟩ := expanding
  refine ⟨allGood, consistent.weaken ?_⟩
  intro number symbol exempted
  cases exempted.2

/-- What holds at rest and what holds while a state is expanded lead to each
other throughout a run. -/
structure Invariant (grammar : Grammar) (first : FirstSets)
    (precision : Precision) (rest : Collecting → Prop)
    (busy : Nat → List Symbol → Collecting → Prop) : Prop where
  take : ∀ collecting number queue,
    collecting.queue.pop = some (number, queue) → rest collecting →
      busy number
        ((collecting.automaton.state number).scannedSymbols grammar)
        (collecting.taken queue number)
  step : ∀ collecting source symbol pending,
    busy source (symbol :: pending) collecting →
      busy source pending
        (collecting.addTransition grammar first precision source symbol)
  finish : ∀ collecting source, busy source [] collecting → rest collecting

section Runs

variable {rest : Collecting → Prop}
  {busy : Nat → List Symbol → Collecting → Prop}

theorem Invariant.fold
    (keeps : Invariant grammar first precision rest busy) {source : Nat}
    {pending : List Symbol} (holds : busy source pending collecting) :
    rest (pending.foldl (addTransition grammar first precision source)
      collecting) := by
  induction pending generalizing collecting with
  | nil => exact keeps.finish collecting source holds
  | cons symbol pending ih =>
      exact ih (keeps.step collecting source symbol pending holds)

theorem Invariant.expand
    (keeps : Invariant grammar first precision rest busy)
    {queue : WorkQueue Nat} {number : Nat} (holds : rest collecting)
    (popped : collecting.queue.pop = some (number, queue)) :
    rest (expand grammar first precision { collecting with queue }
      number) := by
  rw [expand_eq]
  exact keeps.fold (keeps.take collecting number queue popped holds)

theorem Invariant.run (keeps : Invariant grammar first precision rest busy)
    {limit : Nat} {automaton : Automaton} (holds : rest collecting)
    (result : run grammar first precision limit collecting =
      some automaton) :
    ∃ final, rest final ∧ final.queue.waiting = [] ∧
      final.automaton = automaton := by
  induction limit generalizing collecting with
  | zero => cases result
  | succ limit ih =>
      rw [Collecting.run] at result
      split at result
      · rename_i none
        cases result
        exact ⟨collecting, holds, WorkQueue.pop_eq_none.mp none, rfl⟩
      · rename_i number queue popped
        exact ih (keeps.expand holds popped) result

/-- A run ends when a potential falls with each state that is taken and does
not rise with any transition. -/
theorem Invariant.run_isSome
    (keeps : Invariant grammar first precision rest busy)
    (potential : Collecting → Nat)
    (falls : ∀ collecting number queue,
      collecting.queue.pop = some (number, queue) → rest collecting →
        potential (collecting.taken queue number) < potential collecting)
    (stays : ∀ collecting source symbol pending,
      busy source (symbol :: pending) collecting →
        potential (collecting.addTransition grammar first precision source
          symbol) ≤ potential collecting)
    {limit : Nat} (holds : rest collecting)
    (enough : potential collecting < limit) :
    ∃ automaton, Collecting.run grammar first precision limit collecting =
      some automaton := by
  have fold : ∀ (pending : List Symbol) (source : Nat)
      (collecting : Collecting), busy source pending collecting →
        potential (pending.foldl (addTransition grammar first precision
          source) collecting) ≤ potential collecting := by
    intro pending source
    induction pending with
    | nil =>
        intro collecting _
        exact Nat.le_refl _
    | cons symbol pending ih =>
        intro collecting holds
        exact (ih _ (keeps.step collecting source symbol pending holds)).trans
          (stays collecting source symbol pending holds)
  induction limit generalizing collecting with
  | zero => exact absurd enough (Nat.not_lt_zero _)
  | succ limit ih =>
      rw [Collecting.run]
      split
      · exact ⟨_, rfl⟩
      · rename_i number queue popped
        apply ih (keeps.expand holds popped)
        have less := falls collecting number queue popped holds
        have notMore := fold _ number _
          (keeps.take collecting number queue popped holds)
        rw [expand_eq]
        omega

end Runs

theorem invariant_resting (wellFormed : grammar.WellFormed)
    (unused : grammar.GoalUnused) (exact : first.Exact grammar)
    {good : State → Prop} (keeps : Keeps grammar first precision good) :
    Invariant grammar first precision
      (Resting grammar first precision good)
      (Expanding grammar first precision good) := by
  constructor
  · intro collecting number queue popped resting
    exact resting.take popped
  · intro collecting source symbol pending expanding
    obtain ⟨_, _, _, _, _, _, after⟩ :=
      expanding.addTransition wellFormed unused exact keeps
    exact after
  · intro collecting source expanding
    exact expanding.rest

theorem coreItems_startState :
    (startState grammar first precision).coreItems = [.goal] := by
  rw [startState, State.close_coreItems (Nat.le_refl 1),
    State.coreItems_ofCores]
  rfl

theorem successors_startState :
    (startState grammar first precision).successors = [] := by
  rw [startState, State.close_extends.frame]
  rfl

theorem begin_eq : begin grammar first precision =
    { automaton := Automaton.empty.add (startState grammar first precision)
      queue := WorkQueue.empty.push Automaton.start
      expanded := #[false] } :=
  rfl

theorem resting_begin (wellFormed : grammar.WellFormed)
    (unused : grammar.GoalUnused) (exact : first.Exact grammar)
    {good : State → Prop} (keeps : Keeps grammar first precision good) :
    (begin grammar first precision).Resting grammar first precision good := by
  have sound : (startState grammar first precision).Sound grammar first
      precision := (keeps_sound wellFormed unused exact).start
  have size : (begin grammar first precision).automaton.size = 1 := rfl
  have state : (begin grammar first precision).automaton.state 0 =
      startState grammar first precision := rfl
  have edgeless (number : Nat) :
      ((begin grammar first precision).automaton.state number).successors =
        [] := by
    cases number with
    | zero => exact successors_startState
    | succ number =>
        rw [Automaton.state_of_size_le (by rw [size]; omega)]
        rfl
  have noEdge {number target : Nat} {symbol : Symbol} :
      ((begin grammar first precision).automaton.state number).successor?
        symbol ≠ some target := by
    rw [State.successor?, edgeless]
    intro found
    cases found
  have unexpanded (number : Nat) :
      ¬ (begin grammar first precision).Expanded number := by
    cases number with
    | zero =>
        intro expanded
        cases expanded
    | succ number =>
        intro expanded
        cases expanded
  constructor
  · intro number inside
    rw [size] at inside
    obtain rfl : number = 0 := by omega
    exact ⟨sound, keeps.start⟩
  · constructor
    · constructor
      · exact Nat.zero_lt_one
      · intro number
        rw [edgeless]
        exact List.nodup_nil
      · intro number symbol target edge
        exact absurd edge noEdge
      · exact coreItems_startState
      · intro number inside
        rw [size] at inside
        obtain rfl : number = 0 := by omega
        exact sound.regular
      · intro number inside
        rw [size] at inside
        obtain rfl : number = 0 := by omega
        exact sound.closed.itemsClosed
      · intro number symbol target edge
        exact absurd edge noEdge
      · intro number symbol target edge
        exact absurd edge noEdge
    · rfl
    · intro number waits
      rw [begin_eq] at waits
      rcases WorkQueue.mem_push.mp waits with old | rfl
      · cases old
      · exact Nat.zero_lt_one
    · intro number inside _
      rw [size] at inside
      obtain rfl : number = 0 := by omega
      refine ⟨?_, edgeless 0⟩
      rw [begin_eq]
      exact WorkQueue.mem_push.mpr (Or.inr rfl)
    · intro number _ expanded
      exact absurd expanded (unexpanded number)
    · intro number symbol target edge
      exact absurd edge noEdge

end Collecting

namespace Automaton

variable {grammar : Grammar} {first : FirstSets} {precision : Precision}

/-- What a finished search promises of its automaton. -/
structure Collected (grammar : Grammar) (first : FirstSets)
    (precision : Precision) (good : State → Prop)
    (automaton : Automaton) : Prop where
  framed : automaton.Framed grammar
  total : automaton.Total grammar
  states : ∀ number < automaton.size,
    (automaton.state number).Sound grammar first precision ∧
      good (automaton.state number)
  feeds : ∀ number symbol target,
    (automaton.state number).successor? symbol = some target →
      Feeds grammar (automaton.state number) symbol (automaton.state target)

/-- A search that rests with an empty queue is finished. -/
theorem collected_of_resting {collecting : Collecting} {good : State → Prop}
    (resting : collecting.Resting grammar first precision good)
    (empty : collecting.queue.waiting = []) :
    collecting.automaton.Collected grammar first precision good := by
  obtain ⟨allGood, consistent⟩ := resting
  have quiet (number : Nat) : number ∉ collecting.queue.waiting := by
    rw [empty]
    exact List.not_mem_nil
  constructor
  · exact consistent.framed
  · intro word number leads symbol scans
    have inside := consistent.framed.lt_size leads
    apply consistent.total number inside _ symbol scans id
    by_contra unexpanded
    exact quiet number (consistent.unexpanded number inside unexpanded).1
  · exact allGood
  · intro number symbol target edge
    exact consistent.feeds number symbol target edge (quiet number) id

theorem Collected.detach {automaton : Automaton} {good : State → Prop}
    (keeps : Collecting.Keeps grammar first precision good)
    (collected : automaton.Collected grammar first precision good) :
    automaton.detachUnreachable.Collected grammar first precision good := by
  have framed := collected.framed
  constructor
  · exact framed.detach
  · exact Total.detach framed collected.total
  · intro number inside
    rw [size_detach] at inside
    obtain ⟨sound, isGood⟩ := collected.states number inside
    have alike := automaton.alike_detach number
    exact ⟨sound.alike alike, keeps.alike _ _ alike isGood⟩
  · intro number symbol target edge
    rw [successor?_detach] at edge
    split at edge
    · intro item terminal has scanned
      rw [(automaton.alike_detach number).hasContext_iff] at has
      rw [(automaton.alike_detach target).hasContext_iff]
      exact collected.feeds number symbol target edge item terminal has scanned
    · cases edge

theorem collected_of_collect? (wellFormed : grammar.WellFormed)
    (unused : grammar.GoalUnused) (exact : first.Exact grammar)
    {good : State → Prop}
    (keeps : Collecting.Keeps grammar first precision good)
    {automaton : Automaton}
    (result : collect? grammar first precision = some automaton) :
    automaton.Collected grammar first precision good := by
  rw [collect?, Option.map_eq_some_iff] at result
  obtain ⟨whole, found, rfl⟩ := result
  obtain ⟨final, resting, empty, rfl⟩ :=
    (Collecting.invariant_resting wellFormed unused exact keeps).run
      (Collecting.resting_begin wellFormed unused exact keeps) found
  exact (collected_of_resting resting empty).detach keeps

/-- The goal has the end of input among its lookaheads. -/
theorem keeps_goalContext (wellFormed : grammar.WellFormed)
    (unused : grammar.GoalUnused) (exact : first.Exact grammar)
    (tracks : precision.tracksContexts = true) :
    Collecting.Keeps grammar first precision fun state =>
      .goal ∈ state.coreItems →
        state.HasContext .goal Terminal.endOfInput := by
  -- The goal is never the result of advancing an item.
  have moved (source : State) (symbol : Symbol) :
      Item.goal ∉ source.successorItems grammar symbol := by
    intro member
    obtain ⟨origin, -, -, equal⟩ := State.mem_successorItems.mp member
    have dots : 0 = origin.dot + 1 := congrArg Item.dot equal
    omega
  constructor
  · intro old new alike holds core
    rw [alike.sameItems.coreItems] at core
    exact alike.hasContext_iff.mpr (holds core)
  · intro _
    apply State.close_extends.hasContext
    rw [State.hasContext_ofCores, tracks]
    exact ⟨_, List.mem_singleton_self _, rfl,
      TerminalSet.mem_singleton.mpr rfl⟩
  · intro source symbol sound _ core
    rw [Collecting.coreItems_freshState sound.regular.distinct] at core
    exact absurd core (moved source symbol)
  · intro _ source target symbol _ _ targetSound holds matching _ core
    have joined := matching.joined wellFormed unused exact
      targetSound.closed.itemsClosed targetSound.snug
    rw [joined.sameItems.coreItems] at core
    exact joined.grows _ _ (holds core)

/-- An automaton with lookaheads holds all that its words admit. -/
theorem saturated_of_collect? (wellFormed : grammar.WellFormed)
    (unused : grammar.GoalUnused) (exact : first.Exact grammar)
    (tracks : precision.tracksContexts = true) {automaton : Automaton}
    (result : collect? grammar first precision = some automaton) :
    automaton.Saturated grammar first := by
  have collected := collected_of_collect? wellFormed unused exact
    (keeps_goalContext wellFormed unused exact tracks) result
  have framed := collected.framed
  constructor
  · apply (collected.states _ framed.positive).2
    rw [framed.start]
    exact List.mem_singleton_self _
  · intro word number leads
    have closed := (collected.states number (framed.lt_size leads)).1.closed
    rwa [tracks] at closed
  · intro word number _ symbol target edge
    exact collected.feeds number symbol target edge

end Automaton

end LRTables
