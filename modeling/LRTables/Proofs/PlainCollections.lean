import LRTables.Proofs.Parents
import LRTables.Proofs.Wirings

/-!
# Collections without lookaheads

A search without lookaheads makes a plain automaton, all of whose states are
reached from the start.
-/

namespace LRTables

/-- The entry of the state is the symbol in front of the dots of its core. -/
def State.Entered (grammar : Grammar) (state : State) : Prop :=
  ∀ item ∈ state.coreItems, 0 < item.dot →
    state.entry = (grammar.right item.rule)[item.dot - 1]?

namespace Collecting

variable {grammar : Grammar} {first : FirstSets} {collecting : Collecting}

/-- The automaton so far is plain, its states know their parents, and all of it
has been reached. -/
structure Laid (grammar : Grammar) (collecting : Collecting) : Prop where
  plain : collecting.automaton.Plain grammar
  parented : collecting.automaton.Parented
  reached : ∀ number < collecting.automaton.size,
    ∃ word, collecting.automaton.Leads word number

theorem unlinked_freshState {precision : Precision} {source : State}
    {symbol : Symbol} :
    Automaton.Unlinked
      (freshState grammar first precision source symbol) := by
  apply Automaton.Unlinked.close
  apply Automaton.unlinked_ofCores
  · intro configuration member
    obtain ⟨index, -, -, rfl⟩ := State.mem_successorCores.mp member
    rfl
  · intro configuration member
    obtain ⟨index, -, -, rfl⟩ := State.mem_successorCores.mp member
    rfl

theorem unlinked_startState {precision : Precision} :
    Automaton.Unlinked (startState grammar first precision) := by
  apply Automaton.Unlinked.close
  apply Automaton.unlinked_ofCores
  · intro configuration member
    rw [List.mem_singleton] at member
    rw [member]
    rfl
  · intro configuration member
    rw [List.mem_singleton] at member
    rw [member]
    rfl

theorem leads_add {automaton : Automaton} {added : State}
    {word : List Symbol} {number : Nat}
    (leads : automaton.Leads word number) :
    (automaton.add added).Leads word number := by
  induction leads with
  | start => exact .start
  | step _ edge ih =>
      refine .step ih ?_
      rw [Automaton.state_add_of_lt (Automaton.lt_size_of_successor edge)]
      exact edge

section Steps

variable {source target : Nat} {symbol : Symbol} {provided : Collecting}

theorem Provides.leads
    (provides : Provides grammar first .lr0 source symbol collecting target
      provided) {word : List Symbol} {number : Nat}
    (leads : collecting.automaton.Leads word number) :
    provided.automaton.Leads word number := by
  cases provides with
  | kept => exact leads
  | joined _ _ _ pager => cases pager
  | fresh => exact leads_add leads

theorem Provides.plain
    (provides : Provides grammar first .lr0 source symbol collecting target
      provided)
    (plain : collecting.automaton.Plain grammar)
    (framed : collecting.automaton.Framed grammar)
    (inside : source < collecting.automaton.size) :
    provided.automaton.Plain grammar := by
  cases provides with
  | kept => exact plain
  | joined _ _ _ pager => cases pager
  | fresh refuses =>
      apply plain.add framed unlinked_freshState
      intro number member same
      have distinct := (framed.regular source inside).distinct
      have matching : (collecting.automaton.state number).Matches grammar
          (collecting.arriving grammar .lr0 source symbol) := by
        constructor
        · exact framed.regular number member
        · rw [same, coreItems_freshState distinct, arriving,
            State.items_successorCores]
      have refused := (refuses number member matching).tracks
      cases refused

theorem Provides.parented
    (provides : Provides grammar first .lr0 source symbol collecting target
      provided)
    (parented : collecting.automaton.Parented)
    (framed : collecting.automaton.Framed grammar) :
    provided.automaton.Parented := by
  cases provides with
  | kept => exact parented
  | joined _ _ _ pager => cases pager
  | fresh =>
      exact parented.add framed.bounded unlinked_freshState.successors
        unlinked_freshState.parents

theorem Provides.lt_or_eq
    (provides : Provides grammar first .lr0 source symbol collecting target
      provided) {number : Nat}
    (inside : number < provided.automaton.size) :
    number < collecting.automaton.size ∨ number = target := by
  cases provides with
  | kept => exact Or.inl inside
  | joined _ _ _ pager => cases pager
  | fresh =>
      exact Automaton.lt_or_eq_of_lt_size_add inside

/-- Linking the provided target reaches all of the automaton. -/
theorem Laid.link (laid : collecting.Laid grammar)
    (framed : collecting.automaton.Framed grammar)
    (inside : source < collecting.automaton.size)
    (provides : Provides grammar first .lr0 source symbol collecting target
      provided)
    (providedFramed : provided.automaton.Framed grammar)
    (ready : provided.Ready grammar source symbol target) :
    Laid grammar
      { provided with
        automaton := provided.automaton.relink source symbol target } := by
  have plain := provides.plain laid.plain framed inside
  have leads {word : List Symbol} {number : Nat}
      (before : collecting.automaton.Leads word number) :
      (provided.automaton.relink source symbol target).Leads word number :=
    plain.leads_relink providedFramed ready.source_lt ready.target_lt
      ready.core (provides.leads before)
  constructor
  · exact plain.relink providedFramed ready.source_lt ready.target_lt
      ready.core
  · exact (provides.parented laid.parented framed).relink providedFramed
      ready.source_lt ready.target_lt
  · intro number member
    dsimp only at member ⊢
    rw [Automaton.size_relink] at member
    rcases provides.lt_or_eq member with old | rfl
    · obtain ⟨word, before⟩ := laid.reached number old
      exact ⟨word, leads before⟩
    · obtain ⟨word, before⟩ := laid.reached source inside
      refine ⟨word ++ [symbol], .step (leads before) ?_⟩
      rw [Automaton.successor?_relink ready.source_lt, if_pos ⟨rfl, rfl⟩]

end Steps

/-- The search keeps its invariant and stays plain. -/
theorem invariant_laid (wellFormed : grammar.WellFormed)
    (unused : grammar.GoalUnused) (exact : first.Exact grammar)
    {good : State → Prop} (keeps : Keeps grammar first .lr0 good) :
    Invariant grammar first .lr0
      (fun collecting => collecting.Resting grammar first .lr0 good ∧
        collecting.Laid grammar)
      (fun source pending collecting =>
        collecting.Expanding grammar first .lr0 good source pending ∧
          collecting.Laid grammar) := by
  constructor
  · intro collecting number queue popped holds
    obtain ⟨resting, laid⟩ := holds
    exact ⟨resting.take popped, laid.plain, laid.parented, laid.reached⟩
  · intro collecting source symbol pending holds
    obtain ⟨expanding, laid⟩ := holds
    obtain ⟨target, provided, provides, equal, between, ready, after⟩ :=
      expanding.addTransition wellFormed unused exact keeps
    refine ⟨after, ?_⟩
    rw [equal]
    exact laid.link expanding.consistent.framed expanding.source_lt provides
      between.consistent.framed ready
  · intro collecting source holds
    exact ⟨holds.1.rest, holds.2⟩

theorem laid_begin : (begin grammar first .lr0).Laid grammar := by
  have unlinked : Automaton.Unlinked (startState grammar first .lr0) :=
    unlinked_startState
  have size : (begin grammar first .lr0).automaton.size = 1 := rfl
  have state : (begin grammar first .lr0).automaton.state 0 =
      startState grammar first .lr0 := rfl
  have only {number : Nat}
      (inside : number < (begin grammar first .lr0).automaton.size) :
      number = 0 := by
    rw [size] at inside
    omega
  constructor
  · constructor
    · intro target holds place
      have zero := only holds.1
      have indexInside := holds.2
      rw [zero, state] at indexInside
      rw [Automaton.configuration, zero, state,
        unlinked.transitors target.index indexInside]
      constructor
      · intro member
        cases member
      · rintro ⟨placeHolds, symbol, edge, -⟩
        rw [only placeHolds.1, state, State.successor?,
          unlinked.successors] at edge
        cases edge
    · intro place holds
      have zero := only holds.1
      have indexInside := holds.2
      rw [zero, state] at indexInside
      rw [Automaton.configuration, zero, state]
      exact unlinked.marks place.index indexInside
    · intro number inside
      rw [only inside, state]
      exact unlinked.cloneOf
    · intro one oneInside other otherInside _
      rw [only oneInside, only otherInside]
  · have bounded : Automaton.empty.Bounded := by
      intro source symbol target edge
      rw [Automaton.state_of_size_le (Nat.zero_le source)] at edge
      cases edge
    exact Automaton.Parented.of_empty.add bounded unlinked.successors
      unlinked.parents
  · intro number inside
    rw [only inside]
    exact ⟨[], .start⟩

end Collecting

namespace Automaton

variable {grammar : Grammar} {first : FirstSets} {automaton : Automaton}

/-- Cutting off unreachable states leaves a plain automaton plain. -/
theorem Plain.detach (plain : automaton.Plain grammar)
    (framed : automaton.Framed grammar)
    (reached : ∀ number < automaton.size,
      ∃ word, automaton.Leads word number) :
    automaton.detachUnreachable.Plain grammar := by
  have reachable {number : Nat} (inside : number < automaton.size) :
      automaton.reachable.getD number false = true :=
    framed.reachable_iff.mpr (reached number inside)
  have holds {place : Place} :
      automaton.detachUnreachable.Holds place ↔ automaton.Holds place :=
    holds_of_alike size_detach alike_detach
  have item {place : Place} (inside : automaton.Holds place) :
      (automaton.detachUnreachable.configuration place).item =
        (automaton.configuration place).item :=
    (alike_detach place.state).sameItems.item place.index inside.2
  have value {place : Place} (inside : automaton.Holds place) :
      automaton.detachUnreachable.configuration place =
        { automaton.configuration place with
          transitors := (automaton.configuration place).transitors.filter
            fun other => automaton.reachable.getD other.state false } := by
    rw [configuration, state_detach inside.1]
    exact State.configuration_mapConfigurations inside.2
  have successor (number : Nat) (symbol : Symbol) :
      (automaton.detachUnreachable.state number).successor? symbol =
        (automaton.state number).successor? symbol := by
    by_cases inside : number < automaton.size
    · rw [successor?_detach, if_pos (reachable inside)]
    · have outside := Nat.le_of_not_lt inside
      rw [state_of_size_le outside,
        state_of_size_le (size_detach.symm ▸ outside)]
  constructor
  · intro target inside place
    rw [holds] at inside
    rw [value inside, List.mem_filter, plain.wired target inside]
    constructor
    · rintro ⟨⟨placeHolds, symbol, edge, scans, equal⟩, -⟩
      refine ⟨holds.mpr placeHolds, symbol, ?_, ?_, ?_⟩
      · rw [successor]
        exact edge
      · rw [item placeHolds]
        exact scans
      · rw [item inside, item placeHolds]
        exact equal
    · rintro ⟨placeHolds, symbol, edge, scans, equal⟩
      rw [holds] at placeHolds
      rw [successor] at edge
      rw [item placeHolds] at scans equal
      rw [item inside] at equal
      exact ⟨⟨placeHolds, symbol, edge, scans, equal⟩,
        reachable placeHolds.1⟩
  · intro place inside
    rw [holds] at inside
    rw [value inside]
    exact plain.unmarked place inside
  · intro number inside
    rw [size_detach] at inside
    rw [state_detach inside]
    exact plain.original number inside
  · intro one oneInside other otherInside same
    rw [size_detach] at oneInside otherInside
    rw [(alike_detach one).sameItems.coreItems,
      (alike_detach other).sameItems.coreItems] at same
    exact plain.apart one oneInside other otherInside same

end Automaton

namespace Collecting

variable {grammar : Grammar} {first : FirstSets} {precision : Precision}

/-- Every state records the symbol in front of the dots of its core. -/
theorem keeps_entered (wellFormed : grammar.WellFormed)
    (unused : grammar.GoalUnused) (exact : first.Exact grammar) :
    Keeps grammar first precision fun state => state.Entered grammar := by
  constructor
  · intro old new alike holds item core moved
    rw [alike.sameItems.coreItems] at core
    rw [alike.sameItems.entry]
    exact holds item core moved
  · intro item core moved
    rw [coreItems_startState, List.mem_singleton] at core
    subst core
    exact absurd moved (Nat.lt_irrefl 0)
  · intro source symbol sound _ item core _
    rw [coreItems_freshState sound.regular.distinct] at core
    obtain ⟨origin, -, scans, rfl⟩ := State.mem_successorItems.mp core
    rw [freshState, State.close_entry]
    exact (Item.right_of_scanned scans).symm
  · intro _ source target symbol _ _ sound holds matching _ item core moved
    have joined := matching.joined wellFormed unused exact
      sound.closed.itemsClosed sound.snug
    rw [joined.sameItems.coreItems] at core
    rw [joined.sameItems.entry]
    exact holds item core moved

end Collecting

namespace Automaton

variable {grammar : Grammar} {first : FirstSets} {automaton : Automaton}

/-- What a search without lookaheads promises of its automaton. -/
structure Lookaheadless (grammar : Grammar) (first : FirstSets)
    (automaton : Automaton) : Prop where
  collected : automaton.Collected grammar first .lr0 fun state =>
    state.Entered grammar
  plain : automaton.Plain grammar
  parented : automaton.Parented
  reached : ∀ number < automaton.size, ∃ word, automaton.Leads word number

theorem lookaheadless_of_collect? (wellFormed : grammar.WellFormed)
    (unused : grammar.GoalUnused) (exact : first.Exact grammar)
    (result : collect? grammar first .lr0 = some automaton) :
    automaton.Lookaheadless grammar first := by
  have keeps := @Collecting.keeps_entered grammar first .lr0 wellFormed
    unused exact
  rw [collect?, Option.map_eq_some_iff] at result
  obtain ⟨whole, found, rfl⟩ := result
  have begins := Collecting.resting_begin wellFormed unused exact keeps
  obtain ⟨final, ⟨resting, laid⟩, empty, rfl⟩ :=
    (Collecting.invariant_laid wellFormed unused exact keeps).run
      ⟨begins, Collecting.laid_begin⟩ found
  have framed := resting.consistent.framed
  constructor
  · exact (collected_of_resting resting empty).detach keeps
  · exact laid.plain.detach framed laid.reached
  · exact laid.parented.detach framed.bounded
  · intro number inside
    rw [size_detach] at inside
    obtain ⟨word, leads⟩ := laid.reached number inside
    exact ⟨word, framed.leads_detach.mpr leads⟩

end Automaton

end LRTables
