import LRTables.Proofs.Admission
import LRTables.Proofs.Searches

/-!
# The search for states ends

Whatever the grammar, a state that refuses what arrives has other contexts than
those it was made for, so that only finitely many states are made.  A state
that has been expanded waits again only when one of its contexts has grown.
-/

namespace LRTables

open Finset

namespace State

variable {grammar : Grammar} {first : FirstSets} {contexts : Bool}
  {state : State}

/-- A closed state with the items and lookaheads of the grammar and its core in
order.  This is all that a bound on the search needs, and it holds also when
the goal symbol is used in the rules. -/
structure Tidy (grammar : Grammar) (state : State) : Prop where
  distinct : state.Distinct
  coreCount_le : state.coreCount ≤ state.configurations.size
  closed : state.ItemsClosed grammar
  ascending : Item.Ascending state.coreItems
  lists : ∀ item ∈ state.items, grammar.Lists item
  terminated : state.Terminated grammar

theorem Tidy.listed (tidy : state.Tidy grammar) : state.Listed grammar :=
  ⟨tidy.ascending, fun item core => tidy.lists item (coreItems_subset core)⟩

theorem Tidy.of_sameItems {old new : State} (tidy : old.Tidy grammar)
    (same : old.SameItems new) (terminated : new.Terminated grammar) :
    new.Tidy grammar := by
  constructor
  · rw [distinct_iff_nodup, same.items, ← distinct_iff_nodup]
    exact tidy.distinct
  · rw [same.coreCount, same.size]
    exact tidy.coreCount_le
  · exact same.itemsClosed tidy.closed
  · rw [same.coreItems]
    exact tidy.ascending
  · rw [same.items]
    exact tidy.lists
  · exact terminated

theorem Tidy.alike {old new : State} (tidy : old.Tidy grammar)
    (alike : old.Alike new) : new.Tidy grammar :=
  tidy.of_sameItems alike.sameItems fun item terminal has =>
    tidy.terminated item terminal (alike.hasContext_iff.mp has)

theorem tidy_default : (default : State).Tidy grammar := by
  have nothing : ∀ item, item ∉ (default : State).items := by
    intro item member
    cases member
  constructor
  · intro one _ inside
    exact absurd inside (Nat.not_lt_zero one)
  · exact Nat.le_refl 0
  · exact fun item member => absurd member (nothing item)
  · exact ⟨List.nodup_nil, List.Pairwise.nil⟩
  · exact fun item member => absurd member (nothing item)
  · exact fun item terminal has => absurd has.mem_items (nothing item)

/-- Closing makes a state tidy. -/
theorem tidy_close (wellFormed : grammar.WellFormed)
    (exact : first.Exact grammar) (distinct : state.Distinct)
    (bound : state.coreCount ≤ state.configurations.size)
    (ascending : Item.Ascending state.coreItems)
    (lists : ∀ item ∈ state.items, grammar.Lists item)
    (terminated : state.Terminated grammar) :
    (state.close grammar first contexts).1.Tidy grammar := by
  have bounds : ClosedBounds grammar first contexts grammar.Lists
      fun _ terminal => terminal < grammar.terminals.size := by
    intro item nonterminal tail rule context _ rest member bounded
    exact ⟨⟨(Grammar.mem_rulesOf.mp member).1, Nat.zero_le _⟩,
      (Closing.bounds_lt contexts wellFormed exact (Nat.le_refl _) item
        nonterminal tail rule context trivial rest member bounded).2⟩
  have within := @close_within grammar first contexts state _ _ bounds (by
    intro index inside
    exact ⟨lists _ (mem_items.mpr ⟨index, inside, rfl⟩),
      fun terminal member =>
        terminated _ terminal ⟨index, inside, rfl, member⟩⟩)
  constructor
  · exact close_distinct distinct
  · rw [close_coreCount]
    exact bound.trans close_extends.size_le
  · exact (close_closed wellFormed exact).itemsClosed
  · rw [close_coreItems bound]
    exact ascending
  · intro item member
    obtain ⟨index, inside, rfl⟩ := mem_items.mp member
    exact (within index inside).1
  · rintro item terminal ⟨index, inside, rfl, member⟩
    exact (within index inside).2 terminal member

theorem tidy_close_ofCores (wellFormed : grammar.WellFormed)
    (exact : first.Exact grammar) {entry : Option Symbol}
    {cores : List Configuration}
    (ascending : Item.Ascending (cores.map Configuration.item))
    (lists : ∀ item ∈ cores.map Configuration.item, grammar.Lists item)
    (terminated : ∀ item terminal, Arrives cores item terminal →
      terminal < grammar.terminals.size) :
    ((ofCores entry cores).close grammar first contexts).1.Tidy grammar := by
  apply tidy_close wellFormed exact
  · rw [distinct_iff_nodup, items_ofCores]
    exact ascending.nodup
  · rw [size_ofCores]
    exact Nat.le_refl _
  · rw [coreItems_ofCores]
    exact ascending
  · rw [items_ofCores]
    exact lists
  · intro item terminal has
    exact terminated item terminal (hasContext_ofCores.mp has)

section Joining

variable {cores : List Configuration} (tidy : state.Tidy grammar)
  (aligned : state.Aligned cores)

include tidy in
theorem Tidy.joined_sameItems :
    state.SameItems (state.joined grammar first cores) := by
  have same := @joinContexts_sameItems state
    (cores.map Configuration.context)
  refine same.trans ((same.itemsClosed tidy.closed).close_sameItems ?_)
  rw [distinct_iff_nodup, same.items, ← distinct_iff_nodup]
  exact tidy.distinct

theorem joined_grows {index : Nat}
    (inside : index < state.configurations.size) {terminal : Nat}
    (member : terminal ∈ (state.configuration index).context ∨
      terminal ∈ (cores.map Configuration.context).getD index ∅) :
    terminal ∈
      ((state.joined grammar first cores).configuration index).context := by
  have same := @joinContexts_sameItems state
    (cores.map Configuration.context)
  apply close_extends.context index (same.size ▸ inside)
  rw [configuration_joinContexts inside]
  exact TerminalSet.mem_union.mpr member

include tidy aligned in
theorem Tidy.joined (wellFormed : grammar.WellFormed)
    (exact : first.Exact grammar)
    (terminated : ∀ item terminal, Arrives cores item terminal →
      terminal < grammar.terminals.size) :
    (state.joined grammar first cores).Tidy grammar := by
  have same := @joinContexts_sameItems state
    (cores.map Configuration.context)
  have joint : (state.joinContexts
      (cores.map Configuration.context)).Tidy grammar := by
    apply tidy.of_sameItems same
    intro item terminal has
    rcases (hasContext_joinContexts aligned).mp has with old | arrives
    · exact tidy.terminated item terminal old
    · exact terminated item terminal arrives
  exact tidy_close wellFormed exact joint.distinct joint.coreCount_le
    joint.ascending joint.lists joint.terminated

include tidy aligned in
/-- A state that lacks some of what arrives has less room once that is
joined. -/
theorem Tidy.roomOf_joined_lt
    (terminated : ∀ item terminal, Arrives cores item terminal →
      terminal < grammar.terminals.size)
    (lacks : state.covers cores = false) :
    Closing.roomOf grammar.terminals.size
        (state.joined grammar first cores) <
      Closing.roomOf grammar.terminals.size state := by
  obtain ⟨index, bound, terminal, arrives, lacking⟩ :=
    Collecting.exists_lacking aligned lacks
  have inside := aligned.lt_size bound
  have bounded := terminated _ terminal
    ((aligned.arrives_iff bound).mpr arrives)
  refine Closing.roomOf_lt_of_gains tidy.joined_sameItems.size ?_ inside
    bounded lacking ?_
  · intro other otherInside token member
    exact joined_grows otherInside (Or.inl member)
  · apply joined_grows inside
    right
    simpa [bound] using arrives

include tidy in
theorem Tidy.hasContext_joined {item : Item} {terminal : Nat}
    (has : state.HasContext item terminal) :
    (state.joined grammar first cores).HasContext item terminal := by
  obtain ⟨index, inside, rfl, member⟩ := has
  have same : state.SameItems (state.joined grammar first cores) :=
    tidy.joined_sameItems
  exact ⟨index, same.size ▸ inside, same.item index inside,
    joined_grows inside (Or.inl member)⟩

end Joining

end State

namespace Collecting

variable {grammar : Grammar} {first : FirstSets} {precision : Precision}
  {collecting provided : Collecting} {source target : Nat} {symbol : Symbol}

/-- All states of a collection are tidy. -/
def Tidy (grammar : Grammar) (collecting : Collecting) : Prop :=
  ∀ number, (collecting.automaton.state number).Tidy grammar

/-- The states of a collection can be told apart. -/
def Apart (grammar : Grammar) (precision : Precision)
    (collecting : Collecting) : Prop :=
  ∃ made, Distinguished grammar precision made collecting.automaton

theorem Tidy.size_le (tidy : collecting.Tidy grammar)
    (apart : collecting.Apart grammar precision) :
    collecting.automaton.size ≤ grammar.stateBound := by
  obtain ⟨made, distinguished⟩ := apart
  apply distinguished.size_le
  · exact fun number _ => (tidy number).listed
  · exact fun number _ => (tidy number).terminated

theorem Tidy.arrives_lt (tidy : collecting.Tidy grammar) {item : Item}
    {terminal : Nat}
    (arrives : State.Arrives
      (collecting.arriving grammar precision source symbol) item terminal) :
    terminal < grammar.terminals.size := by
  obtain ⟨origin, has, -, -⟩ := exists_origin_of_arrives arrives
  exact (tidy source).terminated origin terminal has

theorem Tidy.aligned (tidy : collecting.Tidy grammar)
    {cores : List Configuration}
    (member : target ∈ collecting.automaton.withCores cores) :
    (collecting.automaton.state target).Aligned cores :=
  (State.hasCores_iff_aligned (tidy target).distinct
    (tidy target).coreCount_le).mp (Automaton.mem_withCores.mp member).2

theorem tidy_startState (wellFormed : grammar.WellFormed)
    (exact : first.Exact grammar) :
    (startState grammar first precision).Tidy grammar := by
  apply State.tidy_close_ofCores wellFormed exact
  · exact ⟨List.nodup_singleton _, List.pairwise_singleton _ _⟩
  · intro item member
    rw [List.map_singleton, List.mem_singleton] at member
    rw [member]
    exact ⟨wellFormed.hasGoalRule, Nat.zero_le _⟩
  · rintro item terminal ⟨configuration, member, -, inContext⟩
    rw [List.mem_singleton] at member
    subst member
    dsimp only [Configuration.ofItem] at inContext
    split at inContext
    · rw [TerminalSet.mem_singleton.mp inContext]
      exact wellFormed.hasEnd
    · exact absurd inContext (TerminalSet.not_mem_empty terminal)

theorem Tidy.freshState (wellFormed : grammar.WellFormed)
    (exact : first.Exact grammar) (tidy : collecting.Tidy grammar)
    (source : Nat) (symbol : Symbol) :
    (freshState grammar first precision (collecting.automaton.state source)
      symbol).Tidy grammar := by
  apply State.tidy_close_ofCores wellFormed exact
  · rw [State.items_successorCores]
    exact State.ascending_successorItems (tidy source).distinct
  · intro item member
    rw [State.items_successorCores] at member
    obtain ⟨origin, -, scans, rfl⟩ := State.mem_successorItems.mp member
    exact (Grammar.lists_of_scanned scans).2
  · exact fun item terminal arrives => tidy.arrives_lt arrives

/-- A new state has at its core what arrives and nothing else: in each of its
core items the dot has moved, so that closing leaves them alone. -/
theorem hasContext_freshState_iff {source : State} (distinct : source.Distinct)
    {symbol : Symbol} {item : Item}
    (core : item ∈ (freshState grammar first precision source
      symbol).coreItems) {terminal : Nat} :
    (freshState grammar first precision source symbol).HasContext item
        terminal ↔
      State.Arrives (source.successorCores grammar precision.tracksContexts
        symbol) item terminal := by
  have items := @coreItems_freshState grammar first precision source symbol
    distinct
  have aligned : (freshState grammar first precision source symbol).Aligned
      (source.successorCores grammar precision.tracksContexts symbol) := by
    refine ⟨?_, ?_, items.trans State.items_successorCores.symm⟩
    · apply State.close_distinct
      rw [State.distinct_iff_nodup, State.items_ofCores,
        State.items_successorCores]
      exact (State.ascending_successorItems distinct).nodup
    · rw [freshState, State.close_coreCount]
      refine Nat.le_trans ?_ State.close_extends.size_le
      rw [State.size_ofCores]
      exact Nat.le_refl _
  obtain ⟨index, inside, rfl⟩ := aligned.exists_index core
  rw [aligned.hasContext_iff inside, aligned.arrives_iff inside]
  have own := @State.configuration_ofCores (some symbol)
    (source.successorCores grammar precision.tracksContexts symbol) index
    inside
  have kept : (freshState grammar first precision source
      symbol).configuration index =
        (source.successorCores grammar precision.tracksContexts
          symbol)[index] := by
    rw [← own]
    apply State.close_of_dot
    · rwa [State.size_ofCores]
    · rw [own]
      obtain ⟨origin, -, -, equal⟩ :=
        State.mem_successorCores.mp (List.getElem_mem inside)
      rw [equal]
      exact Nat.succ_ne_zero _
  rw [kept]

theorem Tidy.relink (tidy : collecting.Tidy grammar) (source : Nat)
    (symbol : Symbol) (target : Nat) :
    Tidy grammar { collecting with
      automaton := collecting.automaton.relink source symbol target } :=
  fun number => (tidy number).alike
    (collecting.automaton.alike_relink source symbol target number)

theorem Outcome.tidy (wellFormed : grammar.WellFormed)
    (exact : first.Exact grammar) (tidy : collecting.Tidy grammar)
    (outcome : Outcome grammar first precision source symbol collecting target
      provided) : provided.Tidy grammar := by
  cases outcome with
  | kept => exact tidy
  | joined _ member =>
      intro number
      obtain ⟨inside, -⟩ := Automaton.mem_withCores.mp member
      by_cases same : number = target
      · subst same
        dsimp only
        rw [Automaton.state_modify_self inside]
        exact (tidy number).joined (tidy.aligned member) wellFormed exact
          fun item terminal arrives => tidy.arrives_lt arrives
      · dsimp only
        rw [Automaton.state_modify_ne same]
        exact tidy number
  | fresh =>
      intro number
      dsimp only
      by_cases inside : number < (collecting.automaton.add (freshState grammar
          first precision (collecting.automaton.state source) symbol)).size
      · rcases Automaton.lt_or_eq_of_lt_size_add inside with old | rfl
        · rw [Automaton.state_add_of_lt old]
          exact tidy number
        · rw [Automaton.state_add_size]
          exact tidy.freshState wellFormed exact source symbol
      · rw [Automaton.state_of_size_le (Nat.le_of_not_lt inside)]
        exact State.tidy_default

/-- A new state is told apart by what arrives. -/
theorem Outcome.apart (tidy : collecting.Tidy grammar)
    (apart : collecting.Apart grammar precision)
    (outcome : Outcome grammar first precision source symbol collecting target
      provided) : provided.Apart grammar precision := by
  obtain ⟨made, distinguished⟩ := apart
  cases outcome with
  | kept => exact ⟨made, distinguished⟩
  | joined _ member pager =>
      exact ⟨made, distinguished.grow pager (tidy target).joined_sameItems
        fun _ _ => (tidy target).hasContext_joined⟩
  | fresh refuses =>
      have items : (freshState grammar first precision
          (collecting.automaton.state source) symbol).coreItems =
            (collecting.arriving grammar precision source symbol).map
              Configuration.item := by
        rw [coreItems_freshState (tidy source).distinct, arriving,
          State.items_successorCores]
      refine ⟨_, distinguished.add items ?_ ?_⟩
      · intro item core terminal
        exact hasContext_freshState_iff (tidy source).distinct core
      · intro number inside same
        have aligned : (collecting.automaton.state number).Aligned
            (collecting.arriving grammar precision source symbol) :=
          ⟨(tidy number).distinct, (tidy number).coreCount_le, same⟩
        have member : number ∈ collecting.automaton.withCores
            (collecting.arriving grammar precision source symbol) :=
          Automaton.mem_withCores.mpr ⟨inside,
            (State.hasCores_iff_aligned aligned.distinct
              aligned.coreCount_le).mpr aligned⟩
        exact exists_difference aligned (refuses number member)
          (distinguished.within number inside)
          fun canonical => distinguished.whole canonical number inside

/-- What a transition makes wait again is paid for by the room that a context
has lost, or by the state that is no longer to be found. -/
theorem Outcome.potential_le (wellFormed : grammar.WellFormed)
    (exact : first.Exact grammar) (tidy : collecting.Tidy grammar)
    (outcome : Outcome grammar first precision source symbol collecting target
      provided)
    (bound : provided.automaton.size ≤ grammar.stateBound) :
    potential grammar provided ≤ potential grammar collecting := by
  cases outcome with
  | kept => exact Nat.le_refl _
  | joined _ member pager _ lacks =>
      obtain ⟨inside, -⟩ := Automaton.mem_withCores.mp member
      have shrinks := @State.Tidy.roomOf_joined_lt grammar first _ _
        (tidy target) (tidy.aligned member)
        (fun item terminal arrives => tidy.arrives_lt arrives) lacks
      have less := roomIn_modify_lt inside shrinks
      have longer := collecting.queue.length_push_le target
      simp only [potential, Automaton.size_modify]
      split
      · omega
      · omega
  | fresh =>
      have added := @Tidy.freshState grammar first precision collecting
        wellFormed exact tidy source symbol
      have room := roomOf_le_growthBound
        (State.size_le_itemCount added.distinct added.lists)
      have longer := collecting.queue.length_push_le
        collecting.automaton.size
      rw [Automaton.size_add] at bound
      -- One state fewer is left to be found.
      have fewer : grammar.stateBound - collecting.automaton.size =
          grammar.stateBound - (collecting.automaton.size + 1) + 1 := by
        omega
      simp only [potential, roomIn_add, Automaton.size_add]
      rw [fewer, Nat.add_mul, Nat.one_mul]
      omega

/-- What holds of a collection throughout a search. -/
structure Searching (grammar : Grammar) (precision : Precision)
    (collecting : Collecting) : Prop where
  tidy : collecting.Tidy grammar
  apart : collecting.Apart grammar precision

/-- A transition keeps the states apart and does not raise the potential. -/
theorem Searching.addTransition (wellFormed : grammar.WellFormed)
    (exact : first.Exact grammar)
    (searching : collecting.Searching grammar precision) (source : Nat)
    (symbol : Symbol) :
    (collecting.addTransition grammar first precision source
        symbol).Searching grammar precision ∧
      potential grammar
          (collecting.addTransition grammar first precision source symbol) ≤
        potential grammar collecting := by
  obtain ⟨tidy, apart⟩ := searching
  obtain ⟨target, provided, outcome, equal⟩ :=
    addTransition_outcome grammar first precision collecting source symbol
  have stillTidy := outcome.tidy wellFormed exact tidy
  have stillApart := outcome.apart tidy apart
  have notMore := outcome.potential_le wellFormed exact tidy
    (stillTidy.size_le stillApart)
  have alike := provided.automaton.alike_relink source symbol target
  have size := provided.automaton.size_relink source symbol target
  rw [equal]
  constructor
  · refine ⟨stillTidy.relink source symbol target, ?_⟩
    obtain ⟨made, distinguished⟩ := stillApart
    exact ⟨made, distinguished.alike size alike⟩
  · rw [potential, roomIn_alike size alike, size]
    exact notMore

section Runs

variable (wellFormed : grammar.WellFormed) (exact : first.Exact grammar)

include wellFormed exact

theorem invariant_searching :
    Invariant grammar first precision
      (fun collecting => collecting.Searching grammar precision)
      (fun _ _ collecting => collecting.Searching grammar precision) := by
  constructor
  · intro collecting number queue _ searching
    exact ⟨searching.tidy, searching.apart⟩
  · intro collecting source symbol _ searching
    exact (searching.addTransition wellFormed exact source symbol).1
  · exact fun _ _ searching => searching

theorem searching_begin :
    (begin grammar first precision).Searching grammar precision := by
  constructor
  · intro number
    cases number with
    | zero => exact tidy_startState wellFormed exact
    | succ number =>
        rw [Automaton.state_of_size_le (Nat.succ_pos number)]
        exact State.tidy_default
  · refine ⟨fun number item terminal =>
      ((begin grammar first precision).automaton.state number).HasContext item
        terminal, ?_⟩
    constructor
    · exact fun _ _ _ _ has => has
    · exact fun _ _ _ _ _ _ has => has
    · intro one oneInside other otherInside different
      have size : (begin grammar first precision).automaton.size = 1 := rfl
      omega

theorem potential_begin_lt :
    potential grammar (begin grammar first precision) <
      grammar.collectionLimit := by
  have start := @tidy_startState grammar first precision wellFormed exact
  have room := roomOf_le_growthBound
    (State.size_le_itemCount start.distinct start.lists)
  have positive : 0 < grammar.stateBound := by
    rw [Grammar.stateBound, Nat.one_shiftLeft]
    exact Nat.two_pow_pos _
  have fewer : grammar.stateBound = grammar.stateBound - 1 + 1 := by omega
  have waiting :
      (begin grammar first precision).queue.waiting.length = 1 := rfl
  have size : (begin grammar first precision).automaton.size = 1 := rfl
  have roomIn : roomIn grammar (begin grammar first precision).automaton =
      Closing.roomOf grammar.terminals.size
        (startState grammar first precision) := by
    have empty : Automaton.empty.size = 0 := rfl
    rw [begin_eq, roomIn_add, Collecting.roomIn, empty, sum_range_zero,
      Nat.zero_add]
  rw [potential, waiting, size, roomIn, Grammar.collectionLimit]
  conv => rhs; rw [fewer, Nat.add_mul, Nat.one_mul]
  omega

/-- The search for states is never stopped by its limit. -/
theorem exists_run :
    ∃ automaton, run grammar first precision grammar.collectionLimit
      (begin grammar first precision) = some automaton := by
  apply (invariant_searching wellFormed exact).run_isSome (potential grammar)
  · intro collecting number queue popped _
    have waiting := WorkQueue.waiting_of_pop popped
    simp only [potential, taken, waiting, List.length_cons]
    omega
  · intro collecting source symbol _ searching
    exact (searching.addTransition wellFormed exact source symbol).2
  · exact searching_begin wellFormed exact
  · exact potential_begin_lt wellFormed exact

theorem searching_of_run {limit : Nat} {automaton : Automaton}
    (found : run grammar first precision limit
      (begin grammar first precision) = some automaton) :
    ∃ final : Collecting, final.Searching grammar precision ∧
      final.queue.waiting = [] ∧ final.automaton = automaton :=
  (invariant_searching wellFormed exact).run
    (searching_begin wellFormed exact) found

end Runs

theorem run_of_le {limit more : Nat} {automaton : Automaton}
    (found : run grammar first precision limit collecting = some automaton)
    (enough : limit ≤ more) :
    run grammar first precision more collecting = some automaton := by
  induction limit generalizing more collecting with
  | zero => cases found
  | succ limit ih =>
      obtain ⟨more, rfl⟩ := Nat.exists_eq_add_of_le enough
      rw [Nat.add_right_comm, run]
      rw [run] at found
      split
      · rename_i none
        rwa [none] at found
      · rename_i popped
        rw [popped] at found
        exact ih found (Nat.le_add_right _ _)

end Collecting

namespace Automaton

variable {grammar : Grammar} {first : FirstSets}

/-- Every grammar has an automaton at each precision. -/
theorem exists_collect? (wellFormed : grammar.WellFormed)
    (exact : first.Exact grammar) (precision : Precision) :
    ∃ automaton, collect? grammar first precision = some automaton := by
  obtain ⟨automaton, found⟩ := Collecting.exists_run wellFormed exact
  refine ⟨automaton.detachUnreachable, ?_⟩
  rw [collect?, found]
  rfl

/-- A state that has all that arrives is kept: its contexts are weakly
compatible with what arrives, so no new state is made. -/
theorem findTarget_ne_new {automaton : Automaton} {number : Nat}
    {cores : List Configuration}
    (member : number ∈ automaton.withCores cores)
    (covers : (automaton.state number).covers cores = true) :
    automaton.findTarget .pager cores ≠ .new := by
  intro isNew
  have found := @found_findTarget automaton .pager cores
  rw [isNew] at found
  cases found with
  | new refuses =>
      have clashes := (refuses number member).clashes rfl
      rw [State.weaklyCompatible_of_covers covers] at clashes
      cases clashes

end Automaton

/-- The search for states ends at every precision, after it has made finitely
many states.  When the contexts of a state already include those that arrive,
they are weakly compatible, so that no new state is made for them. -/
theorem state_search_ends {grammar : Grammar} (accepted : grammar.Accepted)
    (precision : Precision) :
    (∃ found : Automaton,
      (∀ limit ≥ grammar.collectionLimit,
        Collecting.run grammar (.ofGrammar grammar) precision limit
          (Collecting.begin grammar (.ofGrammar grammar) precision) =
            some found) ∧
      Automaton.collect? grammar (.ofGrammar grammar) precision =
        some found.detachUnreachable ∧
      found.size ≤ grammar.stateBound) ∧
    ∀ (automaton : Automaton) (number : Nat) (cores : List Configuration),
      number ∈ automaton.withCores cores →
      (automaton.state number).covers cores = true →
        weaklyCompatible ((automaton.state number).coreContexts.zip
          (cores.map Configuration.context)) = true ∧
        automaton.findTarget .pager cores ≠ .new := by
  have wellFormed := accepted.wellFormed
  have exact := FirstSets.exact_ofGrammar wellFormed
  constructor
  · obtain ⟨found, run⟩ :=
      @Collecting.exists_run grammar _ precision wellFormed exact
    obtain ⟨final, searching, -, rfl⟩ :=
      Collecting.searching_of_run wellFormed exact run
    refine ⟨final.automaton, fun limit enough => Collecting.run_of_le run enough,
      ?_, searching.tidy.size_le searching.apart⟩
    rw [Automaton.collect?, run]
    rfl
  · intro automaton number cores member covers
    exact ⟨State.weaklyCompatible_of_covers covers,
      Automaton.findTarget_ne_new member covers⟩

/-- The search for the states of the sample grammar ends, with merges. -/
theorem state_search_ends_chain :
    ∃ found : Automaton,
      (∀ limit ≥ Grammar.chain.collectionLimit,
        Collecting.run .chain (.ofGrammar .chain) .pager limit
          (Collecting.begin .chain (.ofGrammar .chain) .pager) =
            some found) ∧
      Automaton.collect? .chain (.ofGrammar .chain) .pager =
        some found.detachUnreachable ∧
      found.size ≤ Grammar.chain.stateBound :=
  (state_search_ends accepted_chain .pager).1

end LRTables
