import LRTables.Proofs.Admission
import LRTables.Proofs.GivenCores
import LRTables.Proofs.Merges

/-!
# Least closures

Closing a state with given core items yields the least lookaheads that the
closure equations allow.  The result is determined by what was given: closing
again changes nothing, and adding lookaheads to a closed state and closing it
again is the same as giving them at the start.
-/

namespace LRTables

theorem TerminalSet.lt_of_mem_getD {sets : List TerminalSet}
    {index terminal : Nat} (member : terminal ∈ sets.getD index ∅) :
    index < sets.length := by
  by_contra outside
  rw [List.getD_eq_getElem?_getD,
    List.getElem?_eq_none (Nat.le_of_not_lt outside)] at member
  exact not_mem_empty terminal member

namespace State

variable {grammar : Grammar} {first : FirstSets} {contexts : Bool}
  {entry : Option Symbol} {given : List Given} {state : State}

/-- What has been provided is not provided a second time. -/
theorem addRule_eq_self {closing : Closing} {origin rule : Nat}
    {lookaheads : TerminalSet} (distinct : closing.state.Distinct)
    (provides : closing.state.Provides origin lookaheads rule) :
    closing.addRule origin lookaheads rule = closing := by
  obtain ⟨index, inside, item, listed, subset⟩ := provides
  have found : closing.state.find? { rule, dot := 0 } = some index :=
    (find?_eq_some distinct).mpr ⟨inside, item⟩
  have covered : lookaheads.isSubset
      (closing.state.configuration index).context = true :=
    TerminalSet.isSubset_iff.mpr subset
  have kept : Closing.join origin lookaheads
        (closing.state.configuration index) =
      closing.state.configuration index := by
    apply Configuration.eq_of_components
    · rfl
    · apply TerminalSet.ext
      intro terminal
      exact TerminalSet.mem_union.trans
        ⟨fun either => either.elim id (subset terminal), Or.inl⟩
    · exact if_pos listed
    · rfl
    · rfl
  rw [Closing.addRule_present found, covered,
    modify_eq_self inside kept]
  simp

theorem expand_eq_self {closing : Closing} {index : Nat}
    (distinct : closing.state.Distinct)
    (serves : closing.state.ServesAt grammar first contexts index) :
    closing.expand grammar first contexts index = closing := by
  rcases Closing.scans_or_idle grammar
      (closing.state.configuration index).item with
    ⟨nonterminal, tail, rest⟩ | idle
  · rw [Closing.expand_of_scans rest]
    apply Closing.addRules_induction (fun later => later = closing) rfl
    rintro middle - rfl rule member
    exact addRule_eq_self distinct (serves nonterminal tail rest rule member)
  · exact Closing.expand_of_idle idle

/-- Closing a closed state changes nothing. -/
theorem Closed.close_eq_self (closed : state.Closed grammar first contexts)
    (distinct : state.Distinct) :
    state.close grammar first contexts = (state, false) := by
  have kept := @Closing.run_induction grammar first contexts
    (fun closing => closing.state = state ∧ closing.changed = false ∧
      ∀ index ∈ closing.queue.waiting, index < state.configurations.size)
    (by
      rintro closing queue index popped ⟨rfl, unchanged, bounded⟩
      have waiting := WorkQueue.waiting_of_pop popped
      rw [waiting] at bounded
      rw [@expand_eq_self grammar first contexts { closing with queue } index
        distinct (closed index (bounded index List.mem_cons_self))]
      exact ⟨rfl, unchanged,
        fun other waits => bounded other (List.mem_cons_of_mem _ waits)⟩)
    (state.closingLimit grammar) state.closingStart
    ⟨rfl, rfl, fun index waits => waiting_closingStart.mp waits⟩
  exact Prod.ext kept.1 kept.2.1

theorem FullyCredited.joinContexts (credited : state.FullyCredited grammar)
    (extra : List TerminalSet) :
    (state.joinContexts extra).FullyCredited grammar := by
  have same := @joinContexts_sameItems state extra
  intro index inside
  rw [same.size] at inside ⊢
  rw [configuration_joinContexts inside]
  refine (credited index inside).trans ?_
  symm
  apply bringers_congr
  exact same.item

namespace ClosedFrom

theorem itemsClosed (closed : ClosedFrom grammar entry given state) :
    state.ItemsClosed grammar := by
  intro item member nonterminal scanned rule ofRule
  rw [closed.items] at member ⊢
  exact .closure member scanned ofRule

theorem coreCount_eq (closed : ClosedFrom grammar entry given state) :
    state.coreCount = given.length :=
  (congrArg State.coreCount closed.frame).trans
    (@coreCount_ofGiven entry given)

theorem item (closed : ClosedFrom grammar entry given state) {index : Nat}
    (inside : index < given.length) :
    (state.configuration index).item = given[index].item := by
  have items := closed.coreItems
  rw [coreItems_eq (closed.coreCount_eq ▸ closed.size_le),
    closed.coreCount_eq] at items
  have place := congrArg (·[index]?) items
  simpa [inside] using place

/-- Adding lookaheads to the core and closing again amounts to giving them at
the start. -/
theorem close_joinContexts (wellFormed : grammar.WellFormed)
    (exact : first.Exact grammar)
    (closed : ClosedFrom grammar entry given state) {extra : List TerminalSet}
    (short : extra.length ≤ given.length) :
    ClosedFrom grammar entry (Given.enlarge given extra)
      ((state.joinContexts extra).close grammar first true).1 := by
  have same := @joinContexts_sameItems state extra
  have grows : (state.joinContexts extra).Extends
      ((state.joinContexts extra).close grammar first true).1 := close_extends
  have distinct : (state.joinContexts extra).Distinct := by
    rw [distinct_iff_nodup, same.items, ← distinct_iff_nodup]
    exact closed.distinct
  have itemsClosed := same.itemsClosed closed.itemsClosed
  have again : (state.joinContexts extra).SameItems
      ((state.joinContexts extra).close grammar first true).1 :=
    itemsClosed.close_sameItems distinct
  have names : Given.Names (Given.enlarge given extra) = Given.Names given := by
    funext item
    rw [Given.Names, Given.map_item_enlarge]
    rfl
  constructor
  · rw [grows.frame, State.joinContexts, closed.frame]
    simp [ofGiven, ofCores, Given.length_enlarge]
  · rw [Given.length_enlarge, again.size, same.size]
    exact closed.size_le
  · rw [again.coreItems, same.coreItems, closed.coreItems,
      Given.map_item_enlarge]
  · exact close_distinct distinct
  · exact again.unrolled (same.unrolled closed.unrolled)
  · intro item
    rw [again.items, same.items, names]
    exact closed.items item
  · intro item terminal
    rw [names]
    apply hasContext_close_iff wellFormed exact
    · intro index inside
      rw [same.size] at inside
      rw [same.item index inside, configuration_joinContexts inside]
      refine ⟨(closed.items _).mp (mem_items.mpr ⟨index, inside, rfl⟩), ?_⟩
      intro terminal member
      rcases TerminalSet.mem_union.mp member with old | new
      · refine ((closed.contexts _ _).mp ⟨index, inside, rfl, old⟩).mono ?_
        intro item _ terminal supplied
        exact Given.supplies_enlarge.mpr (Or.inl supplied)
      · have core := Nat.lt_of_lt_of_le (TerminalSet.lt_of_mem_getD new) short
        rw [closed.item core]
        refine .kernel (List.mem_map_of_mem (List.getElem_mem core)) ?_
        exact Given.supplies_enlarge.mpr (Or.inr ⟨index, core, rfl, new⟩)
    · intro item member
      rw [same.items, closed.items]
      exact .kernel member
    · intro item member terminal supplied
      rcases Given.supplies_enlarge.mp supplied with
        old | ⟨index, inside, rfl, new⟩
      · obtain ⟨index, inside, rfl, present⟩ :=
          (closed.contexts item terminal).mpr (.kernel member old)
        refine ⟨index, same.size ▸ inside, same.item index inside, ?_⟩
        rw [configuration_joinContexts inside]
        exact TerminalSet.mem_union.mpr (Or.inl present)
      · have bound := Nat.lt_of_lt_of_le inside closed.size_le
        refine ⟨index, same.size ▸ bound, ?_, ?_⟩
        · rw [same.item index bound, closed.item inside]
        · rw [configuration_joinContexts bound]
          exact TerminalSet.mem_union.mpr (Or.inr new)
  · exact (closed.originators.joinContexts extra).close itemsClosed distinct
  · intro index inside
    rw [again.size] at inside
    rw [grows.transitors index inside, grows.marks index inside]
    rw [same.size] at inside
    rw [configuration_joinContexts inside]
    exact closed.unlinked index inside

end ClosedFrom

theorem mem_context_of_covers {incoming : List Configuration}
    (bound : state.coreCount ≤ state.configurations.size)
    (length : incoming.length ≤ state.coreCount)
    (covers : state.covers incoming = true) {index terminal : Nat}
    (member : terminal ∈
      (incoming.map Configuration.context).getD index ∅) :
    terminal ∈ (state.configuration index).context := by
  have inside := TerminalSet.lt_of_mem_getD member
  rw [List.length_map] at inside
  have core : index < state.coreCount := Nat.lt_of_lt_of_le inside length
  have context : (incoming.map Configuration.context).getD index ∅ =
      incoming[index].context := by
    simp [inside]
  have paired : ((state.configuration index).context, incoming[index]) ∈
      state.coreContexts.zip incoming := by
    apply List.mem_of_getElem? (i := index)
    rw [List.getElem?_zip_eq_some, coreContexts_eq bound]
    exact ⟨by simp [core], List.getElem?_eq_getElem inside⟩
  rw [State.covers, List.all_eq_true] at covers
  rw [context] at member
  exact TerminalSet.isSubset_iff.mp (covers _ paired) terminal member

/-- Joining what is covered changes nothing. -/
theorem joinContexts_of_covers {incoming : List Configuration}
    (bound : state.coreCount ≤ state.configurations.size)
    (length : incoming.length ≤ state.coreCount)
    (covers : state.covers incoming = true) :
    state.joinContexts (incoming.map Configuration.context) = state := by
  have same := @joinContexts_sameItems state
    (incoming.map Configuration.context)
  have configurations : (state.joinContexts
      (incoming.map Configuration.context)).configurations =
        state.configurations := by
    apply Array.ext same.size
    intro index inside otherInside
    rw [← configuration_of_lt inside, ← configuration_of_lt otherInside,
      configuration_joinContexts otherInside]
    apply Configuration.eq_of_components
    · rfl
    · apply TerminalSet.ext
      intro terminal
      exact TerminalSet.mem_union.trans
        ⟨fun either => either.elim id
          (mem_context_of_covers bound length covers), Or.inl⟩
    · rfl
    · rfl
    · rfl
  show { state with configurations := (state.joinContexts
    (incoming.map Configuration.context)).configurations } = state
  rw [configurations]

end State

/-- The state holds the closure of what is given, each item once, with the
least lookaheads that solve the closure equations. -/
structure State.IsClosure (grammar : Grammar) (given : List Given)
    (state : State) : Prop where
  nodup : state.items.Nodup
  items : ∀ item, item ∈ state.items ↔
    grammar.Spreads (Given.Names given) item
  solves : ∀ item terminal, state.HasContext item terminal ↔
    grammar.Requires given state.HasContext item terminal
  least : ∀ context : Item → Nat → Prop,
    (∀ item terminal, grammar.Requires given context item terminal →
      context item terminal) →
    ∀ item terminal, state.HasContext item terminal → context item terminal

theorem State.ClosedFrom.isClosure {grammar : Grammar} {entry : Option Symbol}
    {given : List Given} {state : State}
    (closed : state.ClosedFrom grammar entry given) :
    state.IsClosure grammar given := by
  have contexts : state.HasContext =
      grammar.Carries (Given.Names given) (Given.Supplies given) := by
    funext item terminal
    exact propext (closed.contexts item terminal)
  constructor
  · exact distinct_iff_nodup.mp closed.distinct
  · exact closed.items
  · rw [contexts]
    exact fun _ _ => Grammar.carries_iff_requires
  · rw [contexts]
    exact fun _ allows _ _ => Grammar.Carries.least allows

namespace Closing

variable {grammar : Grammar} {first : FirstSets} {contexts : Bool}

/-- Once nothing waits, more steps make no difference. -/
theorem run_of_empty {limit more : Nat} {closing : Closing}
    (empty : (run grammar first contexts limit closing).queue.waiting = [])
    (enough : limit ≤ more) :
    run grammar first contexts more closing =
      run grammar first contexts limit closing := by
  induction limit generalizing more closing with
  | zero =>
      rw [run] at empty ⊢
      cases more with
      | zero => rfl
      | succ more => rw [run, WorkQueue.pop_eq_none.mpr empty]
  | succ limit ih =>
      obtain ⟨more, rfl⟩ := Nat.exists_eq_add_of_le enough
      rw [Nat.add_right_comm, run]
      rw [run] at empty ⊢
      split
      · rfl
      · rename_i popped
        rw [popped] at empty
        exact ih empty (Nat.le_add_right _ _)

end Closing

/-- What closing promises of a state with the given core: it ends, yields the
closure of what is given, changes nothing a second time, leads to the same
state when lookaheads are added later, and lists configurations and
originators in an order that does not depend on lookaheads. -/
structure Grammar.ClosesLeast (grammar : Grammar) (entry : Option Symbol)
    (given : List Given) : Prop where
  ends : ∀ contexts, ∃ finished : Closing, finished.queue.waiting = [] ∧
    (State.ofGiven entry given).close grammar (.ofGrammar grammar) contexts =
      (finished.state, finished.changed) ∧
    ∀ limit ≥ (State.ofGiven entry given).closingLimit grammar,
      Closing.run grammar (.ofGrammar grammar) contexts limit
        (State.ofGiven entry given).closingStart = finished
  closure : ((State.ofGiven entry given).close grammar (.ofGrammar grammar)
    true).1.IsClosure grammar given
  again : ∀ contexts,
    ((State.ofGiven entry given).close grammar (.ofGrammar grammar)
        contexts).1.close grammar (.ofGrammar grammar) contexts =
      (((State.ofGiven entry given).close grammar (.ofGrammar grammar)
        contexts).1, false)
  enlarged : ∀ extra : List TerminalSet, extra.length ≤ given.length →
    ((((State.ofGiven entry given).close grammar (.ofGrammar grammar)
        true).1.joinContexts extra).close grammar (.ofGrammar grammar)
          true).1 =
      ((State.ofGiven entry (Given.enlarge given extra)).close grammar
        (.ofGrammar grammar) true).1
  absorbed : ∀ incoming : List Configuration,
    incoming.length ≤ given.length →
    (((State.ofGiven entry given).close grammar (.ofGrammar grammar)
        true).1.absorb grammar (.ofGrammar grammar) incoming).1 =
      ((State.ofGiven entry (Given.enlarge given
        (incoming.map Configuration.context))).close grammar
          (.ofGrammar grammar) true).1
  order : ∀ (elsewhere : Option Symbol) (others : List Given)
    (contexts : Bool),
    others.map Given.item = given.map Given.item →
    ((State.ofGiven elsewhere others).close grammar (.ofGrammar grammar)
          contexts).1.items =
        ((State.ofGiven entry given).close grammar (.ofGrammar grammar)
          true).1.items ∧
      ∀ index,
        (((State.ofGiven elsewhere others).close grammar (.ofGrammar grammar)
            contexts).1.configuration index).originators =
          (((State.ofGiven entry given).close grammar (.ofGrammar grammar)
            true).1.configuration index).originators

namespace State

variable {grammar : Grammar} {first : FirstSets} {contexts : Bool}
  {given : List Given}

/-- The items and who has brought them in follow from the core items. -/
theorem close_order (wellFormed : grammar.WellFormed)
    (exact : first.Exact grammar) {entry elsewhere : Option Symbol}
    {others : List Given} (nodup : (given.map Given.item).Nodup)
    (same : others.map Given.item = given.map Given.item)
    (contexts flag : Bool) :
    ((ofGiven elsewhere others).close grammar first contexts).1.items =
        ((ofGiven entry given).close grammar first flag).1.items ∧
      ∀ index,
        (((ofGiven elsewhere others).close grammar first
            contexts).1.configuration index).originators =
          (((ofGiven entry given).close grammar first
            flag).1.configuration index).originators := by
  have items : ((ofGiven elsewhere others).close grammar first
      contexts).1.items =
        ((ofGiven entry given).close grammar first flag).1.items := by
    apply (unrolled_close_ofGiven wellFormed exact contexts elsewhere).items_eq
      (unrolled_close_ofGiven wellFormed exact flag entry)
    rw [coreItems_close_ofGiven, coreItems_close_ofGiven, same]
  have size := congrArg List.length items
  simp only [items_eq, List.length_map, List.length_range] at size
  refine ⟨items, fun index => ?_⟩
  by_cases inside : index <
      ((ofGiven entry given).close grammar first flag).1.configurations.size
  · rw [fullyCredited_close_ofGiven wellFormed exact flag entry nodup index
        inside,
      fullyCredited_close_ofGiven wellFormed exact contexts elsewhere
        (same ▸ nodup) index (size ▸ inside),
      (item_of_items_eq items inside).2, size]
    apply bringers_congr
    intro origin before
    exact (item_of_items_eq items before).2
  · rw [originators_of_le (Nat.le_of_not_lt inside),
      originators_of_le (size ▸ Nat.le_of_not_lt inside)]

end State

/-- Closing is a least fixpoint, idempotent and incremental. -/
theorem closure_least {grammar : Grammar} (accepted : grammar.Accepted)
    (entry : Option Symbol) (given : List Given)
    (nodup : (given.map Given.item).Nodup) :
    grammar.ClosesLeast entry given := by
  have wellFormed := accepted.wellFormed
  have exact := FirstSets.exact_ofGrammar wellFormed
  have closed := @State.closedFrom_close grammar _ entry given wellFormed exact
    nodup
  have stays : ∀ contexts,
      ((State.ofGiven entry given).close grammar (.ofGrammar grammar)
          contexts).1.close grammar (.ofGrammar grammar) contexts =
        (((State.ofGiven entry given).close grammar (.ofGrammar grammar)
          contexts).1, false) := fun contexts =>
    (State.close_closed wellFormed exact).close_eq_self
      (State.close_distinct (State.distinct_ofGiven nodup))
  have enlarged : ∀ extra : List TerminalSet, extra.length ≤ given.length →
      ((((State.ofGiven entry given).close grammar (.ofGrammar grammar)
          true).1.joinContexts extra).close grammar (.ofGrammar grammar)
            true).1 =
        ((State.ofGiven entry (Given.enlarge given extra)).close grammar
          (.ofGrammar grammar) true).1 := by
    intro extra short
    apply (closed.close_joinContexts wellFormed exact short).unique
    apply State.closedFrom_close wellFormed exact
    rw [Given.map_item_enlarge]
    exact nodup
  constructor
  · intro contexts
    have empty := @State.closing_ends grammar _ contexts
      (State.ofGiven entry given) wellFormed exact
    exact ⟨_, empty, rfl, fun limit enough =>
      Closing.run_of_empty empty enough⟩
  · exact closed.isClosure
  · exact stays
  · exact enlarged
  · intro incoming short
    have join := enlarged (incoming.map Configuration.context)
      (by rwa [List.length_map])
    rw [State.absorb_eq]
    split
    · rename_i covers
      rw [State.joinContexts_of_covers (closed.coreCount_eq ▸ closed.size_le)
        (closed.coreCount_eq ▸ short) covers, stays] at join
      exact join
    · exact join
  · intro elsewhere others contexts same
    exact State.close_order wellFormed exact nodup same contexts true

/-- The start of the looped grammar, where a configuration brings itself in. -/
theorem closure_least_looped :
    ([{ item := .goal, lookaheads := ∅ }].map Given.item).Nodup ∧
      Grammar.looped.ClosesLeast none [{ item := .goal, lookaheads := ∅ }] :=
  ⟨by decide, closure_least accepted_looped none _ (by decide)⟩

end LRTables
