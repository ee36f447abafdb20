import LRTables.Proofs.Failures
import LRTables.Proofs.Overlaps

/-!
# State graphs

Whatever way an automaton is constructed, its reachable states are in order:
each lists its configurations without repetition, the core first; the links
inside it and between it and its neighbours are exactly those that the items
call for.
-/

namespace LRTables

theorem Item.Ascending.pairwise {items : List Item}
    (ascending : Item.Ascending items) :
    items.Pairwise fun one other =>
      one.rule < other.rule ∨ one.rule = other.rule ∧ one.dot < other.dot := by
  apply (ascending.sorted.and ascending.nodup).imp
  intro one other both
  obtain ⟨before, different⟩ := both
  rw [Item.precedes_iff] at before
  rcases before with earlier | ⟨same, notLater⟩
  · exact Or.inl earlier
  · refine Or.inr ⟨same, Nat.lt_of_le_of_ne notLater ?_⟩
    intro dots
    exact different (by cases one; cases other; simp_all)

namespace State

variable {grammar : Grammar} {first : FirstSets} {contexts : Bool}
  {state : State}

/-- The core comes first and in order, no position occurs twice, and what is
added by closure knows exactly which configurations call for it. -/
structure Arranged (grammar : Grammar) (state : State) : Prop where
  coreCount_le : state.coreCount ≤ state.configurations.size
  kernel : ∀ index < state.configurations.size,
    index < state.coreCount ↔ (state.configuration index).item.InKernel
  ascending : state.coreItems.Pairwise fun one other =>
    one.rule < other.rule ∨ one.rule = other.rule ∧ one.dot < other.dot
  added : ∀ index, state.coreCount ≤ index →
    index < state.configurations.size →
      (state.configuration index).item.dot = 0
  distinct : state.Distinct
  originators : ∀ index < state.configurations.size,
    (state.configuration index).item.dot = 0 →
    (state.configuration index).item ≠ .goal → ∀ origin,
      origin ∈ (state.configuration index).originators ↔
        origin < state.configurations.size ∧
          (state.configuration origin).item.scanned grammar =
            some (.nonterminal
              (grammar.left (state.configuration index).item.rule))

theorem Regular.rule_lt (regular : state.Regular grammar) {index : Nat}
    (inside : index < state.configurations.size)
    (added : ¬ (state.configuration index).item.InKernel) :
    (state.configuration index).item.rule < grammar.rules.size := by
  have spreads := regular.spreads index inside
  generalize (state.configuration index).item = item at spreads added
  cases spreads with
  | kernel core => exact absurd (regular.mem_coreItems.mp core).2 added
  | closure _ _ member => exact (Grammar.mem_rulesOf.mp member).1

/-- A closed state is arranged if its core is in order. -/
theorem Regular.arranged (regular : state.Regular grammar)
    (closed : state.Closed grammar first contexts)
    (ascending : Item.Ascending state.coreItems) :
    state.Arranged grammar := by
  have added {index : Nat} (inside : index < state.configurations.size)
      (outside : ¬ (state.configuration index).item.InKernel) :
      (state.configuration index).item.dot = 0 := by
    rw [Item.InKernel, not_or] at outside
    omega
  constructor
  · exact regular.coreCount_le
  · exact fun index inside => regular.lt_coreCount inside
  · exact ascending.pairwise
  · intro index later inside
    exact added inside (regular.added index later inside)
  · exact regular.distinct
  · intro index inside isStart notGoal origin
    have outside : ¬ (state.configuration index).item.InKernel := by
      rintro (isGoal | moved)
      · exact notGoal isGoal
      · omega
    exact Automaton.mem_originators regular closed inside isStart
      (regular.rule_lt inside outside) origin

theorem SameItems.entered {old new : State} (same : old.SameItems new)
    (entered : old.Entered grammar) : new.Entered grammar := by
  intro item core moved
  rw [same.coreItems] at core
  rw [same.entry]
  exact entered item core moved

end State

namespace Automaton

variable {grammar : Grammar} {first : FirstSets} {automaton old new : Automaton}

/-- The state is arranged, it leads on just the symbols that it scans to where
the advanced items are the core, and it knows exactly which states and which
configurations lead to it. -/
structure Coherent (grammar : Grammar) (automaton : Automaton)
    (number : Nat) : Prop where
  arranged : (automaton.state number).Arranged grammar
  leads_on : ∀ symbol,
    (∃ target, (automaton.state number).successor? symbol = some target) ↔
      ∃ index < (automaton.state number).configurations.size,
        ((automaton.state number).configuration index).item.scanned grammar =
          some symbol
  targets : ∀ symbol target,
    (automaton.state number).successor? symbol = some target →
      (automaton.state target).entry = some symbol ∧
        ∀ item, item ∈ (automaton.state target).coreItems ↔
          ∃ index < (automaton.state number).configurations.size,
            ((automaton.state number).configuration index).item.scanned
                grammar = some symbol ∧
              item =
                ((automaton.state number).configuration index).item.advance
  parents : ∀ parent, parent ∈ (automaton.state number).parents ↔
    (∃ word, automaton.Leads word parent) ∧
      ∃ symbol, (automaton.state parent).successor? symbol = some number
  parents_nodup : (automaton.state number).parents.Nodup
  transitors : ∀ index < (automaton.state number).coreCount, ∀ place,
    place ∈ ((automaton.state number).configuration index).transitors ↔
      place.state ∈ (automaton.state number).parents ∧
        automaton.Holds place ∧
        ((automaton.state number).configuration index).item =
          (automaton.configuration place).item.advance
  transitors_nodup : ∀ index < (automaton.state number).coreCount,
    ((automaton.state number).configuration index).transitors.Nodup

/-- What makes all reachable states of an automaton coherent. -/
structure Knit (grammar : Grammar) (first : FirstSets)
    (automaton : Automaton) : Prop where
  framed : automaton.Framed grammar
  total : automaton.Total grammar
  closed : ∃ contexts, ∀ word number, automaton.Leads word number →
    (automaton.state number).Closed grammar first contexts
  entered : automaton.All (State.Entered grammar)
  links : automaton.Mutual grammar
  reached : ∀ source symbol target,
    (automaton.state source).successor? symbol = some target →
      ∃ word, automaton.Leads word source

theorem Framed.entry_eq (framed : automaton.Framed grammar)
    (entered : automaton.All (State.Entered grammar)) {source target : Nat}
    {symbol : Symbol}
    (edge : (automaton.state source).successor? symbol = some target) :
    (automaton.state target).entry = some symbol := by
  have inside := framed.bounded _ _ _ edge
  obtain ⟨item, present, scans⟩ :=
    State.mem_scannedSymbols.mp (framed.scanned _ _ _ edge)
  have core : item.advance ∈ (automaton.state target).coreItems := by
    rw [framed.edges _ _ _ edge]
    exact State.mem_successorItems.mpr ⟨item, present, scans, rfl⟩
  exact (entered target inside).entry_eq (framed.regular target inside)
    (State.coreItems_subset core) scans

/-- Any configuration of a parent that becomes a core configuration does so
along the transition. -/
theorem Framed.becomes_iff (framed : automaton.Framed grammar)
    {target place : Place} (holds : automaton.Holds target)
    (parents : ∀ parent,
      parent ∈ (automaton.state target.state).parents ↔
        ∃ symbol, automaton.edges parent symbol target.state)
    (core : target.index < (automaton.state target.state).coreCount) :
    automaton.BecomesBy grammar automaton.edges place target ↔
      place.state ∈ (automaton.state target.state).parents ∧
        automaton.Holds place ∧
        (automaton.configuration target).item =
          (automaton.configuration place).item.advance := by
  rw [parents]
  constructor
  · rintro ⟨inside, symbol, edge, -, equal⟩
    exact ⟨⟨symbol, edge⟩, inside, equal⟩
  · rintro ⟨⟨symbol, edge⟩, inside, equal⟩
    refine ⟨inside, symbol, edge, ?_, equal⟩
    have regular := framed.regular target.state holds.1
    have member : (automaton.configuration target).item ∈
        (automaton.state target.state).coreItems :=
      (State.mem_coreItems regular.coreCount_le).mpr
        ⟨target.index, core, rfl⟩
    rw [framed.edges _ _ _ edge] at member
    obtain ⟨origin, -, scans, advanced⟩ := State.mem_successorItems.mp member
    have same : (automaton.configuration place).item = origin :=
      Item.advance_injective (equal.symm.trans advanced)
    rw [same]
    exact scans

theorem Knit.coherent (knit : automaton.Knit grammar first)
    {word : List Symbol} {number : Nat} (leads : automaton.Leads word number) :
    automaton.Coherent grammar number := by
  have framed := knit.framed
  have inside := framed.lt_size leads
  have regular := framed.regular number inside
  obtain ⟨contexts, closed⟩ := knit.closed
  have scans (symbol : Symbol) :
      symbol ∈ (automaton.state number).scannedSymbols grammar ↔
        ∃ index < (automaton.state number).configurations.size,
          ((automaton.state number).configuration index).item.scanned grammar =
            some symbol := by
    rw [State.mem_scannedSymbols]
    constructor
    · rintro ⟨item, present, scanned⟩
      obtain ⟨index, bound, rfl⟩ := State.mem_items.mp present
      exact ⟨index, bound, scanned⟩
    · rintro ⟨index, bound, scanned⟩
      exact ⟨_, State.mem_items.mpr ⟨index, bound, rfl⟩, scanned⟩
  constructor
  · exact regular.arranged (closed word number leads)
      (framed.ascending_coreItems leads)
  · intro symbol
    rw [← scans]
    constructor
    · rintro ⟨target, edge⟩
      exact framed.scanned _ _ _ edge
    · exact knit.total word number leads symbol
  · intro symbol target edge
    refine ⟨framed.entry_eq knit.entered edge, ?_⟩
    intro item
    rw [framed.edges _ _ _ edge, State.mem_successorItems]
    constructor
    · rintro ⟨origin, present, scanned, equal⟩
      obtain ⟨index, bound, rfl⟩ := State.mem_items.mp present
      exact ⟨index, bound, scanned, equal⟩
    · rintro ⟨index, bound, scanned, equal⟩
      exact ⟨_, State.mem_items.mpr ⟨index, bound, rfl⟩, scanned, equal⟩
  · intro parent
    rw [knit.links.parents]
    constructor
    · rintro ⟨symbol, edge⟩
      exact ⟨knit.reached _ _ _ edge, symbol, edge⟩
    · exact And.right
  · exact knit.links.parents_nodup number
  · intro index core place
    have holds : automaton.Holds { state := number, index } :=
      ⟨inside, Nat.lt_of_lt_of_le core regular.coreCount_le⟩
    exact (knit.links.transitors _ holds place).trans
      (framed.becomes_iff holds (knit.links.parents number) core)
  · intro index core
    exact knit.links.transitors_nodup { state := number, index }
      ⟨inside, Nat.lt_of_lt_of_le core regular.coreCount_le⟩

end Automaton

namespace Collecting

open Automaton

variable {grammar : Grammar} {first : FirstSets} {precision : Precision}
  {collecting provided : Collecting} {source target : Nat} {symbol : Symbol}

/-- Providing a target keeps what the targets recall. -/
theorem Provides.recalled
    (provides : Provides grammar first precision source symbol collecting
      target provided)
    (framed : collecting.automaton.Framed grammar)
    (links : collecting.automaton.Mutual grammar) :
    provided.automaton.Mutual grammar := by
  cases provides with
  | kept => exact links
  | joined =>
      apply links.sameLinks
      apply SameLinks.modify
      intro inside
      exact .joined (framed.closed target inside)
        (framed.regular target inside).distinct _
  | fresh =>
      exact links.add framed.bounded unlinked_freshState.successors
        unlinked_freshState.parents unlinked_freshState.transitors

/-- The targets recall the transitions throughout a search. -/
theorem invariant_recalled (wellFormed : grammar.WellFormed)
    (unused : grammar.GoalUnused) (exact : first.Exact grammar)
    {good : State → Prop} (keeps : Keeps grammar first precision good) :
    Invariant grammar first precision
      (fun collecting => collecting.Resting grammar first precision good ∧
        collecting.automaton.Mutual grammar)
      (fun source pending collecting =>
        collecting.Expanding grammar first precision good source pending ∧
          collecting.automaton.Mutual grammar) := by
  constructor
  · intro collecting number queue popped holds
    obtain ⟨resting, links⟩ := holds
    exact ⟨resting.take popped, links⟩
  · intro collecting source symbol pending holds
    obtain ⟨expanding, links⟩ := holds
    obtain ⟨target, provided, provides, equal, between, ready, after⟩ :=
      expanding.addTransition wellFormed unused exact keeps
    refine ⟨after, ?_⟩
    rw [equal]
    exact (provides.recalled expanding.consistent.framed links).relink
      between.consistent.framed
      ⟨ready.source_lt, ready.target_lt, ready.scans, ready.core⟩
  · intro collecting source holds
    exact ⟨holds.1.rest, holds.2⟩

theorem recalled_begin :
    (begin grammar first precision).automaton.Mutual grammar := by
  have unlinked : Unlinked (startState grammar first precision) :=
    unlinked_startState
  apply Mutual.of_empty.add _ unlinked.successors unlinked.parents
    unlinked.transitors
  intro source symbol target edge
  rw [state_of_size_le (Nat.zero_le source)] at edge
  cases edge

end Collecting

namespace Automaton

variable {grammar : Grammar} {first : FirstSets}
  {automaton base : Automaton} (wellFormed : grammar.WellFormed)
  (unused : grammar.GoalUnused) (exact : first.Exact grammar)

include wellFormed unused exact in
theorem knit_of_collect? {precision : Precision}
    (result : collect? grammar first precision = some automaton) :
    automaton.Knit grammar first := by
  have keeps := @Collecting.keeps_entered grammar first precision wellFormed
    unused exact
  rw [collect?, Option.map_eq_some_iff] at result
  obtain ⟨whole, found, rfl⟩ := result
  have begins := Collecting.resting_begin wellFormed unused exact keeps
  obtain ⟨final, ⟨resting, links⟩, empty, rfl⟩ :=
    (Collecting.invariant_recalled wellFormed unused exact keeps).run
      ⟨begins, Collecting.recalled_begin⟩ found
  have collected := (collected_of_resting resting empty).detach keeps
  constructor
  · exact collected.framed
  · exact collected.total
  · refine ⟨precision.tracksContexts, fun word number leads => ?_⟩
    exact (collected.states number (collected.framed.lt_size leads)).1.closed
  · exact fun number inside => (collected.states number inside).2
  · exact links.detach
  · exact resting.consistent.framed.leads_of_detached

theorem TracedFrom.entered (traced : TracedFrom grammar first base automaton) :
    automaton.All (State.Entered grammar) := by
  intro number inside
  rw [traced.retraced.size] at inside
  exact (traced.retraced.sameItems number).entered
    (traced.lookaheadless.collected.states number inside).2

include wellFormed unused exact in
theorem TracedFrom.knit (traced : TracedFrom grammar first base automaton)
    (knit : base.Knit grammar first) : automaton.Knit grammar first := by
  have same := traced.retraced.sameFrame
  constructor
  · exact traced.framed
  · exact traced.retraced.total knit.total
  · refine ⟨true, fun word number leads => ?_⟩
    exact traced.closed wellFormed unused exact (traced.framed.lt_size leads)
  · exact traced.entered
  · exact knit.links.sameLinks (.of_retraced traced.retraced)
  · intro source symbol target edge
    rw [same.successor?_eq] at edge
    obtain ⟨word, leads⟩ := knit.reached _ _ _ edge
    exact ⟨word, same.leads_iff.mpr leads⟩

end Automaton

namespace Splitting

open Automaton

variable {grammar : Grammar} {first : FirstSets} {base automaton : Automaton}
  {region : Region} {splitting done : Splitting} {good : State → Prop}
  (wellFormed : grammar.WellFormed) (unused : grammar.GoalUnused)
  (exact : first.Exact grammar)

include wellFormed unused exact in
theorem Kept.knit (kept : splitting.Kept grammar first good base)
    (sustains : Sustains grammar first False good)
    (knit : automaton.Knit grammar first)
    (steps : Steps grammar first region (begin automaton region) splitting)
    (result : splitting.regenerate grammar first = .ok done)
    (faithful : done.automaton.Faithful grammar first) :
    done.automaton.Knit grammar first := by
  have same :=
    kept.sameLinks_regenerate wellFormed unused exact sustains result
  have framed := kept.intact.framed
  have entered := steps.all (fun _ _ same => same.entered) knit.entered
  have links := steps.recalled knit.links
  constructor
  · exact faithful.framed
  · exact faithful.total
  · exact ⟨true, faithful.saturated.closed⟩
  · intro number inside
    rw [same.size, size_detach] at inside
    exact ((alike_detach number).sameItems.trans
      (same.state number).sameItems).entered (entered number inside)
  · exact links.detach.sameLinks same
  · intro source symbol target edge
    rw [same.successor?_eq] at edge
    obtain ⟨word, leads⟩ := framed.leads_of_detached source symbol target edge
    exact ⟨word, same.sameFrame.leads_iff.mpr leads⟩

end Splitting

namespace Construction

open Automaton

variable {grammar : Grammar} {first : FirstSets} {output : Output}
  {base automaton : Automaton} {limit : Nat}
  (wellFormed : grammar.WellFormed) (unused : grammar.GoalUnused)
  (exact : first.Exact grammar)

include wellFormed unused exact in
theorem knit_split {strategy : SplitStrategy} {log : ConflictLog}
    {done : Splitting}
    (traced : TracedFrom grammar first base automaton)
    (unrolled : base.All (State.Unrolled grammar))
    (knit : base.Knit grammar first)
    (result : split limit grammar first strategy
      (automaton.markConflictLanes grammar first log).1
      (automaton.markConflictLanes grammar first log).2 = .ok done) :
    done.automaton.Knit grammar first := by
  have faithful :=
    faithful_split wellFormed unused exact traced unrolled result
  rw [split_eq] at result
  obtain ⟨splitting, divided, regenerated⟩ := ok_of_bind result
  obtain ⟨kept, steps⟩ :=
    kept_divide wellFormed unused exact traced unrolled divided
  exact kept.knit wellFormed unused exact
    (sustains_evident wellFormed unused exact False).unrolled
    ((traced.mark log).knit wellFormed unused exact knit) steps regenerated
    faithful

include wellFormed unused exact in
theorem knit_ofTraced {lr0States : Nat} {strategy : Option SplitStrategy}
    {tracing : Tracing}
    (traced : TracedFrom grammar first base tracing.automaton)
    (unrolled : base.All (State.Unrolled grammar))
    (knit : base.Knit grammar first)
    (result : ofTraced limit grammar first strategy lr0States tracing =
      .ok output) :
    output.automaton.Knit grammar first := by
  cases yields_of_ofTraced result with
  | unsplit _ same => exact same ▸ traced.knit wellFormed unused exact knit
  | unaffected _ same =>
      exact same ▸ (traced.mark output.table.log).knit wellFormed unused exact
        knit
  | split _ _ _ divided same _ =>
      exact same ▸ knit_split wellFormed unused exact traced unrolled knit
        divided

include wellFormed unused exact in
theorem knit_byLanes {strategy : Option SplitStrategy}
    (result : (byLanes limit grammar first strategy).built = .ok output) :
    output.automaton.Knit grammar first := by
  obtain ⟨base, collected, result⟩ := exists_base_of_byLanes result
  obtain ⟨traced, unrolled⟩ :=
    tracedFrom_of_collect? wellFormed unused exact collected
  exact knit_ofTraced wellFormed unused exact traced unrolled
    (knit_of_collect? wellFormed unused exact collected) result

end Construction

/-- Whatever is generated has coherent states only. -/
theorem Grammar.knit_generateWithin {grammar : Grammar} {options : Options}
    {output : Output} {limit : Nat} (wellFormed : grammar.WellFormed)
    (unused : grammar.GoalUnused)
    (result : grammar.generateWithin limit options = .ok output) :
    output.automaton.Knit grammar (FirstSets.ofGrammar grammar) := by
  have exact := FirstSets.exact_ofGrammar wellFormed
  have built := built_of_generateWithin result
  rw [constructWithin] at built
  split at built
  · obtain ⟨automaton, collected, built⟩ := ok_of_bind built
    obtain ⟨table, -, final⟩ := ok_of_bind built
    cases final
    exact Automaton.knit_of_collect? wellFormed unused exact
      (Construction.collect?_of_collect collected)
  · exact Automaton.knit_of_collect? wellFormed unused exact
      (Construction.collect?_of_withLookaheads built).1
  · exact Construction.knit_byLanes wellFormed unused exact built
  · exact Construction.knit_byLanes wellFormed unused exact built

/-- In every automaton that is generated, the reachable states list their
configurations in order and without repetition, and the originators, the
transitions, the parents and the transitors are exactly those that the items
call for.  So no transition ever brings an item that its target does not
have. -/
theorem state_graph_coherent {grammar : Grammar} (accepted : grammar.Accepted)
    (unused : grammar.GoalUnused) (limit : Nat) (options : Options) :
    (∀ output, grammar.generateWithin limit options = .ok output →
      ∀ word number, output.automaton.Leads word number →
        output.automaton.Coherent grammar number) ∧
    ∀ state rule dot, grammar.generateWithin limit options ≠
      .error (.missingCore state rule dot) := by
  have wellFormed := accepted.wellFormed
  constructor
  · intro output result word number leads
    exact (Grammar.knit_generateWithin wellFormed unused result).coherent leads
  · exact Grammar.findsCores_generateWithin wellFormed unused limit options

theorem exists_output_twofold : ∃ output,
    Grammar.twofold.generateWithin 0 .standard = .ok output ∧
      output.automaton.Leads [.terminal 2, .terminal 4] 5 ∧
      output.automaton.Leads [.terminal 3, .terminal 4] 5 ∧
      (output.automaton.state 5).parents = [2, 3] ∧
      (output.automaton.configuration { state := 5, index := 0 }).transitors =
        [{ state := 2, index := 1 }, { state := 3, index := 1 }] ∧
      (output.automaton.configuration { state := 5, index := 1 }).transitors =
        [{ state := 2, index := 3 }, { state := 3, index := 3 }] := by
  apply exists_ok_of_any
  cbv

theorem state_graph_coherent_twofold : ∃ output,
    Grammar.twofold.generateWithin 0 .standard = .ok output ∧
      output.automaton.Leads [.terminal 2, .terminal 4] 5 ∧
      output.automaton.Leads [.terminal 3, .terminal 4] 5 ∧
      (output.automaton.state 5).parents = [2, 3] ∧
      (output.automaton.configuration { state := 5, index := 0 }).transitors =
        [{ state := 2, index := 1 }, { state := 3, index := 1 }] ∧
      (output.automaton.configuration { state := 5, index := 1 }).transitors =
        [{ state := 2, index := 3 }, { state := 3, index := 3 }] ∧
      output.automaton.Coherent .twofold 5 ∧
      ∀ state rule dot, Grammar.twofold.generateWithin 0 .standard ≠
        .error (.missingCore state rule dot) := by
  obtain ⟨output, result, one, other, parents, first, second⟩ :=
    exists_output_twofold
  obtain ⟨coherent, found⟩ :=
    state_graph_coherent accepted_twofold goalUnused_twofold 0 .standard
  exact ⟨output, result, one, other, parents, first, second,
    coherent output result _ 5 one, found⟩

end LRTables
