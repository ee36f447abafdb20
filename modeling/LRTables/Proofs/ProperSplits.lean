import LRTables.Lane.PagerSplit
import LRTables.Proofs.ClusterSplits
import LRTables.Proofs.ConflictLanes
import LRTables.Proofs.Propagations
import LRTables.Proofs.ProperTraces
import LRTables.Proofs.Remakes

/-!
# Splitting proper automata

Copies of a state other than the start state are never the start state, so
whichever copy a transition is led to, the automaton stays proper.
-/

namespace LRTables

variable {grammar : Grammar} {first : FirstSets}

namespace Automaton

variable {automaton : Automaton}

theorem IsTarget.mono {other : Automaton} {number : Nat}
    (isTarget : automaton.IsTarget number)
    (more : automaton.size ≤ other.size) : other.IsTarget number :=
  ⟨isTarget.1, Nat.lt_of_lt_of_le isTarget.2 more⟩

theorem Proper.isTarget_prototype (proper : automaton.Proper grammar)
    {number : Nat} (isTarget : automaton.IsTarget number) :
    automaton.IsTarget (automaton.prototype number) := by
  unfold prototype
  cases found : (automaton.state number).cloneOf with
  | none => exact isTarget
  | some original => exact proper.prototypes number original found

theorem Proper.prototype_start (proper : automaton.Proper grammar) :
    automaton.prototype start = start := by
  rw [prototype, proper.original]
  rfl

theorem Proper.terminated (proper : automaton.Proper grammar) :
    automaton.Terminated grammar := by
  rintro number - item terminal ⟨index, inside, -, member⟩
  exact ((proper.states number).configuration inside).2 terminal member

theorem Proper.lt_size_of_contains (proper : automaton.Proper grammar)
    {log : ConflictLog} {number : Nat}
    (onLane : (automaton.markConflictLanes grammar first log).2.contains
      number = true) : number < automaton.size := by
  obtain ⟨member, listed, rfl⟩ := contains_mark.mp onLane
  have inContext := context_of_laneMembers proper.terminated listed
  exact (holds_of_mem_context inContext).1

end Automaton

namespace State

variable {state : State}

theorem Proper.resetContexts (wellFormed : grammar.WellFormed)
    (exact : first.Exact grammar) (proper : state.Proper grammar) :
    (state.resetContexts grammar first).Proper grammar := by
  apply Proper.close wellFormed exact
  apply proper.mapConfigurations
  intro configuration _ own
  refine ⟨own.1, ?_⟩
  intro terminal member
  dsimp only at member
  split at member
  · rw [TerminalSet.mem_singleton] at member
    exact member ▸ wellFormed.hasEnd
  · exact absurd member (TerminalSet.not_mem_empty terminal)

end State

theorem Automaton.succeeds_resetContexts (state : State) :
    Succeeds state (state.resetContexts grammar first) := by
  have cleared : Succeeds state (state.mapConfigurations fun configuration =>
      { configuration with
        context :=
          if configuration.item = .goal then .singleton Terminal.endOfInput
          else ∅ }) := ⟨rfl, rfl, List.Sublist.refl _⟩
  exact cleared.trans (succeeds_close true _)

namespace Families

/-- Only the start state is a copy of the start state, and all copies
exist. -/
def Proper (families : Families) (automaton : Automaton) : Prop :=
  ∀ prototype, prototype ≠ Automaton.start →
    ∀ copy ∈ families.copiesOf prototype, automaton.IsTarget copy

theorem copiesOf_update {families : Families} {prototype other copy : Nat} :
    copiesOf (Ordered.update families prototype [] (· ++ [copy])) other =
      if other = prototype then families.copiesOf prototype ++ [copy]
      else families.copiesOf other := by
  rw [copiesOf, Ordered.find?_update]
  split <;> rfl

theorem Proper.update {families : Families} {automaton : Automaton}
    (proper : families.Proper automaton) {prototype copy : Nat}
    (isTarget : prototype ≠ Automaton.start → automaton.IsTarget copy) :
    Proper (Ordered.update families prototype [] (· ++ [copy]))
      automaton := by
  intro other notStart number member
  rw [copiesOf_update] at member
  split at member
  · rename_i same
    subst same
    rcases List.mem_append.mp member with old | new
    · exact proper other notStart number old
    · rw [List.mem_singleton] at new
      exact new ▸ isTarget notStart
  · exact proper other notStart number member

theorem Proper.mono {families : Families} {automaton other : Automaton}
    (proper : families.Proper automaton)
    (more : automaton.size ≤ other.size) : families.Proper other :=
  fun prototype notStart copy member =>
    (proper prototype notStart copy member).mono more

theorem proper_ofRegion {automaton : Automaton}
    (proper : automaton.Proper grammar) (region : Region) :
    (ofRegion automaton region).Proper automaton := by
  unfold ofRegion
  have each (numbers : List Nat)
      (inside : ∀ number ∈ numbers, number < automaton.size)
      (families : Families) (holds : families.Proper automaton) :
      Proper (numbers.foldl (fun families number =>
        let prototype := automaton.prototype number
        if region.contains prototype then
          Ordered.update families prototype [] (· ++ [number])
        else families) families) automaton := by
    induction numbers generalizing families with
    | nil => exact holds
    | cons number rest ih =>
        apply ih fun other member =>
          inside other (List.mem_cons_of_mem _ member)
        dsimp only
        split
        · apply holds.update
          intro notStart
          refine ⟨Nat.pos_of_ne_zero ?_, inside number List.mem_cons_self⟩
          rintro rfl
          exact notStart proper.prototype_start
        · exact holds
  apply each
  · exact fun number member => List.mem_range.mp member
  · intro prototype _ copy member
    cases member

end Families

namespace Splitting

variable {splitting : Splitting}

structure Proper (grammar : Grammar) (splitting : Splitting) : Prop where
  automaton : splitting.automaton.Proper grammar
  families : splitting.families.Proper splitting.automaton

/-- The splitting goes on to one that offers the target of a transition. -/
structure Offers (grammar : Grammar) (old : Splitting) (target : Nat)
    (new : Splitting) : Prop where
  proper : new.Proper grammar
  isTarget : new.automaton.IsTarget target
  size_le : old.automaton.size ≤ new.automaton.size

theorem proper_begin {automaton : Automaton}
    (proper : automaton.Proper grammar) (region : Region) :
    (begin automaton region).Proper grammar :=
  ⟨proper, Families.proper_ofRegion proper region⟩

theorem Proper.enlarge (proper : splitting.Proper grammar)
    {other : Splitting} (automaton : other.automaton.Proper grammar)
    (more : splitting.automaton.size ≤ other.automaton.size)
    (families : other.families = splitting.families) :
    other.Proper grammar :=
  ⟨automaton, families ▸ proper.families.mono more⟩

theorem Proper.offers (proper : splitting.Proper grammar) {target : Nat}
    (isTarget : splitting.automaton.IsTarget target) :
    Offers grammar splitting target splitting :=
  ⟨proper, isTarget, Nat.le_refl _⟩

theorem Proper.offers_copy (proper : splitting.Proper grammar)
    {prototype target : Nat}
    (isTarget : splitting.automaton.IsTarget prototype)
    (member : target ∈ splitting.families.copiesOf prototype) :
    Offers grammar splitting target splitting :=
  proper.offers
    (proper.families prototype (Nat.ne_of_gt isTarget.1) target member)

section Steps

variable (wellFormed : grammar.WellFormed) (exact : first.Exact grammar)

include wellFormed exact

theorem Proper.reset (proper : splitting.Proper grammar) (number : Nat) :
    (splitting.reset grammar first number).Proper grammar := by
  apply proper.enlarge
  · exact proper.automaton.modify number
      (Automaton.succeeds_resetContexts _)
      fun own => own.resetContexts wellFormed exact
  · exact Nat.le_of_eq (Automaton.size_modify _).symm
  · rfl

theorem Proper.resetAll (proper : splitting.Proper grammar)
    (numbers : List Nat) :
    (numbers.foldl (Splitting.reset grammar first) splitting).Proper
      grammar := by
  induction numbers generalizing splitting with
  | nil => exact proper
  | cons number rest ih => exact ih (proper.reset wellFormed exact number)

theorem Proper.offers_clone (proper : splitting.Proper grammar)
    {prototype : Nat} (isTarget : splitting.automaton.IsTarget prototype) :
    Offers grammar splitting splitting.automaton.size
      (splitting.clone grammar first prototype) := by
  have size := @Splitting.size_clone grammar first splitting prototype
  have more : splitting.automaton.size ≤
      (splitting.clone grammar first prototype).automaton.size :=
    size ▸ Nat.le_succ _
  have fresh : (splitting.clone grammar first prototype).automaton.IsTarget
      splitting.automaton.size :=
    ⟨proper.automaton.positive, size ▸ Nat.lt_succ_self _⟩
  refine ⟨⟨?_, ?_⟩, fresh, more⟩
  · rw [automaton_clone]
    have cloned := proper.automaton.clone
      (proper.automaton.isTarget_prototype isTarget)
    exact cloned.modify _ (Automaton.succeeds_resetContexts _)
      fun own => own.resetContexts wellFormed exact
  · exact (proper.families.mono more).update fun _ => fresh

theorem Offers.take {old new : Splitting} {target : Nat}
    (offers : Offers grammar old target new) (source : Nat) {symbol : Symbol}
    (held : grammar.Holds symbol) {incoming : List Configuration}
    {merged : Automaton} {grown : Bool}
    (each : ∀ configuration ∈ incoming, configuration.Proper grammar)
    (result : new.automaton.absorb grammar first target incoming =
      (merged, grown)) :
    merged.Proper grammar ∧ merged.size = new.automaton.size ∧
      (merged.relink source symbol target).Proper grammar := by
  have absorbed := offers.proper.automaton.absorb wellFormed exact target each
  have size : (new.automaton.absorb grammar first target incoming).1.size =
      new.automaton.size := Automaton.size_absorb
  rw [result] at absorbed size
  exact ⟨absorbed, size,
    absorbed.relink held (offers.isTarget.mono (Nat.le_of_eq size.symm))⟩

end Steps

end Splitting

namespace PagerSplitting

variable {pager : PagerSplitting} {region : Region}
  (wellFormed : grammar.WellFormed) (exact : first.Exact grammar)

include wellFormed exact

theorem offers_choose {splitting chosen : Splitting} {current target : Nat}
    (proper : splitting.Proper grammar)
    (isTarget : splitting.automaton.IsTarget current)
    {incoming : List Configuration}
    (result : choose grammar first splitting current incoming =
      (target, chosen)) :
    Splitting.Offers grammar splitting target chosen := by
  have original := proper.automaton.isTarget_prototype isTarget
  obtain ⟨rfl, copy, -⟩ | ⟨-, ⟨rfl, among, -⟩ | ⟨rfl, rfl, -⟩⟩ :=
    choose_cases result
  · exact proper.offers_copy original copy
  · have isCandidate : splitting.automaton.IsTarget target := by
      rcases among with rfl | copy
      · exact isTarget
      · exact (proper.offers_copy original copy).isTarget
    exact ⟨⟨proper.automaton, proper.families⟩, isCandidate, Nat.le_refl _⟩
  · exact proper.offers_clone wellFormed exact original

theorem proper_remake (source : Nat) {edge : Symbol × Nat}
    (proper : pager.splitting.Proper grammar) (held : grammar.Holds edge.1)
    (isTarget : pager.splitting.automaton.IsTarget edge.2) :
    (remake grammar first source pager edge).splitting.Proper grammar ∧
      pager.splitting.automaton.size ≤
        (remake grammar first source pager edge).splitting.automaton.size := by
  obtain ⟨symbol, current⟩ := edge
  obtain ⟨-, same⟩ | ⟨target, splitting, merged, grown, -, choice, absorbed,
      next⟩ := @remake_split grammar first pager source current symbol _ rfl
  · rw [same]
    exact ⟨proper, Nat.le_refl _⟩
  · have arrives := (proper.automaton.states source).successorCores
      true symbol
    have offers := offers_choose wellFormed exact proper isTarget choice
    obtain ⟨kept, same, relinked⟩ :=
      offers.take wellFormed exact source held arrives absorbed
    have size : (merged.relink source symbol target).size = merged.size :=
      Automaton.size_relink source symbol target
    rw [next]
    split
    · exact ⟨offers.proper.enlarge kept (Nat.le_of_eq same.symm) rfl,
        offers.size_le.trans (Nat.le_of_eq same.symm)⟩
    · have more : splitting.automaton.size ≤
          (merged.relink source symbol target).size :=
        Nat.le_of_eq (size.trans same).symm
      exact ⟨offers.proper.enlarge relinked more rfl,
        offers.size_le.trans more⟩

theorem proper_remakeEdges {source : Nat} {edges : List (Symbol × Nat)}
    (proper : pager.splitting.Proper grammar)
    (held : ∀ edge ∈ edges, grammar.Holds edge.1)
    (targets : ∀ edge ∈ edges, pager.splitting.automaton.IsTarget edge.2) :
    (edges.foldl (remake grammar first source) pager).splitting.Proper
      grammar := by
  induction edges generalizing pager with
  | nil => exact proper
  | cons edge rest ih =>
      obtain ⟨remade, more⟩ := proper_remake wellFormed exact source
        proper (held edge List.mem_cons_self)
        (targets edge List.mem_cons_self)
      apply ih remade fun other later =>
        held other (List.mem_cons_of_mem _ later)
      intro other later
      exact (targets other (List.mem_cons_of_mem _ later)).mono more

theorem proper_remakeAll {number : Nat}
    (proper : pager.splitting.Proper grammar) :
    (remakeAll grammar first region pager number).splitting.Proper
      grammar := by
  unfold remakeAll
  dsimp only
  split
  · exact proper
  · apply proper_remakeEdges wellFormed exact proper
    · intro edge member
      exact proper.automaton.held number edge (List.mem_filter.mp member).1
    · intro edge member
      exact proper.automaton.targets number edge
        (List.mem_filter.mp member).1

theorem proper_run {limit : Nat} {splitting : Splitting}
    (proper : pager.splitting.Proper grammar)
    (result : run grammar first region limit pager = .ok splitting) :
    splitting.Proper grammar := by
  induction limit generalizing pager with
  | zero => cases result
  | succ limit ih =>
      rw [run] at result
      split at result
      · cases result
        exact proper
      · refine ih (proper_remakeAll wellFormed exact ?_) result
        exact proper

theorem proper_splitByPager {automaton : Automaton} {splitting : Splitting}
    (proper : automaton.Proper grammar)
    (result : region.splitByPager grammar first automaton = .ok splitting) :
    splitting.Proper grammar :=
  proper_run wellFormed exact
    ((Splitting.proper_begin proper region).resetAll wellFormed exact
      region.states)
    result

end PagerSplitting

namespace ClusterSplitting

variable {growing : ClusterSplitting} {region : Region}

/-- The states of the region exist, and only the start state has the start
state as its copy in the cluster. -/
structure Proper (grammar : Grammar) (region : Region)
    (growing : ClusterSplitting) : Prop where
  splitting : growing.splitting.Proper grammar
  region : ∀ number, region.contains number = true →
    number < growing.splitting.automaton.size
  cluster : ∀ prototype, prototype ≠ Automaton.start → ∀ copy,
    Ordered.find? growing.cluster prototype = some copy →
      growing.splitting.automaton.IsTarget copy

section Steps

variable (wellFormed : grammar.WellFormed) (exact : first.Exact grammar)

include wellFormed exact

theorem proper_resetState (region : Region) {splitting : Splitting}
    (proper : splitting.Proper grammar) (number : Nat) :
    (resetState grammar first region splitting number).Proper grammar ∧
      (resetState grammar first region splitting number).automaton.size =
        splitting.automaton.size := by
  have cleared := proper.reset wellFormed exact number
  have size : (splitting.reset grammar first number).automaton.size =
      splitting.automaton.size := Automaton.size_modify _
  have own := proper.automaton.states number
  unfold resetState
  dsimp only
  split
  · have modified : ((splitting.reset grammar first number).automaton.modify
        number fun state =>
          ((state.joinContexts (splitting.automaton.state
            number).coreContexts).close grammar first true).1).Proper
        grammar := by
      apply cleared.automaton.modify
      · have joined (state : State) (contexts : List TerminalSet) :
            Automaton.Succeeds state (state.joinContexts contexts) :=
          ⟨rfl, rfl, List.Sublist.refl _⟩
        exact (joined _ _).trans (Automaton.succeeds_close true _)
      · intro reset
        apply State.Proper.close wellFormed exact
        apply reset.joinContexts
        intro context member
        obtain ⟨configuration, listed, rfl⟩ := List.mem_map.mp member
        exact (own configuration
          (Array.mem_toList_iff.mp (List.mem_of_mem_take listed))).2
    have same : ((splitting.reset grammar first number).automaton.modify number
        fun state =>
          ((state.joinContexts (splitting.automaton.state
            number).coreContexts).close grammar first true).1).size =
        (splitting.reset grammar first number).automaton.size :=
      Automaton.size_modify _
    exact ⟨cleared.enlarge modified (Nat.le_of_eq same.symm) rfl,
      same.trans size⟩
  · exact ⟨cleared, size⟩

theorem proper_begin {automaton : Automaton}
    (proper : automaton.Proper grammar)
    (inside : ∀ number, region.contains number = true →
      number < automaton.size) :
    (begin grammar first automaton region).Proper grammar region := by
  have each (numbers : List Nat) (splitting : Splitting)
      (holds : splitting.Proper grammar) :
      (numbers.foldl (resetState grammar first region) splitting).Proper
          grammar ∧
        (numbers.foldl (resetState grammar first region)
          splitting).automaton.size = splitting.automaton.size := by
    induction numbers generalizing splitting with
    | nil => exact ⟨holds, rfl⟩
    | cons number rest ih =>
        obtain ⟨step, same⟩ := proper_resetState wellFormed exact region
          holds number
        obtain ⟨later, equal⟩ := ih _ step
        exact ⟨later, equal.trans same⟩
  obtain ⟨holds, size⟩ := each region.states _
    (Splitting.proper_begin proper region)
  constructor
  · exact holds
  · intro number member
    exact Nat.lt_of_lt_of_le (inside number member) (Nat.le_of_eq size.symm)
  · intro prototype _ copy none
    cases none

theorem offers_choose {prototype target : Nat} {splitting : Splitting}
    {incoming : List Configuration} (proper : growing.Proper grammar region)
    (isTarget : growing.splitting.automaton.IsTarget prototype)
    (result : choose grammar first region growing prototype incoming =
      (target, splitting)) :
    Splitting.Offers grammar growing.splitting target splitting := by
  rcases choose_cases result with ⟨rfl, inCluster | copy, -⟩ | ⟨rfl, rfl, -⟩
  · exact proper.splitting.offers
      (proper.cluster prototype (Nat.ne_of_gt isTarget.1) target inCluster)
  · exact proper.splitting.offers_copy isTarget copy
  · exact proper.splitting.offers_clone wellFormed exact isTarget

theorem proper_led {old new : Splitting} {source current target : Nat}
    {symbol : Symbol} {incoming : List Configuration}
    (offers : Splitting.Offers grammar old target new)
    (held : grammar.Holds symbol)
    (each : ∀ configuration ∈ incoming, configuration.Proper grammar) :
    (led (taken grammar first new target incoming) source symbol current
        target).Proper grammar ∧
      (led (taken grammar first new target incoming) source symbol current
        target).automaton.size = new.automaton.size := by
  unfold led taken
  cases absorbed : new.automaton.absorb grammar first target incoming with
  | mk merged grown =>
  obtain ⟨kept, size, relinked⟩ :=
    offers.take wellFormed exact source held each absorbed
  have families : (if grown then new.countMerge else new).families =
      new.families := by
    split <;> rfl
  dsimp only
  split
  · exact ⟨offers.proper.enlarge kept (Nat.le_of_eq size.symm) families, size⟩
  · have same := (Automaton.size_relink source symbol target).trans size
    exact ⟨offers.proper.enlarge relinked (Nat.le_of_eq same.symm) families,
      same⟩

/-- Lanes lead to states with an entry symbol, so not to the start state. -/
theorem Proper.followLane (proper : growing.Proper grammar region)
    (source prototype : Nat) :
    (followLane grammar first region source growing prototype).Proper grammar
      region := by
  rcases @followLane_cases grammar first region growing source prototype with
    ⟨same, -⟩ | ⟨symbol, current, target, splitting, entry, edge, contained,
      choice, next⟩
  · rw [same]
    exact proper
  · have isTarget : growing.splitting.automaton.IsTarget prototype := by
      refine ⟨Nat.pos_of_ne_zero ?_, proper.region prototype contained⟩
      rintro rfl
      exact nomatch proper.splitting.automaton.entry.symm.trans entry
    have held : grammar.Holds symbol :=
      proper.splitting.automaton.held source _
        (proper.splitting.automaton.keyed.mem_successors.mpr edge)
    have offers := offers_choose wellFormed exact proper isTarget choice
    obtain ⟨led, size⟩ := @proper_led grammar first wellFormed exact
      growing.splitting splitting source current target symbol _ offers held
      ((proper.splitting.automaton.states source).successorCores true symbol)
    rw [next]
    constructor
    · exact led
    · intro number inside
      dsimp only
      rw [size]
      exact Nat.lt_of_lt_of_le (proper.region number inside) offers.size_le
    · intro other notStart copy present
      rw [Ordered.find?_put] at present
      split at present
      · cases present
        exact offers.isTarget.mono (Nat.le_of_eq size.symm)
      · exact (proper.cluster other notStart copy present).mono
          (offers.size_le.trans (Nat.le_of_eq size.symm))

theorem Proper.followLanes (proper : growing.Proper grammar region)
    (number : Nat) :
    (followLanes grammar first region growing number).Proper grammar
      region := by
  unfold ClusterSplitting.followLanes
  dsimp only
  split
  · have each (prototypes : List Nat) (growing : ClusterSplitting)
        (holds : growing.Proper grammar region) :
        (prototypes.foldl (ClusterSplitting.followLane grammar first region
          number) growing).Proper grammar region := by
      induction prototypes generalizing growing with
      | nil => exact holds
      | cons prototype rest ih =>
          exact ih _ (holds.followLane wellFormed exact number prototype)
    apply each
    exact ⟨proper.splitting, proper.region, proper.cluster⟩
  · exact proper

theorem proper_turn (proper : growing.Proper grammar region) :
    (turn grammar first region growing).Proper grammar region := by
  rw [turn]
  split
  · exact proper
  · apply Proper.followLanes wellFormed exact
    exact ⟨proper.splitting, proper.region, proper.cluster⟩

omit wellFormed exact in
/-- A new cluster has its head as its only copy. -/
theorem Proper.startAt {head : Nat} (proper : growing.Proper grammar region)
    (contained : region.contains head = true) (claimed : List Nat)
    (queue : WorkQueue Nat) :
    Proper grammar region
      { growing with
        claimed
        cluster := [(head, head)]
        queue } := by
  refine ⟨proper.splitting, proper.region, ?_⟩
  intro prototype notStart copy found
  rw [Ordered.find?_cons] at found
  split at found
  · rename_i own
    cases found
    subst own
    exact ⟨Nat.pos_of_ne_zero notStart, proper.region _ contained⟩
  · cases found

theorem proper_of_occurs {automaton : Automaton}
    (proper : automaton.Proper grammar)
    (inside : ∀ number, region.contains number = true →
      number < automaton.size)
    (occurs : Occurs grammar first automaton region growing) :
    growing.Proper grammar region := by
  induction occurs with
  | begin => exact proper_begin wellFormed exact proper inside
  | start head _ _ _ contained _ ih => exact ih.startAt contained _ _
  | turn _ ih => exact proper_turn wellFormed exact ih

theorem proper_splitByClusters {automaton : Automaton} {limit : Nat}
    {splitting : Splitting} (proper : automaton.Proper grammar)
    (inside : ∀ number, region.contains number = true →
      number < automaton.size)
    (result : region.splitByClusters limit grammar first automaton =
      .ok splitting) : splitting.Proper grammar := by
  obtain ⟨grown, occurs, -, rfl⟩ := occurs_splitByClusters result
  exact (proper_of_occurs wellFormed exact proper inside occurs).splitting

end Steps

end ClusterSplitting

namespace Propagating

theorem proper_deliver {number : Nat} {state delivered : State}
    {incoming : List Configuration} (proper : state.Proper grammar)
    (each : ∀ configuration ∈ incoming, configuration.Proper grammar)
    (result : deliver number state incoming = .ok delivered) :
    delivered.Proper grammar ∧ Automaton.Succeeds state delivered := by
  induction incoming generalizing state with
  | nil =>
      cases result
      exact ⟨proper, .refl _⟩
  | cons arriving rest ih =>
      rw [deliver] at result
      split at result
      · cases result
      · rename_i index found
        have joined : (state.modify index fun configuration =>
            { configuration with
              context := configuration.context ∪ arriving.context }).Proper
            grammar := by
          apply proper.modify
          intro own
          exact ⟨own.1, Tracing.within_union own.2
            (each arriving List.mem_cons_self).2⟩
        obtain ⟨holds, succeeds⟩ := ih joined
          (fun other later => each other (List.mem_cons_of_mem _ later)) result
        exact ⟨holds, succeeds.entry, succeeds.cloneOf, succeeds.successors⟩

section Steps

variable (wellFormed : grammar.WellFormed) (exact : first.Exact grammar)

include wellFormed exact

theorem proper_pushAlong {source : Nat} {propagating next : Propagating}
    {edge : Symbol × Nat} (proper : propagating.automaton.Proper grammar)
    (result : pushAlong grammar first source propagating edge = .ok next) :
    next.automaton.Proper grammar := by
  obtain ⟨symbol, target⟩ := edge
  rw [pushAlong] at result
  obtain ⟨after, delivery, result⟩ := ok_of_bind result
  obtain ⟨holds, succeeds⟩ := proper_deliver (proper.states target)
    ((proper.states source).successorCores true symbol) delivery
  split at result
  · cases result
    exact proper
  · cases result
    apply proper.modify
    · exact succeeds.trans (Automaton.succeeds_close true after)
    · exact fun _ => holds.close wellFormed exact

theorem proper_run {limit : Nat} {propagating done : Propagating}
    (proper : propagating.automaton.Proper grammar)
    (result : run grammar first limit propagating = .ok done) :
    done.automaton.Proper grammar := by
  have each (source : Nat) (edges : List (Symbol × Nat))
      (propagating next : Propagating)
      (holds : propagating.automaton.Proper grammar)
      (pushed : edges.foldlM (pushAlong grammar first source) propagating =
        .ok next) : next.automaton.Proper grammar := by
    induction edges generalizing propagating with
    | nil =>
        cases pushed
        exact holds
    | cons edge rest ih =>
        rw [List.foldlM_cons] at pushed
        obtain ⟨middle, step, others⟩ := ok_of_bind pushed
        exact ih _ (proper_pushAlong wellFormed exact holds step) others
  induction limit generalizing propagating with
  | zero => cases result
  | succ limit ih =>
      rw [run] at result
      split at result
      · cases result
        exact proper
      · obtain ⟨middle, pushed, later⟩ := ok_of_bind result
        refine ih (each _ _ _ _ ?_ pushed) later
        exact proper

end Steps

end Propagating

theorem Automaton.Proper.propagate {automaton done : Automaton}
    {updates : Nat} (wellFormed : grammar.WellFormed)
    (exact : first.Exact grammar) (proper : automaton.Proper grammar)
    (result : automaton.propagate grammar first = .ok (done, updates)) :
    done.Proper grammar := by
  rw [Automaton.propagate] at result
  obtain ⟨last, run, final⟩ := ok_of_bind result
  cases final
  exact Propagating.proper_run wellFormed exact proper run

theorem Splitting.proper_regenerate {splitting done : Splitting}
    (wellFormed : grammar.WellFormed) (exact : first.Exact grammar)
    (proper : splitting.Proper grammar)
    (result : splitting.regenerate grammar first = .ok done) :
    done.automaton.Proper grammar := by
  have detached : Splitting.Proper grammar
      { splitting with automaton := splitting.automaton.detachUnreachable } :=
    proper.enlarge proper.automaton.detachUnreachable
      (Nat.le_of_eq Automaton.size_detach.symm) rfl
  rw [regenerate] at result
  obtain ⟨⟨automaton, updates⟩, propagation, final⟩ := ok_of_bind result
  cases final
  exact (detached.resetAll wellFormed exact
    splitting.families.members).automaton.propagate wellFormed exact propagation

end LRTables
