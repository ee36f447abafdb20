import LRTables.Lane.ClusterSplit
import LRTables.Proofs.Splittings

/-!
# Splitting by clusters leaves the automaton intact

A state of a cluster is led on only along lanes, and these are transitions of
the automaton that is split.
-/

namespace LRTables

namespace ClusterSplitting

variable {grammar : Grammar} {first : FirstSets} {base : Automaton}
  {region : Region} {growing grown : ClusterSplitting}
  {good : State → Prop} (wellFormed : grammar.WellFormed)
  (unused : grammar.GoalUnused) (exact : first.Exact grammar)
  (sustains : Sustains grammar first False good)

/-- What holds in the course of a splitting by clusters. -/
structure Kept (grammar : Grammar) (first : FirstSets)
    (good : State → Prop) (base : Automaton) (growing : ClusterSplitting) :
    Prop where
  splitting : growing.splitting.Kept grammar first good base
  cluster : ∀ prototype < base.size, ∀ copy,
    Ordered.find? growing.cluster prototype = some copy →
      copy < growing.splitting.automaton.size ∧
        growing.splitting.automaton.prototype copy = prototype

/-- The lane from the source to the state is one along which the transition on
its entry symbol can be led. -/
structure Ready (grammar : Grammar) (base automaton : Automaton)
    (source prototype : Nat) : Prop where
  inside : prototype < base.size
  original : automaton.prototype prototype = prototype
  fits : ∀ symbol, (automaton.state prototype).entry = some symbol →
    automaton.Fits grammar source symbol prototype

theorem Ready.enlarge {old new : Automaton} {source prototype : Nat}
    (ready : Ready grammar base old source prototype)
    (before : base.Enlarges old) (enlarges : old.Enlarges new) :
    Ready grammar base new source prototype := by
  have inside := Nat.lt_of_lt_of_le ready.inside before.size_le
  constructor
  · exact ready.inside
  · rw [enlarges.prototype prototype inside, ready.original]
  · intro symbol entry
    rw [(enlarges.sameItems prototype inside).entry] at entry
    exact (ready.fits symbol entry).enlarge enlarges

/-- The copy lacks nothing of what arrives, or it can take it in without a new
overlap on the terminals of the lanes, or it belongs to no cluster yet. -/
def Takes (region : Region) (growing : ClusterSplitting) (prototype : Nat)
    (incoming : List Configuration) (target : Nat) : Prop :=
  (growing.splitting.automaton.state target).covers incoming = true ∨
    (growing.splitting.automaton.state target).canJoin
        (region.terminalsAt prototype) incoming = true ∨
      target ∉ growing.claimed

/-- A copy from the cluster or from the family is chosen, or a new one is made
if no copy in the family has all that arrives. -/
theorem choose_cases {prototype target : Nat} {splitting : Splitting}
    {incoming : List Configuration}
    (result : choose grammar first region growing prototype incoming =
      (target, splitting)) :
    (splitting = growing.splitting ∧
      (Ordered.find? growing.cluster prototype = some target ∨
        target ∈ growing.splitting.families.copiesOf prototype) ∧
      growing.Takes region prototype incoming target) ∨
    (splitting = growing.splitting.clone grammar first prototype ∧
      target = growing.splitting.automaton.size ∧
      ∀ copy ∈ growing.splitting.families.copiesOf prototype,
        (growing.splitting.automaton.state copy).covers incoming = false) := by
  unfold choose at result
  dsimp only at result
  split at result
  · rename_i copy found
    cases result
    refine Or.inl ⟨rfl, ?_⟩
    simp only [Option.orElse_eq_orElse, Option.orElse_eq_or,
      Option.or_eq_some_iff] at found
    rcases found with inCluster | ⟨-, covering | ⟨-, free⟩⟩
    · obtain ⟨member, takesIn⟩ := Option.filter_eq_some_iff.mp inCluster
      exact ⟨Or.inl member, Or.inr (Or.inl takesIn)⟩
    · exact ⟨Or.inr (Splitting.mem_copiesOf_of_covering? covering),
        Or.inl (Splitting.covers_of_covering? covering)⟩
    · refine ⟨Or.inr (List.mem_of_find?_eq_some free), Or.inr ?_⟩
      have isFree := List.find?_some free
      rw [Bool.or_eq_true, Bool.not_eq_true', ← Bool.not_eq_true,
        List.contains_iff_mem] at isFree
      exact isFree.symm
  · rename_i missing
    cases result
    simp only [Option.orElse_eq_orElse, Option.orElse_eq_or,
      Option.or_eq_none_iff] at missing
    exact Or.inr ⟨rfl, rfl, Splitting.not_covers_of_covering? missing.2.1⟩

theorem Kept.copy_of_among {prototype target : Nat}
    (kept : growing.Kept grammar first good base)
    (inside : prototype < base.size)
    (among : Ordered.find? growing.cluster prototype = some target ∨
      target ∈ growing.splitting.families.copiesOf prototype) :
    target < growing.splitting.automaton.size ∧
      growing.splitting.automaton.prototype target = prototype := by
  rcases among with inCluster | copy
  · exact kept.cluster prototype inside target inCluster
  · exact kept.splitting.families prototype target copy

include wellFormed unused exact sustains in
theorem chosen_choose {source prototype target : Nat} {symbol : Symbol}
    {splitting : Splitting} {incoming : List Configuration}
    (kept : growing.Kept grammar first good base)
    (inside : prototype < base.size)
    (original : growing.splitting.automaton.prototype prototype = prototype)
    (fits : growing.splitting.automaton.Fits grammar source symbol prototype)
    (result : choose grammar first region growing prototype incoming =
      (target, splitting)) :
    Splitting.Chosen grammar first False good base incoming growing.splitting
      prototype target splitting := by
  rcases choose_cases result with ⟨rfl, among, -⟩ | ⟨rfl, rfl, -⟩
  · obtain ⟨targetInside, same⟩ := kept.copy_of_among inside among
    exact kept.splitting.chosen targetInside same False.elim
  · exact kept.splitting.chosen_clone wellFormed unused exact sustains
      fits.target_lt original fits.moved

/-- A copy is put into the cluster. -/
theorem Kept.put {prototype target : Nat}
    (kept : growing.Kept grammar first good base)
    (next : grown.splitting.Kept grammar first good base)
    (enlarges : growing.splitting.automaton.Enlarges
      grown.splitting.automaton)
    (inside : target < grown.splitting.automaton.size)
    (same : grown.splitting.automaton.prototype target = prototype)
    (cluster : grown.cluster =
      Ordered.put growing.cluster prototype target) :
    grown.Kept grammar first good base := by
  refine ⟨next, ?_⟩
  intro other otherInside copy found
  rw [cluster, Ordered.find?_put] at found
  split at found
  · rename_i own
    cases found
    exact ⟨inside, same.trans own.symm⟩
  · obtain ⟨copyInside, copySame⟩ :=
      kept.cluster other otherInside copy found
    refine ⟨Nat.lt_of_lt_of_le copyInside enlarges.size_le, ?_⟩
    rw [enlarges.prototype copy copyInside, copySame]

/-- A splitting once a copy has taken in what arrives. -/
def taken (grammar : Grammar) (first : FirstSets) (splitting : Splitting)
    (target : Nat) (incoming : List Configuration) : Splitting :=
  { if (splitting.automaton.absorb grammar first target incoming).2 then
      splitting.countMerge
    else splitting with
    automaton :=
      (splitting.automaton.absorb grammar first target incoming).1 }

/-- A splitting once a transition goes to the target. -/
def led (splitting : Splitting) (source : Nat) (symbol : Symbol)
    (current target : Nat) : Splitting :=
  { splitting with
    automaton :=
      if target = current then splitting.automaton
      else splitting.automaton.relink source symbol target }

/-- What waits once a copy has taken in what arrives and a transition has been
led there. -/
def queued (grammar : Grammar) (first : FirstSets) (queue : WorkQueue Nat)
    (splitting : Splitting) (current target : Nat)
    (incoming : List Configuration) : WorkQueue Nat :=
  let waiting :=
    if (splitting.automaton.absorb grammar first target incoming).2 then
      queue.push target
    else queue
  if target = current then waiting else waiting.push target

/-- A lane is not followed if there is no transition to lead or the state is not
in the region.  Otherwise the transition on the entry symbol is led to the copy
that is chosen for what arrives. -/
theorem followLane_cases (source prototype : Nat) :
    (followLane grammar first region source growing prototype = growing ∧
      (region.contains prototype = true → ∀ symbol,
        (growing.splitting.automaton.state prototype).entry = some symbol →
          (growing.splitting.automaton.state source).successor? symbol =
            none)) ∨
    ∃ symbol current target splitting,
      (growing.splitting.automaton.state prototype).entry = some symbol ∧
      (growing.splitting.automaton.state source).successor? symbol =
        some current ∧
      region.contains prototype = true ∧
      choose grammar first region growing prototype
          ((growing.splitting.automaton.state source).successorCores grammar
            true symbol) = (target, splitting) ∧
      followLane grammar first region source growing prototype =
        { growing with
          splitting :=
            led (taken grammar first splitting target
                ((growing.splitting.automaton.state source).successorCores
                  grammar true symbol))
              source symbol current target
          claimed := Ordered.insert growing.claimed target
          cluster := Ordered.put growing.cluster prototype target
          queue := queued grammar first growing.queue splitting current target
            ((growing.splitting.automaton.state source).successorCores grammar
              true symbol) } := by
  rw [followLane]
  dsimp only
  split
  · rename_i missing
    refine Or.inl ⟨rfl, fun _ symbol entry => ?_⟩
    apply Option.eq_none_iff_forall_ne_some.mpr
    simpa [entry] using missing
  · rename_i symbol current found
    simp only [Option.bind_eq_bind, Option.bind_eq_some_iff] at found
    obtain ⟨scanned, entry, next, edge, same⟩ := found
    cases same
    split
    · rename_i outside
      rw [Bool.not_eq_true'] at outside
      refine Or.inl ⟨rfl, fun contained => ?_⟩
      rw [outside] at contained
      cases contained
    · rename_i contained
      rw [Bool.not_eq_true', Bool.not_eq_false] at contained
      exact Or.inr ⟨symbol, current, _, _, entry, edge, contained, rfl, rfl⟩

include wellFormed unused exact sustains in
theorem kept_led {old new : Splitting} {source prototype current target : Nat}
    {symbol : Symbol} (kept : old.Kept grammar first good base)
    (fits : old.automaton.Fits grammar source symbol prototype)
    (original : old.automaton.prototype prototype = prototype)
    (chosen : Splitting.Chosen grammar first False good base
      ((old.automaton.state source).successorCores grammar true symbol) old
      prototype target new) :
    (led (taken grammar first new target
          ((old.automaton.state source).successorCores grammar true symbol))
        source symbol current target).Kept grammar first good base ∧
      new.automaton.Enlarges
        (led (taken grammar first new target
            ((old.automaton.state source).successorCores grammar true symbol))
          source symbol current target).automaton := by
  unfold led taken
  cases absorbed : new.automaton.absorb grammar first target
      ((old.automaton.state source).successorCores grammar true symbol) with
  | mk merged grown =>
  obtain ⟨intact, enlarges, all, relinked⟩ :=
    chosen.take wellFormed unused exact sustains kept fits original absorbed
  have redirects := merged.enlarges_relink source symbol target
  have families : (if grown then new.countMerge else new).families =
      new.families := by
    split <;> rfl
  dsimp only
  split
  · exact ⟨chosen.kept.enlarge intact enlarges all families, enlarges⟩
  · have overall := enlarges.trans redirects
    exact ⟨chosen.kept.enlarge relinked overall
      (sustains.relink all source symbol target) families, overall⟩

include wellFormed unused exact sustains in
theorem kept_followLane {source prototype : Nat}
    (kept : growing.Kept grammar first good base)
    (ready : Ready grammar base growing.splitting.automaton source
      prototype) :
    (followLane grammar first region source growing prototype).Kept grammar
        first good base ∧
      growing.splitting.automaton.Enlarges
        (followLane grammar first region source growing
          prototype).splitting.automaton := by
  rcases @followLane_cases grammar first region growing source prototype with
    ⟨same, -⟩ | ⟨symbol, current, target, splitting, entry, -, -, choice, next⟩
  · rw [same]
    exact ⟨kept, .refl _⟩
  · have fits := ready.fits symbol entry
    have chosen := chosen_choose wellFormed unused exact sustains kept
      ready.inside ready.original fits choice
    obtain ⟨led, enlarges⟩ := @kept_led grammar first base good wellFormed
      unused exact sustains growing.splitting splitting source prototype
      current target symbol kept.splitting fits ready.original chosen
    have overall := chosen.enlarges.trans enlarges
    rw [next]
    refine ⟨kept.put led overall ?_ ?_ rfl, overall⟩
    · exact Nat.lt_of_lt_of_le chosen.target_lt enlarges.size_le
    · exact (enlarges.prototype target chosen.target_lt).trans
        chosen.prototype

theorem followLane_of_size_le {source : Nat}
    (outside : growing.splitting.automaton.size ≤ source)
    (prototype : Nat) :
    followLane grammar first region source growing prototype = growing := by
  have none (symbol : Symbol) :
      (growing.splitting.automaton.state source).successor? symbol =
        none := by
    rw [Automaton.state_of_size_le outside]
    rfl
  rw [followLane]
  dsimp only
  split
  · rfl
  · rename_i symbol current found
    simp only [Option.bind_eq_bind, Option.bind_eq_some_iff, none] at found
    obtain ⟨_, -, _, absurd, -⟩ := found
    cases absurd

include wellFormed unused exact sustains in
theorem kept_followEach {source : Nat} {prototypes : List Nat}
    (kept : growing.Kept grammar first good base)
    (ready : ∀ prototype ∈ prototypes,
      Ready grammar base growing.splitting.automaton source prototype) :
    (prototypes.foldl (followLane grammar first region source)
      growing).Kept grammar first good base := by
  induction prototypes generalizing growing with
  | nil => exact kept
  | cons prototype rest ih =>
      obtain ⟨followed, enlarges⟩ := @kept_followLane grammar first base region
        growing good wellFormed unused exact sustains source prototype kept
        (ready prototype List.mem_cons_self)
      apply ih followed
      intro other later
      exact (ready other (List.mem_cons_of_mem _ later)).enlarge
        kept.splitting.enlarges enlarges

theorem followEach_of_size_le {source : Nat} {prototypes : List Nat}
    (outside : growing.splitting.automaton.size ≤ source) :
    prototypes.foldl (followLane grammar first region source) growing =
      growing := by
  induction prototypes with
  | nil => rfl
  | cons prototype rest ih =>
      rw [List.foldl_cons, followLane_of_size_le outside, ih]

/-- What the growth of a cluster does with one state of its queue.  Nothing
happens when no state waits. -/
def turn (grammar : Grammar) (first : FirstSets) (region : Region)
    (growing : ClusterSplitting) : ClusterSplitting :=
  match growing.queue.pop with
  | none => growing
  | some (number, queue) =>
    followLanes grammar first region { growing with queue } number

/-- What comes about while clusters are grown from one head after the other,
each until no state waits. -/
inductive Occurs (grammar : Grammar) (first : FirstSets)
    (automaton : Automaton) (region : Region) : ClusterSplitting → Prop where
  | begin : Occurs grammar first automaton region
      (begin grammar first automaton region)
  | start {growing : ClusterSplitting} (head : Nat) :
      Occurs grammar first automaton region growing →
      growing.queue.waiting = [] → head ∈ region.heads →
      region.contains head = true → growing.processed.contains head = false →
      Occurs grammar first automaton region
        { growing with
          claimed := Ordered.insert growing.claimed head
          cluster := [(head, head)]
          queue := WorkQueue.empty.push head }
  | turn {growing : ClusterSplitting} :
      Occurs grammar first automaton region growing →
      Occurs grammar first automaton region
        (turn grammar first region growing)

theorem Occurs.turns
    (occurs : Occurs grammar first automaton region growing) (turns : Nat) :
    Occurs grammar first automaton region
      ((ClusterSplitting.turn grammar first region)^[turns] growing) := by
  induction turns with
  | zero => exact occurs
  | succ turns ih =>
      rw [Function.iterate_succ_apply']
      exact ih.turn

/-- A cluster that has grown until nothing waits took some number of turns. -/
theorem exists_turns_of_run {limit left : Nat}
    (result : run grammar first region limit growing = .ok (grown, left)) :
    ∃ turns, (turn grammar first region)^[turns] growing = grown ∧
      grown.queue.waiting = [] := by
  induction limit generalizing growing with
  | zero => cases result
  | succ limit ih =>
      rw [run] at result
      split at result
      · rename_i none
        cases result
        exact ⟨0, rfl, WorkQueue.pop_eq_none.mp none⟩
      · rename_i number queue popped
        have next : turn grammar first region growing =
            followLanes grammar first region { growing with queue } number := by
          rw [turn, popped]
        obtain ⟨turns, same, served⟩ := ih result
        exact ⟨turns + 1, by rw [Function.iterate_succ_apply, next, same],
          served⟩

/-- Nothing happens if the lanes of the head have been followed or it is not in
the region.  Otherwise its cluster takes some number of turns. -/
theorem growFrom_cases {limit left head : Nat}
    (result : growFrom grammar first region (growing, limit) head =
      .ok (grown, left)) :
    (grown = growing ∧
      (head ∈ growing.processed ∨ region.contains head = false)) ∨
    (region.contains head = true ∧ growing.processed.contains head = false ∧
      grown.queue.waiting = [] ∧
      ∃ turns, (turn grammar first region)^[turns]
        { growing with
          claimed := Ordered.insert growing.claimed head
          cluster := [(head, head)]
          queue := WorkQueue.empty.push head } = grown) := by
  rw [growFrom] at result
  split at result
  · rename_i skipped
    cases result
    rw [Bool.or_eq_true, List.contains_iff_mem, Bool.not_eq_true'] at skipped
    exact Or.inl ⟨rfl, skipped⟩
  · rename_i fresh
    simp only [Bool.or_eq_true, not_or, Bool.not_eq_true,
      Bool.not_eq_false'] at fresh
    obtain ⟨turns, same, served⟩ := exists_turns_of_run result
    exact Or.inr ⟨fresh.2, fresh.1, served, turns, same⟩

theorem occurs_growFrom {limit left head : Nat}
    (isHead : head ∈ region.heads)
    (occurs : Occurs grammar first automaton region growing)
    (served : growing.queue.waiting = [])
    (result : growFrom grammar first region (growing, limit) head =
      .ok (grown, left)) :
    Occurs grammar first automaton region grown ∧
      grown.queue.waiting = [] := by
  rcases growFrom_cases result with
    ⟨rfl, -⟩ | ⟨contained, fresh, empty, turns, rfl⟩
  · exact ⟨occurs, served⟩
  · exact ⟨(occurs.start head served isHead contained fresh).turns turns, empty⟩

theorem occurs_growAll {heads : List Nat} {limit left : Nat}
    (listed : ∀ head ∈ heads, head ∈ region.heads)
    (occurs : Occurs grammar first automaton region growing)
    (served : growing.queue.waiting = [])
    (result : heads.foldlM (growFrom grammar first region)
      (growing, limit) = .ok (grown, left)) :
    Occurs grammar first automaton region grown ∧
      grown.queue.waiting = [] := by
  induction heads generalizing growing limit with
  | nil =>
      cases result
      exact ⟨occurs, served⟩
  | cons head rest ih =>
      rw [List.foldlM_cons] at result
      obtain ⟨⟨middle, remaining⟩, step, others⟩ := ok_of_bind result
      obtain ⟨next, empty⟩ :=
        occurs_growFrom (listed head List.mem_cons_self) occurs served step
      exact ih (fun other later => listed other (List.mem_cons_of_mem _ later))
        next empty others

/-- What a split by clusters ends with has come about in this way. -/
theorem occurs_splitByClusters {limit : Nat} {splitting : Splitting}
    (result : region.splitByClusters limit grammar first automaton =
      .ok splitting) :
    ∃ growing, Occurs grammar first automaton region growing ∧
      growing.queue.waiting = [] ∧ growing.splitting = splitting := by
  rw [Region.splitByClusters] at result
  obtain ⟨⟨grown, left⟩, grow, final⟩ := ok_of_bind result
  cases final
  obtain ⟨occurs, served⟩ := occurs_growAll (fun _ => id) .begin rfl grow
  exact ⟨grown, occurs, served, rfl⟩

end ClusterSplitting

/-- The lanes of the region are transitions of the automaton. -/
structure Region.Genuine (grammar : Grammar) (base : Automaton)
    (region : Region) : Prop where
  original : ∀ number < base.size, base.prototype number = number
  fits : ∀ source, ∀ target ∈ region.onwardFrom source, ∃ symbol,
    (base.state target).entry = some symbol ∧
      base.Fits grammar source symbol target

theorem Region.Genuine.enlarge {grammar : Grammar} {old new : Automaton}
    {region : Region} (genuine : region.Genuine grammar old)
    (enlarges : old.Enlarges new)
    (originals : ∀ number, new.prototype number = number) :
    region.Genuine grammar new := by
  refine ⟨fun number _ => originals number, fun source target onward => ?_⟩
  obtain ⟨symbol, entry, fits⟩ := genuine.fits source target onward
  refine ⟨symbol, ?_, fits.enlarge enlarges⟩
  rw [(enlarges.sameItems target fits.target_lt).entry, entry]

namespace ClusterSplitting

variable {grammar : Grammar} {first : FirstSets} {base automaton : Automaton}
  {region : Region} {growing grown : ClusterSplitting}
  {good : State → Prop} (wellFormed : grammar.WellFormed)
  (unused : grammar.GoalUnused) (exact : first.Exact grammar)
  (sustains : Sustains grammar first False good)
  (genuine : region.Genuine grammar base)

include genuine in
theorem ready_of_genuine (kept : growing.Kept grammar first good base)
    {source target : Nat} (inside : source < growing.splitting.automaton.size)
    (onward : target ∈ region.onwardFrom
      (growing.splitting.automaton.prototype source)) :
    Ready grammar base growing.splitting.automaton source target := by
  have enlarges := kept.splitting.enlarges
  obtain ⟨symbol, entry, fits⟩ := genuine.fits _ target onward
  have targetInside := fits.target_lt
  constructor
  · exact targetInside
  · rw [enlarges.prototype target targetInside,
      genuine.original target targetInside]
  · intro other otherEntry
    rw [(enlarges.sameItems target targetInside).entry, entry] at otherEntry
    cases otherEntry
    exact (fits.enlarge enlarges).of_sameItems inside
      (kept.splitting.intact.prototype_items source inside)

include wellFormed unused exact sustains genuine in
theorem kept_followLanes {number : Nat}
    (kept : growing.Kept grammar first good base) :
    (followLanes grammar first region growing number).Kept grammar first
      good base := by
  unfold followLanes
  dsimp only
  split
  · have processed : Kept grammar first good base
        { growing with
          processed := Ordered.insert growing.processed
            (growing.splitting.automaton.prototype number) } :=
      ⟨kept.splitting, kept.cluster⟩
    by_cases inside : number < growing.splitting.automaton.size
    · apply kept_followEach wellFormed unused exact sustains processed
      intro prototype onward
      exact ready_of_genuine genuine kept inside onward
    · rw [followEach_of_size_le]
      · exact processed
      · exact Nat.le_of_not_lt inside
  · exact kept

include wellFormed unused exact sustains genuine in
theorem kept_turn (kept : growing.Kept grammar first good base) :
    (turn grammar first region growing).Kept grammar first good base := by
  rw [turn]
  split
  · exact kept
  · apply kept_followLanes wellFormed unused exact sustains genuine
    exact ⟨kept.splitting, kept.cluster⟩

include genuine in
/-- A new cluster has its head as its only copy. -/
theorem Kept.startAt (kept : growing.Kept grammar first good base)
    (head : Nat) (claimed : List Nat) (queue : WorkQueue Nat) :
    Kept grammar first good base
      { growing with
        claimed
        cluster := [(head, head)]
        queue } := by
  refine ⟨kept.splitting, ?_⟩
  intro prototype inside copy found
  rw [Ordered.find?_cons] at found
  split at found
  · rename_i own
    cases found
    subst own
    have enlarges := kept.splitting.enlarges
    refine ⟨Nat.lt_of_lt_of_le inside enlarges.size_le, ?_⟩
    rw [enlarges.prototype head inside, genuine.original head inside]
  · cases found

include wellFormed unused exact sustains in
/-- A state that is reset can take in its own lookaheads again. -/
theorem joined_reset {splitting : Splitting} {number : Nat}
    (kept : splitting.Kept grammar first good base)
    (inside : number < splitting.automaton.size) :
    State.Joined grammar first (splitting.automaton.state number).cores
      ((splitting.automaton.state number).resetContexts grammar first)
      ((((splitting.automaton.state number).resetContexts grammar
        first).joinContexts
          (splitting.automaton.state number).coreContexts).close grammar first
            true).1 := by
  have sealed := kept.intact.toSealed
  have regular := sealed.framed.regular number inside
  have reset := sustains.reset _ regular (sealed.framed.closed number inside)
    (kept.good number inside)
  have refits := sealed.refits_reset wellFormed unused exact inside
  have matching : ((splitting.automaton.state number).resetContexts grammar
      first).Matches grammar (splitting.automaton.state number).cores :=
    ⟨refits.sameItems.regular regular refits.originators,
      refits.sameItems.coreItems⟩
  exact matching.joined wellFormed unused exact refits.closed.itemsClosed
    (sustains.snug _ reset)

include wellFormed unused exact sustains in
theorem kept_resetState {splitting : Splitting} {number : Nat}
    (kept : splitting.Kept grammar first good base) :
    (resetState grammar first region splitting number).Kept grammar first
      good base := by
  have cleared := kept.reset wellFormed unused exact sustains number
  unfold resetState
  dsimp only
  split
  · have bounded := kept.intact.toSealed.coreContexts_lt number
    obtain ⟨intact, enlarges⟩ := @Automaton.Intact.join grammar first _
      wellFormed unused exact cleared.intact number _ bounded
    refine cleared.enlarge intact enlarges ?_ rfl
    apply cleared.good.modify
    intro inside
    have old : number < splitting.automaton.size := by
      rw [← Automaton.size_modify]
      exact inside
    have framed := kept.intact.framed
    show good (((((splitting.automaton.modify number _).state
      number).joinContexts _).close grammar first true).1)
    rw [Automaton.state_modify_self old]
    exact sustains.restored id _ _ (framed.regular number old)
      (framed.closed number old) (kept.good number old)
      (joined_reset wellFormed unused exact sustains kept old)
  · exact cleared

include wellFormed unused exact sustains in
theorem kept_resetStates {splitting : Splitting} {numbers : List Nat}
    (kept : splitting.Kept grammar first good base) :
    (numbers.foldl (resetState grammar first region) splitting).Kept grammar
      first good base := by
  induction numbers generalizing splitting with
  | nil => exact kept
  | cons number rest ih =>
      exact ih (kept_resetState wellFormed unused exact sustains kept)

include wellFormed unused exact sustains in
theorem kept_begin (intact : automaton.Intact grammar first)
    (enlarges : base.Enlarges automaton) (all : automaton.All good) :
    (begin grammar first automaton region).Kept grammar first good base := by
  refine ⟨kept_resetStates wellFormed unused exact sustains
    (Splitting.kept_begin intact enlarges all region), ?_⟩
  intro prototype inside copy found
  cases found

include wellFormed unused exact sustains genuine in
theorem kept_of_occurs (intact : automaton.Intact grammar first)
    (enlarges : base.Enlarges automaton) (all : automaton.All good)
    (occurs : Occurs grammar first automaton region growing) :
    growing.Kept grammar first good base := by
  induction occurs with
  | begin =>
      exact kept_begin wellFormed unused exact sustains intact enlarges all
  | start head _ _ _ _ _ ih => exact ih.startAt genuine head _ _
  | turn _ ih => exact kept_turn wellFormed unused exact sustains genuine ih

include wellFormed unused exact sustains genuine in
theorem kept_splitByClusters {limit : Nat}
    (intact : automaton.Intact grammar first)
    (enlarges : base.Enlarges automaton) (all : automaton.All good)
    {splitting : Splitting}
    (result : region.splitByClusters limit grammar first automaton =
      .ok splitting) :
    splitting.Kept grammar first good base := by
  obtain ⟨grown, occurs, -, rfl⟩ := occurs_splitByClusters result
  exact (kept_of_occurs wellFormed unused exact sustains genuine intact enlarges
    all occurs).splitting

end ClusterSplitting

end LRTables
