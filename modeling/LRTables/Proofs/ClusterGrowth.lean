import LRTables.Proofs.SplitRegions

/-!
# How far clusters can grow

While clusters are grown, transitions may be led to and fro between copies
without end.  But a copy is made only for contexts that no copy has in full, and
contexts grow only so often, so that from some turn on nothing else changes.
-/

namespace LRTables

open Automaton Collecting Splitting

namespace ClusterSplitting

variable {grammar : Grammar} {first : FirstSets} {automaton : Automaton}
  {region : Region} {growing grown : ClusterSplitting} {good : State → Prop}
  {old middle new : Splitting}

/-- Only transitions have changed. -/
structure Rewired (old new : Splitting) : Prop where
  counts : new.counts = old.counts
  size : new.automaton.size = old.automaton.size
  alike : ∀ number,
    (old.automaton.state number).Alike (new.automaton.state number)

theorem Rewired.refl (splitting : Splitting) : Rewired splitting splitting :=
  ⟨rfl, rfl, fun _ => .refl _⟩

theorem Rewired.trans (before : Rewired old middle)
    (after : Rewired middle new) : Rewired old new := by
  constructor
  · exact after.counts.trans before.counts
  · exact after.size.trans before.size
  · exact fun number => (before.alike number).trans (after.alike number)

theorem rewired_led (splitting : Splitting) (source : Nat) (symbol : Symbol)
    (current target : Nat) :
    Rewired splitting (led splitting source symbol current target) := by
  unfold led
  split
  · exact .refl _
  · exact ⟨rfl, size_relink _ _ _, alike_relink source symbol target⟩

/-- What following a lane changes: transitions only, or a copy has taken in what
it lacked, or there is a new copy. -/
inductive Changes (grammar : Grammar) (old new : Splitting) : Prop where
  | rewired : Rewired old new → Changes grammar old new
  | grown : new.automaton.size = old.automaton.size →
      new.counts.clones = old.counts.clones →
      new.counts.merges = old.counts.merges + 1 →
      roomIn grammar new.automaton < roomIn grammar old.automaton →
      Changes grammar old new
  | copied : new.automaton.size = old.automaton.size + 1 →
      new.counts.clones = old.counts.clones + 1 →
      old.counts.merges ≤ new.counts.merges →
      new.counts.merges ≤ old.counts.merges + 1 →
      roomIn grammar new.automaton ≤
        roomIn grammar old.automaton + grammar.growthBound →
      Changes grammar old new

theorem Changes.rewire (changes : Changes grammar old middle)
    (rewired : Rewired middle new) : Changes grammar old new := by
  have room : roomIn grammar new.automaton = roomIn grammar middle.automaton :=
    roomIn_alike rewired.size rewired.alike
  cases changes with
  | rewired before => exact .rewired (before.trans rewired)
  | grown size clones merges less =>
      refine .grown (rewired.size.trans size) ?_ ?_ ?_
      · rw [rewired.counts, clones]
      · rw [rewired.counts, merges]
      · rwa [room]
  | copied size clones more few bound =>
      refine .copied (rewired.size.trans size) ?_ ?_ ?_ ?_
      · rw [rewired.counts, clones]
      · rwa [rewired.counts]
      · rwa [rewired.counts]
      · rwa [room]

/-- The copies and the growths that have been counted. -/
def changeCount (splitting : Splitting) : Nat :=
  splitting.counts.clones + splitting.counts.merges

/-- How many of them may still come. -/
def changesLeft (grammar : Grammar) (splitting : Splitting) : Nat :=
  grammar.stateBound * (grammar.growthBound + 2) - changeCount splitting

/-- Only transitions have changed, unless more changes are counted. -/
structure Proceeds (old new : Splitting) : Prop where
  le : changeCount old ≤ changeCount new
  rewired : changeCount new = changeCount old → Rewired old new

theorem Proceeds.refl (splitting : Splitting) :
    Proceeds splitting splitting :=
  ⟨Nat.le_refl _, fun _ => .refl _⟩

theorem Proceeds.trans (before : Proceeds old middle)
    (after : Proceeds middle new) : Proceeds old new := by
  refine ⟨before.le.trans after.le, fun same => ?_⟩
  have notLess := before.le
  have notMore := after.le
  exact (before.rewired (by omega)).trans (after.rewired (by omega))

theorem Changes.proceeds (changes : Changes grammar old new) :
    Proceeds old new := by
  cases changes with
  | rewired rewired =>
      refine ⟨?_, fun _ => rewired⟩
      rw [changeCount, changeCount, rewired.counts]
  | grown _ clones merges =>
      have more : changeCount old < changeCount new := by
        simp only [changeCount]
        omega
      exact ⟨Nat.le_of_lt more, fun same => absurd same more.ne'⟩
  | copied _ clones merges =>
      have more : changeCount old < changeCount new := by
        simp only [changeCount]
        omega
      exact ⟨Nat.le_of_lt more, fun same => absurd same more.ne'⟩

/-- New states are counted as copies, what is made for different contexts is
told apart by them, and for each growth that is counted some room is gone. -/
structure Bounded (grammar : Grammar) (region : Region)
    (automaton : Automaton) (splitting : Splitting) : Prop where
  localized : Localized region automaton splitting
  apart : ∃ made, Distinguished grammar .pager made splitting.automaton
  counted : splitting.automaton.size =
    automaton.size + splitting.counts.clones
  merged : splitting.counts.merges + roomIn grammar splitting.automaton ≤
    splitting.automaton.size * (grammar.growthBound + 1)

theorem Bounded.change (bounded : Bounded grammar region automaton old)
    (changes : Changes grammar old new)
    (localized : Localized region automaton new)
    (apart : ∃ made, Distinguished grammar .pager made new.automaton) :
    Bounded grammar region automaton new := by
  have counted := bounded.counted
  have merged := bounded.merged
  cases changes with
  | rewired rewired =>
      have room : roomIn grammar new.automaton = roomIn grammar old.automaton :=
        roomIn_alike rewired.size rewired.alike
      refine ⟨localized, apart, ?_, ?_⟩
      · rw [rewired.size, rewired.counts, counted]
      · rwa [rewired.size, rewired.counts, room]
  | grown size clones merges less =>
      refine ⟨localized, apart, by omega, ?_⟩
      rw [size]
      omega
  | copied size clones _ few room =>
      refine ⟨localized, apart, by omega, ?_⟩
      rw [size, Nat.succ_mul]
      omega

section Following

variable {source prototype target : Nat} {symbol : Symbol}
  (wellFormed : grammar.WellFormed) (unused : grammar.GoalUnused)
  (exact : first.Exact grammar) (sustains : Sustains grammar first False good)
  (sorted : PagerSplitting.Sorted grammar automaton)

include wellFormed unused exact sustains in
/-- A copy that takes in what arrives is told apart as before. -/
theorem changes_taken (kept : old.Kept grammar first good automaton)
    (fits : old.automaton.Fits grammar source symbol target)
    (apart : ∃ made, Distinguished grammar .pager made old.automaton) :
    Changes grammar old
        (taken grammar first old target
          ((old.automaton.state source).successorCores grammar true symbol)) ∧
      ∃ made, Distinguished grammar .pager made
        (taken grammar first old target
          ((old.automaton.state source).successorCores grammar true
            symbol)).automaton := by
  obtain ⟨made, distinguished⟩ := apart
  have matching := fits.matching kept.intact.framed
  refine ⟨?_, made, kept.distinguished_absorb wellFormed unused exact sustains
    fits.target_lt matching distinguished⟩
  cases covers : (old.automaton.state target).covers
      ((old.automaton.state source).successorCores grammar true symbol) with
  | true =>
      rw [taken, absorb_of_covers covers]
      exact .rewired (.refl _)
  | false =>
      have less := kept.roomIn_absorb_lt wellFormed unused exact sustains
        fits.target_lt matching
        (fun _ _ => kept.intact.arrives_lt fits.source_lt) covers
      refine .grown size_absorb ?_ ?_ less
      all_goals
        rw [taken, absorb_of_not_covers covers]
        rfl

theorem automaton_taken_clone (incoming : List Configuration) :
    (taken grammar first (old.clone grammar first prototype)
        old.automaton.size incoming).automaton =
      old.provide grammar first prototype incoming := by
  rw [taken, provide]

theorem counts_taken_clone (incoming : List Configuration) :
    (taken grammar first (old.clone grammar first prototype)
          old.automaton.size incoming).counts.clones =
        old.counts.clones + 1 ∧
      old.counts.merges ≤
        (taken grammar first (old.clone grammar first prototype)
          old.automaton.size incoming).counts.merges ∧
      (taken grammar first (old.clone grammar first prototype)
          old.automaton.size incoming).counts.merges ≤
        old.counts.merges + 1 := by
  rw [taken]
  dsimp only
  split
  · exact ⟨rfl, Nat.le_succ _, Nat.le_refl _⟩
  · exact ⟨rfl, Nat.le_refl _, Nat.le_succ _⟩

include wellFormed unused exact sustains in
/-- A new copy is told apart by what arrives if no state with its core has all
of that. -/
theorem changes_cloned (kept : old.Kept grammar first good automaton)
    (fits : old.automaton.Fits grammar source symbol prototype)
    (original : old.automaton.prototype prototype = prototype)
    (lacks : ∀ number < old.automaton.size,
      (old.automaton.state number).coreItems =
          ((old.automaton.state source).successorCores grammar true
            symbol).map Configuration.item →
        (old.automaton.state number).covers
          ((old.automaton.state source).successorCores grammar true
            symbol) = false)
    (small : ((old.provide grammar first prototype
        ((old.automaton.state source).successorCores grammar true
          symbol)).state old.automaton.size).configurations.size ≤
      grammar.itemCount)
    (apart : ∃ made, Distinguished grammar .pager made old.automaton) :
    Changes grammar old
        (taken grammar first (old.clone grammar first prototype)
          old.automaton.size
          ((old.automaton.state source).successorCores grammar true symbol)) ∧
      ∃ made, Distinguished grammar .pager made
        (taken grammar first (old.clone grammar first prototype)
          old.automaton.size
          ((old.automaton.state source).successorCores grammar true
            symbol)).automaton := by
  obtain ⟨made, distinguished⟩ := apart
  obtain ⟨clones, more, few⟩ := @counts_taken_clone grammar first old prototype
    ((old.automaton.state source).successorCores grammar true symbol)
  refine ⟨.copied ?_ clones more few ?_, ?_⟩
  · rw [automaton_taken_clone, size_provide]
  · rw [automaton_taken_clone]
    exact roomIn_provide_le small
  · rw [automaton_taken_clone]
    exact kept.distinguished_provide wellFormed unused exact sustains original
      fits distinguished lacks

include wellFormed unused exact sustains sorted in
theorem Bounded.followLane
    (bounded : Bounded grammar region automaton growing.splitting)
    (kept : growing.Kept grammar first good automaton)
    (ready : Ready grammar automaton growing.splitting.automaton source
      prototype) :
    Bounded grammar region automaton
        (ClusterSplitting.followLane grammar first region source growing
          prototype).splitting ∧
      Proceeds growing.splitting
        (ClusterSplitting.followLane grammar first region source growing
          prototype).splitting := by
  obtain ⟨followed, -⟩ := @kept_followLane grammar first automaton region
    growing good wellFormed unused exact sustains source prototype kept ready
  have localized := (@steps_followLane grammar first automaton region growing
    good wellFormed unused exact sustains source prototype kept
    ready).localized bounded.localized
  rcases @followLane_cases grammar first region growing source prototype with
    ⟨same, -⟩ | ⟨symbol, current, target, splitting, entry, -, contained,
      choice, next⟩
  · rw [same]
    exact ⟨bounded, .refl _⟩
  · replace next := congrArg ClusterSplitting.splitting next
    dsimp only at next
    have fits := ready.fits symbol entry
    have rewired := rewired_led
      (taken grammar first splitting target
        ((growing.splitting.automaton.state source).successorCores grammar true
          symbol)) source symbol current target
    rw [← next] at rewired
    obtain ⟨changes, made, distinguished⟩ : Changes grammar growing.splitting
          (taken grammar first splitting target
            ((growing.splitting.automaton.state source).successorCores grammar
              true symbol)) ∧
        ∃ made, Distinguished grammar .pager made
          (taken grammar first splitting target
            ((growing.splitting.automaton.state source).successorCores grammar
              true symbol)).automaton := by
      rcases choose_cases choice with ⟨rfl, among, -⟩ | ⟨rfl, rfl, lacking⟩
      · obtain ⟨inside, same⟩ := kept.copy_of_among ready.inside among
        exact changes_taken wellFormed unused exact sustains kept.splitting
          (fits.copy kept.splitting.intact inside
            (same.trans ready.original.symm)) bounded.apart
      · have fresh : growing.splitting.automaton.size <
            (ClusterSplitting.followLane grammar first region source growing
              prototype).splitting.automaton.size := by
          rw [rewired.size, automaton_taken_clone, size_provide]
          exact Nat.lt_succ_self _
        have small := (followed.splitting.listed localized.original sorted
          fresh).size_le (followed.splitting.intact.framed.regular _ fresh)
        rw [(rewired.alike _).sameItems.size,
          automaton_taken_clone] at small
        have own := ready.original.symm
        exact changes_cloned wellFormed unused exact sustains kept.splitting
          fits ready.original
          (fun _ => kept.splitting.lacks_of_family bounded.localized.original
            sorted fits bounded.localized.enlisted (own ▸ contained)
            (own ▸ lacking))
          small bounded.apart
    have whole := changes.rewire rewired
    exact ⟨bounded.change whole localized
      ⟨made, distinguished.alike rewired.size rewired.alike⟩, whole.proceeds⟩

include wellFormed unused exact sustains sorted in
theorem Bounded.followEach {prototypes : List Nat}
    (bounded : Bounded grammar region automaton growing.splitting)
    (kept : growing.Kept grammar first good automaton)
    (ready : ∀ prototype ∈ prototypes,
      Ready grammar automaton growing.splitting.automaton source prototype) :
    Bounded grammar region automaton
        (prototypes.foldl (ClusterSplitting.followLane grammar first region
          source) growing).splitting ∧
      Proceeds growing.splitting
        (prototypes.foldl (ClusterSplitting.followLane grammar first region
          source) growing).splitting := by
  induction prototypes generalizing growing with
  | nil => exact ⟨bounded, .refl _⟩
  | cons prototype rest ih =>
      have own := ready prototype List.mem_cons_self
      obtain ⟨followed, enlarges⟩ := @kept_followLane grammar first automaton
        region growing good wellFormed unused exact sustains source prototype
        kept own
      obtain ⟨next, proceeds⟩ := bounded.followLane wellFormed unused exact
        sustains sorted kept own
      obtain ⟨last, others⟩ := ih next followed fun other later =>
        (ready other (List.mem_cons_of_mem _ later)).enlarge
          kept.splitting.enlarges enlarges
      exact ⟨last, proceeds.trans others⟩

end Following

section Growing

variable (wellFormed : grammar.WellFormed) (unused : grammar.GoalUnused)
  (exact : first.Exact grammar) (sustains : Sustains grammar first False good)
  (sorted : PagerSplitting.Sorted grammar automaton)
  (genuine : region.Genuine grammar automaton)

include wellFormed unused exact sustains sorted genuine

theorem Bounded.followLanes {number : Nat}
    (bounded : Bounded grammar region automaton growing.splitting)
    (kept : growing.Kept grammar first good automaton) :
    Bounded grammar region automaton
        (ClusterSplitting.followLanes grammar first region growing
          number).splitting ∧
      Proceeds growing.splitting
        (ClusterSplitting.followLanes grammar first region growing
          number).splitting := by
  unfold ClusterSplitting.followLanes
  dsimp only
  split
  · have processed : Kept grammar first good automaton
        { growing with
          processed := Ordered.insert growing.processed
            (growing.splitting.automaton.prototype number) } :=
      ⟨kept.splitting, kept.cluster⟩
    by_cases inside : number < growing.splitting.automaton.size
    · refine Bounded.followEach wellFormed unused exact sustains sorted bounded
        processed ?_
      intro prototype onward
      exact ready_of_genuine genuine kept inside onward
    · rw [followEach_of_size_le]
      · exact ⟨bounded, .refl _⟩
      · exact Nat.le_of_not_lt inside
  · exact ⟨bounded, .refl _⟩

theorem Bounded.turn
    (bounded : Bounded grammar region automaton growing.splitting)
    (kept : growing.Kept grammar first good automaton) :
    Bounded grammar region automaton
        (ClusterSplitting.turn grammar first region growing).splitting ∧
      Proceeds growing.splitting
        (ClusterSplitting.turn grammar first region growing).splitting := by
  rw [ClusterSplitting.turn]
  split
  · exact ⟨bounded, .refl _⟩
  · rename_i number queue popped
    have taken : Kept grammar first good automaton { growing with queue } :=
      ⟨kept.splitting, kept.cluster⟩
    exact @Bounded.followLanes grammar first automaton region
      { growing with queue } good wellFormed unused exact sustains sorted
      genuine number bounded taken

end Growing

theorem size_resetState {splitting : Splitting} (number : Nat) :
    (resetState grammar first region splitting number).automaton.size =
      splitting.automaton.size := by
  rw [resetState]
  split
  · exact (size_modify _).trans (size_modify _)
  · exact size_modify _

theorem size_resetStates {splitting : Splitting} (numbers : List Nat) :
    (numbers.foldl (resetState grammar first region) splitting).automaton.size =
      splitting.automaton.size := by
  induction numbers generalizing splitting with
  | nil => rfl
  | cons number rest ih => rw [List.foldl_cons, ih, size_resetState]

theorem counts_resetStates {splitting : Splitting} (numbers : List Nat) :
    (numbers.foldl (resetState grammar first region) splitting).counts =
      splitting.counts := by
  induction numbers generalizing splitting with
  | nil => rfl
  | cons number rest ih =>
      rw [List.foldl_cons, ih, resetState]
      split <;> rfl

section Occurring

variable (wellFormed : grammar.WellFormed) (unused : grammar.GoalUnused)
  (exact : first.Exact grammar) (sustains : Sustains grammar first False good)
  (sorted : PagerSplitting.Sorted grammar automaton)
  (genuine : region.Genuine grammar automaton)
  (intact : automaton.Intact grammar first) (all : automaton.All good)
  (originals : ∀ number, automaton.prototype number = number)

include wellFormed unused exact sustains sorted intact all originals

theorem bounded_begin :
    Bounded grammar region automaton
      (begin grammar first automaton region).splitting := by
  have kept := Splitting.kept_begin intact (.refl _) all region
  have begun := @kept_begin grammar first automaton automaton region good
    wellFormed unused exact sustains intact (.refl _) all
  have localized := (steps_resetStates wellFormed unused exact sustains kept
    fun _ member => @regional_of_mem automaton region originals _
      member).localized (localized_begin originals)
  have size : (begin grammar first automaton
      region).splitting.automaton.size = automaton.size :=
    size_resetStates region.states
  have counts : (begin grammar first automaton region).splitting.counts =
      ⟨0, 0⟩ := counts_resetStates region.states
  have room := begun.splitting.roomIn_le localized.original sorted
  constructor
  · exact localized
  · exact ⟨_, begun.splitting.distinguished_of_size sorted size⟩
  · rw [size, counts]
    rfl
  · rw [counts, Nat.mul_succ]
    dsimp only
    omega

include genuine in
theorem bounded_of_occurs
    (occurs : Occurs grammar first automaton region growing) :
    Bounded grammar region automaton growing.splitting := by
  induction occurs with
  | begin =>
      exact bounded_begin wellFormed unused exact sustains sorted intact all
        originals
  | start _ _ _ _ _ _ ih => exact ih
  | turn before ih =>
      exact (ih.turn wellFormed unused exact sustains sorted genuine
        (kept_of_occurs wellFormed unused exact sustains genuine intact
          (.refl _) all before)).1

include genuine in
theorem proceeds_turns
    (occurs : Occurs grammar first automaton region growing)
    (turns later : Nat) :
    Proceeds ((turn grammar first region)^[turns] growing).splitting
      ((turn grammar first region)^[turns + later] growing).splitting := by
  induction later with
  | zero => exact .refl _
  | succ later ih =>
      have reached := occurs.turns (turns + later)
      have bounded := bounded_of_occurs wellFormed unused exact sustains sorted
        genuine intact all originals reached
      have kept := kept_of_occurs wellFormed unused exact sustains genuine
        intact (.refl _) all reached
      obtain ⟨-, proceeds⟩ := bounded.turn wellFormed unused exact sustains
        sorted genuine kept
      rw [← Nat.add_assoc, Function.iterate_succ_apply']
      exact ih.trans proceeds

include genuine in
theorem counts_le (occurs : Occurs grammar first automaton region growing) :
    growing.splitting.automaton.size =
        automaton.size + growing.splitting.counts.clones ∧
      growing.splitting.automaton.size ≤ grammar.stateBound ∧
      growing.splitting.counts.merges ≤
        grammar.stateBound * (grammar.growthBound + 1) := by
  have bounded := bounded_of_occurs wellFormed unused exact sustains sorted
    genuine intact all originals occurs
  have kept := kept_of_occurs wellFormed unused exact sustains genuine intact
    (.refl _) all occurs
  obtain ⟨made, distinguished⟩ := bounded.apart
  have few := kept.splitting.size_le bounded.localized.original sorted
    distinguished
  have merged := bounded.merged
  have most := Nat.mul_le_mul_right (grammar.growthBound + 1) few
  exact ⟨bounded.counted, few, by omega⟩

include genuine in
/-- From some turn on nothing but transitions changes. -/
theorem exists_rewired
    (occurs : Occurs grammar first automaton region growing) :
    ∃ turns, ∀ later, Rewired
      ((turn grammar first region)^[turns] growing).splitting
      ((turn grammar first region)^[turns + later] growing).splitting := by
  obtain ⟨turns, least⟩ : ∃ turns, ∀ other,
      changesLeft grammar
          ((turn grammar first region)^[turns] growing).splitting ≤
        changesLeft grammar
          ((turn grammar first region)^[other] growing).splitting :=
    ⟨_, fun other => Function.argmin_le (fun turns => changesLeft grammar
      ((turn grammar first region)^[turns] growing).splitting) other⟩
  refine ⟨turns, fun later => ?_⟩
  have proceeds := proceeds_turns wellFormed unused exact sustains sorted
    genuine intact all originals occurs turns later
  obtain ⟨counted, few, merges⟩ := counts_le wellFormed unused exact sustains
    sorted genuine intact all originals (occurs.turns (turns + later))
  have within : changeCount
        ((turn grammar first region)^[turns + later] growing).splitting ≤
      grammar.stateBound * (grammar.growthBound + 2) := by
    rw [changeCount, Nat.mul_succ]
    omega
  have notLess := proceeds.le
  have fewest := least (turns + later)
  rw [changesLeft, changesLeft] at fewest
  exact proceeds.rewired (by omega)

end Occurring

end ClusterSplitting

open ClusterSplitting in
/-- However long clusters are grown, there are only finitely many copies and
contexts grow only finitely often.  From some turn on transitions are led to
other copies, and nothing else changes. -/
theorem cluster_growth_bounded {grammar : Grammar} (accepted : grammar.Accepted)
    (unused : grammar.GoalUnused) :
    ∃ base, Automaton.collect? grammar (.ofGrammar grammar) .lr0 = some base ∧
      ∀ (log : ConflictLog) (automaton : Automaton) (region : Region),
        (base.traceLanes grammar
            (.ofGrammar grammar)).automaton.markConflictLanes grammar
              (.ofGrammar grammar) log = (automaton, region) →
        ∀ growing,
          Occurs grammar (.ofGrammar grammar) automaton region growing →
          growing.splitting.automaton.size =
              automaton.size + growing.splitting.counts.clones ∧
            growing.splitting.automaton.size ≤ grammar.stateBound ∧
            growing.splitting.counts.merges ≤
              grammar.stateBound * (grammar.growthBound + 1) ∧
            ∃ turns, ∀ later, Rewired
              ((turn grammar (.ofGrammar grammar) region)^[turns]
                growing).splitting
              ((turn grammar (.ofGrammar grammar) region)^[turns + later]
                growing).splitting := by
  have wellFormed := accepted.wellFormed
  have exact := FirstSets.exact_ofGrammar wellFormed
  obtain ⟨base, collected⟩ := Automaton.exists_collect? wellFormed exact .lr0
  obtain ⟨traced, unrolled⟩ :=
    Construction.tracedFrom_of_collect? wellFormed unused exact collected
  refine ⟨base, collected, ?_⟩
  intro log automaton region marked growing occurs
  obtain ⟨rfl, rfl⟩ := Prod.mk.inj marked
  have mark := traced.mark log
  have faithful := mark.faithful wellFormed unused exact unrolled
  have intact := mark.intact wellFormed unused exact
  have sorted := PagerSplitting.sorted_traced wellFormed unused exact collected
    mark
  have genuine := (Region.genuine_mark traced log).enlarge mark.enlarges
    mark.original
  have sustains := (sustains_evident wellFormed unused exact False).unrolled
  have all := faithful.all
  obtain ⟨counted, few, merges⟩ := counts_le wellFormed unused exact sustains
    sorted genuine intact all mark.original occurs
  exact ⟨counted, few, merges, exists_rewired wellFormed unused exact sustains
    sorted genuine intact all mark.original occurs⟩

end LRTables
