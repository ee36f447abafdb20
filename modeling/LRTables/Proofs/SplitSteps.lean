import LRTables.Proofs.BackLinks
import LRTables.Proofs.Regions
import Mathlib.Logic.Relation

/-!
# The steps of a splitting

A splitting proceeds by few kinds of steps: lookaheads of a state of the region
change, a state of the region is copied, or a transition is redirected to where
it fits.  Both strategies are sequences of such steps.
-/

namespace LRTables

open Automaton

theorem Automaton.TracedFrom.original {grammar : Grammar} {first : FirstSets}
    {base automaton : Automaton}
    (traced : TracedFrom grammar first base automaton) (number : Nat) :
    automaton.prototype number = number := by
  by_cases inside : number < automaton.size
  · exact traced.prototype_eq inside
  · rw [prototype, state_of_size_le (Nat.le_of_not_lt inside)]
    rfl

namespace Splitting

variable {grammar : Grammar} {first : FirstSets} {region : Region}
  {old new splitting : Splitting}

/-- The state is in the region or a copy of one that is. -/
def Regional (region : Region) (automaton : Automaton) (number : Nat) :
    Prop :=
  region.contains (automaton.prototype number) = true

/-- One step of a splitting. -/
inductive Step (grammar : Grammar) (first : FirstSets) (region : Region) :
    Splitting → Splitting → Prop where
  | count (splitting : Splitting) (counts : SplitCounts) :
      Step grammar first region splitting { splitting with counts }
  | retune (splitting : Splitting) (number : Nat) (change : State → State) :
      Regional region splitting.automaton number →
      (number < splitting.automaton.size →
        (splitting.automaton.state number).SameLinks
          (change (splitting.automaton.state number))) →
      Step grammar first region splitting
        { splitting with
          automaton := splitting.automaton.modify number change }
  | clone (splitting : Splitting) (prototype : Nat) :
      splitting.automaton.Intact grammar first →
      prototype < splitting.automaton.size →
      splitting.automaton.prototype prototype = prototype →
      region.contains prototype = true →
      Step grammar first region splitting
        { splitting with
          automaton := splitting.automaton.clone prototype
          families :=
            splitting.families.add prototype splitting.automaton.size }
  | relink (splitting : Splitting) (source : Nat) (symbol : Symbol)
      (target : Nat) :
      splitting.automaton.Framed grammar →
      splitting.automaton.Fits grammar source symbol target →
      Step grammar first region splitting
        { splitting with
          automaton := splitting.automaton.relink source symbol target }

/-- Any number of steps. -/
abbrev Steps (grammar : Grammar) (first : FirstSets) (region : Region) :
    Splitting → Splitting → Prop :=
  Relation.ReflTransGen (Step grammar first region)

theorem Step.recalled (step : Step grammar first region old new)
    (links : old.automaton.Mutual grammar) :
    new.automaton.Mutual grammar := by
  cases step with
  | count => exact links
  | retune number change _ same => exact links.sameLinks (.modify same)
  | clone prototype intact inside => exact links.clone intact inside
  | relink source symbol target framed fits => exact links.relink framed fits

/-- What depends on items only holds of all states after a step. -/
theorem Step.all {good : State → Prop}
    (keeps : ∀ one other : State, one.SameItems other → good one → good other)
    (step : Step grammar first region old new)
    (all : old.automaton.All good) : new.automaton.All good := by
  cases step with
  | count => exact all
  | retune number change _ same =>
      apply all.modify
      intro inside
      exact keeps _ _ (same inside).sameItems (all number inside)
  | clone prototype intact inside =>
      have cloned := intact.clone inside
      intro number bound
      dsimp only at bound ⊢
      rw [cloned.size] at bound
      rcases Nat.lt_succ_iff_lt_or_eq.mp bound with before | rfl
      · exact keeps _ _ (cloned.enlarges.sameItems number before)
          (all number before)
      · have copy := cloned.intact.prototype_items old.automaton.size (by
          rw [cloned.size]
          exact Nat.lt_succ_self _)
        rw [cloned.prototype] at copy
        have original := intact.prototype_lt prototype inside
        exact keeps _ _ ((cloned.enlarges.sameItems _ original).trans copy)
          (all _ original)
  | relink source symbol target =>
      intro number bound
      dsimp only at bound ⊢
      rw [size_relink] at bound
      exact keeps _ _ (alike_relink source symbol target number).sameItems
        (all number bound)

theorem Steps.recalled (steps : Steps grammar first region old new)
    (links : old.automaton.Mutual grammar) :
    new.automaton.Mutual grammar := by
  induction steps with
  | refl => exact links
  | tail _ step ih => exact step.recalled ih

theorem Steps.all {good : State → Prop}
    (keeps : ∀ one other : State, one.SameItems other → good one → good other)
    (steps : Steps grammar first region old new)
    (all : old.automaton.All good) : new.automaton.All good := by
  induction steps with
  | refl => exact all
  | tail _ step ih => exact step.all keeps ih

section Operations

variable {base : Automaton} {clean : Prop} {good : State → Prop}
  (wellFormed : grammar.WellFormed) (unused : grammar.GoalUnused)
  (exact : first.Exact grammar)
  (sustains : Sustains grammar first clean good)

theorem prototype_reset (number other : Nat) :
    (splitting.reset grammar first number).automaton.prototype other =
      splitting.automaton.prototype other := by
  apply congrArg (Option.getD · other)
  apply state_modify_keeps State.cloneOf
  intro state
  rw [State.links_resetContexts]

theorem Step.reset (framed : splitting.automaton.Framed grammar)
    {number : Nat} (regional : Regional region splitting.automaton number) :
    Step grammar first region splitting
      (splitting.reset grammar first number) :=
  .retune splitting number _ regional fun inside =>
    .resetContexts (framed.closed number inside)
      (framed.regular number inside).distinct

theorem Step.absorb (framed : splitting.automaton.Framed grammar)
    {number : Nat} (regional : Regional region splitting.automaton number)
    {incoming : List Configuration} {merged : Automaton} {grown : Bool}
    (result : splitting.automaton.absorb grammar first number incoming =
      (merged, grown)) :
    Steps grammar first region splitting
      { splitting with automaton := merged } := by
  cases covers : (splitting.automaton.state number).covers incoming with
  | true =>
      rw [absorb_of_covers covers] at result
      cases result
      exact .refl
  | false =>
      rw [absorb_of_not_covers covers] at result
      cases result
      exact .single (.retune splitting number _ regional fun inside =>
        .joined (framed.closed number inside)
          (framed.regular number inside).distinct incoming)

theorem Kept.steps_clone (kept : splitting.Kept grammar first good base)
    {prototype : Nat} (inside : prototype < splitting.automaton.size)
    (original : splitting.automaton.prototype prototype = prototype)
    (contained : region.contains prototype = true) :
    Steps grammar first region splitting
      (splitting.clone grammar first prototype) := by
  have cloned := kept.intact.clone inside
  have step := Step.clone splitting prototype kept.intact inside original
    contained
  have fresh : Regional region (splitting.automaton.clone prototype)
      splitting.automaton.size := by
    rw [Regional, cloned.prototype, original]
    exact contained
  exact ((Relation.ReflTransGen.single step).tail
    (.reset cloned.intact.framed fresh)).tail (.count _ _)

include wellFormed unused exact sustains in
/-- The steps by which the chosen copy takes in what arrives, and those by which
the transition goes there. -/
theorem Chosen.steps_take {source prototype target : Nat} {symbol : Symbol}
    {merged : Automaton} {grown : Bool}
    (kept : old.Kept grammar first good base)
    (chosen : Chosen grammar first clean good base
      ((old.automaton.state source).successorCores grammar true symbol) old
      prototype target new)
    (fits : old.automaton.Fits grammar source symbol prototype)
    (original : old.automaton.prototype prototype = prototype)
    (contained : region.contains prototype = true)
    (result : new.automaton.absorb grammar first target
      ((old.automaton.state source).successorCores grammar true symbol) =
        (merged, grown)) :
    Steps grammar first region new { new with automaton := merged } ∧
      Steps grammar first region new
        { new with automaton := merged.relink source symbol target } := by
  obtain ⟨intact, enlarges, -, -⟩ :=
    chosen.take wellFormed unused exact sustains kept fits original result
  have regional : Regional region new.automaton target := by
    rw [Regional, chosen.prototype]
    exact contained
  have absorbed := Step.absorb chosen.kept.intact.framed regional result
  refine ⟨absorbed, absorbed.tail ?_⟩
  exact .relink { new with automaton := merged } source symbol target
    intact.framed ((chosen.fits fits original).enlarge enlarges)

end Operations

end Splitting

namespace PagerSplitting

open Splitting

variable {grammar : Grammar} {first : FirstSets} {base automaton : Automaton}
  {region : Region} {pager : PagerSplitting} {clean : Prop}
  {good : State → Prop} (wellFormed : grammar.WellFormed)
  (unused : grammar.GoalUnused) (exact : first.Exact grammar)
  (sustains : Sustains grammar first clean good)

theorem steps_choose {splitting chosen : Splitting}
    {current target : Nat} {incoming : List Configuration}
    (kept : splitting.Kept grammar first good base)
    (inside : current < splitting.automaton.size)
    (regional : Regional region splitting.automaton current)
    (result : choose grammar first splitting current incoming =
      (target, chosen)) :
    Steps grammar first region splitting chosen := by
  obtain ⟨rfl, -⟩ | ⟨-, ⟨rfl, -⟩ | ⟨rfl, -⟩⟩ := choose_cases result
  · exact .refl
  · exact .single (.count _ _)
  · exact kept.steps_clone (kept.intact.prototype_lt current inside)
      (kept.intact.prototype_idem current inside) regional

include wellFormed unused exact sustains in
theorem steps_remake {source : Nat} {edge : Symbol × Nat}
    (kept : pager.splitting.Kept grammar first good base)
    (fits : pager.splitting.automaton.Fits grammar source edge.1 edge.2)
    (regional : Regional region pager.splitting.automaton edge.2) :
    Steps grammar first region pager.splitting
      (remake grammar first source pager edge).splitting := by
  obtain ⟨symbol, current⟩ := edge
  have intact := kept.intact
  have inside := fits.target_lt
  have original := intact.prototype_idem current inside
  have fitsPrototype := fits.copy intact (intact.prototype_lt current inside)
    original
  obtain ⟨-, same⟩ | ⟨target, splitting, merged, grown, -, choice, absorbed,
      next⟩ := @remake_split grammar first pager source current symbol _ rfl
  · rw [same]
  · have chosen := chosen_choose wellFormed unused exact sustains kept fits
      choice
    have chooses := steps_choose kept inside regional choice
    obtain ⟨absorbs, redirects⟩ :=
      chosen.steps_take wellFormed unused exact sustains kept fitsPrototype
        original regional absorbed
    rw [next]
    split
    · exact chooses.trans absorbs
    · exact chooses.trans redirects

include wellFormed unused exact sustains in
theorem steps_remakeEdges {source : Nat} {edges : List (Symbol × Nat)}
    (kept : pager.splitting.Kept grammar first good base)
    (fits : ∀ edge ∈ edges,
      pager.splitting.automaton.Fits grammar source edge.1 edge.2)
    (regional : ∀ edge ∈ edges,
      Regional region pager.splitting.automaton edge.2) :
    Steps grammar first region pager.splitting
      (edges.foldl (remake grammar first source) pager).splitting := by
  induction edges generalizing pager with
  | nil => exact .refl
  | cons edge rest ih =>
      have own := fits edge List.mem_cons_self
      obtain ⟨remade, enlarges⟩ :=
        kept_remake wellFormed unused exact sustains kept own
      have step := steps_remake wellFormed unused exact sustains kept own
        (regional edge List.mem_cons_self)
      refine step.trans (ih remade ?_ ?_)
      · intro other later
        exact (fits other (List.mem_cons_of_mem _ later)).enlarge enlarges
      · intro other later
        have inside := (fits other (List.mem_cons_of_mem _ later)).target_lt
        rw [Regional, enlarges.prototype other.2 inside]
        exact regional other (List.mem_cons_of_mem _ later)

include wellFormed unused exact sustains in
theorem steps_remakeAll {number : Nat}
    (kept : pager.splitting.Kept grammar first good base) :
    Steps grammar first region pager.splitting
      (remakeAll grammar first region pager number).splitting := by
  unfold remakeAll
  dsimp only
  split
  · exact .refl
  · have framed := kept.intact.framed
    apply steps_remakeEdges wellFormed unused exact sustains kept
    · intro edge member
      exact framed.fits
        (framed.keyed.mem_successors.mp (List.mem_filter.mp member).1)
    · intro edge member
      exact (List.mem_filter.mp member).2

include wellFormed unused exact sustains in
theorem steps_run {limit : Nat} {splitting : Splitting}
    (kept : pager.splitting.Kept grammar first good base)
    (result : run grammar first region limit pager = .ok splitting) :
    Steps grammar first region pager.splitting splitting := by
  induction limit generalizing pager with
  | zero => cases result
  | succ limit ih =>
      rw [run] at result
      split at result
      · cases result
        exact .refl
      · rename_i number queue found
        have taken : Splitting.Kept grammar first good base
            { pager with queue }.splitting := kept
        exact (steps_remakeAll wellFormed unused exact sustains taken).trans
          (ih (kept_remakeAll wellFormed unused exact sustains taken) result)

end PagerSplitting

namespace Splitting

variable {grammar : Grammar} {first : FirstSets} {base automaton : Automaton}
  {region : Region} {splitting : Splitting} {clean : Prop}
  {good : State → Prop} (wellFormed : grammar.WellFormed)
  (unused : grammar.GoalUnused) (exact : first.Exact grammar)
  (sustains : Sustains grammar first clean good)

include wellFormed unused exact sustains in
theorem steps_resetAll {numbers : List Nat}
    (kept : splitting.Kept grammar first good base)
    (regional : ∀ number ∈ numbers,
      Regional region splitting.automaton number) :
    Steps grammar first region splitting
      (numbers.foldl (reset grammar first) splitting) := by
  induction numbers generalizing splitting with
  | nil => exact .refl
  | cons number rest ih =>
      have step : Step grammar first region splitting
          (splitting.reset grammar first number) :=
        .reset kept.intact.framed (regional number List.mem_cons_self)
      refine .head step
        (ih (kept.reset wellFormed unused exact sustains number) ?_)
      intro other later
      rw [Regional, prototype_reset]
      exact regional other (List.mem_cons_of_mem _ later)

theorem regional_of_mem (originals : ∀ number,
      automaton.prototype number = number) {number : Nat}
    (member : number ∈ region.states) : Regional region automaton number := by
  rw [Regional, originals, Region.contains, List.contains_iff_mem]
  exact member

include wellFormed unused exact sustains in
theorem steps_splitByPager (intact : automaton.Intact grammar first)
    (enlarges : base.Enlarges automaton) (all : automaton.All good)
    (originals : ∀ number, automaton.prototype number = number)
    (result : region.splitByPager grammar first automaton = .ok splitting) :
    Steps grammar first region (begin automaton region) splitting := by
  have kept := kept_begin intact enlarges all region
  have resets := steps_resetAll wellFormed unused exact sustains kept
    fun _ member => @regional_of_mem automaton region originals _ member
  exact resets.trans (PagerSplitting.steps_run wellFormed unused exact sustains
    (kept.resetAll wellFormed unused exact sustains region.states) result)

end Splitting

namespace ClusterSplitting

open Splitting

variable {grammar : Grammar} {first : FirstSets} {base automaton : Automaton}
  {region : Region} {growing grown : ClusterSplitting}
  {good : State → Prop} (wellFormed : grammar.WellFormed)
  (unused : grammar.GoalUnused) (exact : first.Exact grammar)
  (sustains : Sustains grammar first False good)
  (genuine : region.Genuine grammar base)

theorem steps_choose {prototype target : Nat} {splitting : Splitting}
    {incoming : List Configuration}
    (kept : growing.Kept grammar first good base)
    (inside : prototype < base.size)
    (original : growing.splitting.automaton.prototype prototype = prototype)
    (contained : region.contains prototype = true)
    (result : choose grammar first region growing prototype incoming =
      (target, splitting)) :
    Steps grammar first region growing.splitting splitting := by
  rcases choose_cases result with ⟨rfl, -⟩ | ⟨rfl, -, -⟩
  · exact .refl
  · exact kept.splitting.steps_clone
      (Nat.lt_of_lt_of_le inside kept.splitting.enlarges.size_le) original
      contained

include wellFormed unused exact sustains in
theorem steps_led {old new : Splitting} {source prototype current target : Nat}
    {symbol : Symbol} (kept : old.Kept grammar first good base)
    (fits : old.automaton.Fits grammar source symbol prototype)
    (original : old.automaton.prototype prototype = prototype)
    (contained : region.contains prototype = true)
    (chosen : Chosen grammar first False good base
      ((old.automaton.state source).successorCores grammar true symbol) old
      prototype target new) :
    Steps grammar first region new
      (led (taken grammar first new target
          ((old.automaton.state source).successorCores grammar true symbol))
        source symbol current target) := by
  unfold led taken
  cases absorbed : new.automaton.absorb grammar first target
      ((old.automaton.state source).successorCores grammar true symbol) with
  | mk merged grown =>
  obtain ⟨absorbs, redirects⟩ :=
    chosen.steps_take wellFormed unused exact sustains kept fits original
      contained absorbed
  dsimp only
  have taken : Steps grammar first region new
      { new with
        automaton := if target = current then merged
          else merged.relink source symbol target } := by
    split
    · exact absorbs
    · exact redirects
  cases grown with
  | true => exact taken.tail (.count _ _)
  | false => exact taken

include wellFormed unused exact sustains in
theorem steps_followLane {source prototype : Nat}
    (kept : growing.Kept grammar first good base)
    (ready : Ready grammar base growing.splitting.automaton source
      prototype) :
    Steps grammar first region growing.splitting
      (followLane grammar first region source growing prototype).splitting := by
  rcases @followLane_cases grammar first region growing source prototype with
    ⟨same, -⟩ | ⟨symbol, current, target, splitting, entry, -, contained,
      choice, next⟩
  · rw [same]
  · have fits := ready.fits symbol entry
    have chosen := chosen_choose wellFormed unused exact sustains kept
      ready.inside ready.original fits choice
    rw [next]
    exact (steps_choose kept ready.inside ready.original contained
      choice).trans
      (steps_led wellFormed unused exact sustains kept.splitting fits
        ready.original contained chosen)

include wellFormed unused exact sustains in
theorem steps_followEach {source : Nat} {prototypes : List Nat}
    (kept : growing.Kept grammar first good base)
    (ready : ∀ prototype ∈ prototypes,
      Ready grammar base growing.splitting.automaton source prototype) :
    Steps grammar first region growing.splitting
      (prototypes.foldl (followLane grammar first region source)
        growing).splitting := by
  induction prototypes generalizing growing with
  | nil => exact .refl
  | cons prototype rest ih =>
      have own := ready prototype List.mem_cons_self
      obtain ⟨followed, enlarges⟩ := @kept_followLane grammar first base region
        growing good wellFormed unused exact sustains source prototype kept own
      refine (steps_followLane wellFormed unused exact sustains kept own).trans
        (ih followed ?_)
      intro other later
      exact (ready other (List.mem_cons_of_mem _ later)).enlarge
        kept.splitting.enlarges enlarges

include wellFormed unused exact sustains genuine in
theorem steps_followLanes {number : Nat}
    (kept : growing.Kept grammar first good base) :
    Steps grammar first region growing.splitting
      (followLanes grammar first region growing number).splitting := by
  unfold followLanes
  dsimp only
  split
  · have processed : Kept grammar first good base
        { growing with
          processed := Ordered.insert growing.processed
            (growing.splitting.automaton.prototype number) } :=
      ⟨kept.splitting, kept.cluster⟩
    by_cases inside : number < growing.splitting.automaton.size
    · apply steps_followEach wellFormed unused exact sustains processed
      intro prototype onward
      exact ready_of_genuine genuine kept inside onward
    · rw [followEach_of_size_le]
      · exact Nat.le_of_not_lt inside
  · exact .refl

include wellFormed unused exact sustains genuine in
theorem steps_turn (kept : growing.Kept grammar first good base) :
    Steps grammar first region growing.splitting
      (turn grammar first region growing).splitting := by
  rw [turn]
  split
  · exact .refl
  · rename_i number queue found
    have taken : Kept grammar first good base { growing with queue } :=
      ⟨kept.splitting, kept.cluster⟩
    exact steps_followLanes wellFormed unused exact sustains genuine taken

theorem prototype_resetState {splitting : Splitting} (number other : Nat) :
    (resetState grammar first region splitting
        number).automaton.prototype other =
      splitting.automaton.prototype other := by
  have cleared : (splitting.reset grammar first number).automaton.prototype
      other = splitting.automaton.prototype other :=
    prototype_reset number other
  unfold resetState
  dsimp only
  split
  · refine Eq.trans ?_ cleared
    apply congrArg (Option.getD · other)
    apply state_modify_keeps State.cloneOf
    intro state
    rw [State.close_extends.frame]
    rfl
  · exact cleared

include wellFormed unused exact sustains in
theorem steps_resetState {splitting : Splitting} {number : Nat}
    (kept : splitting.Kept grammar first good base)
    (regional : Regional region splitting.automaton number) :
    Steps grammar first region splitting
      (resetState grammar first region splitting number) := by
  have cleared := kept.reset wellFormed unused exact sustains number
  have resets : Step grammar first region splitting
      (splitting.reset grammar first number) :=
    .reset kept.intact.framed regional
  unfold resetState
  dsimp only
  split
  · refine .tail (.single resets) (.retune _ number _ ?_ ?_)
    · rw [Regional, prototype_reset]
      exact regional
    · intro inside
      have framed := cleared.intact.framed
      exact (State.SameLinks.joinContexts _ _).close
        (framed.closed number inside) (framed.regular number inside).distinct
  · exact .single resets

include wellFormed unused exact sustains in
theorem steps_resetStates {splitting : Splitting} {numbers : List Nat}
    (kept : splitting.Kept grammar first good base)
    (regional : ∀ number ∈ numbers,
      Regional region splitting.automaton number) :
    Steps grammar first region splitting
      (numbers.foldl (resetState grammar first region) splitting) := by
  induction numbers generalizing splitting with
  | nil => exact .refl
  | cons number rest ih =>
      have own := regional number List.mem_cons_self
      have steps := steps_resetState wellFormed unused exact sustains kept own
      refine steps.trans (ih (kept_resetState wellFormed unused exact sustains
        kept) ?_)
      intro other later
      rw [Regional, prototype_resetState]
      exact regional other (List.mem_cons_of_mem _ later)

include wellFormed unused exact sustains genuine in
theorem steps_of_occurs (intact : automaton.Intact grammar first)
    (enlarges : base.Enlarges automaton) (all : automaton.All good)
    (originals : ∀ number, automaton.prototype number = number)
    (occurs : Occurs grammar first automaton region growing) :
    Steps grammar first region (Splitting.begin automaton region)
      growing.splitting := by
  induction occurs with
  | begin =>
      exact steps_resetStates wellFormed unused exact sustains
        (Splitting.kept_begin intact enlarges all region)
        fun _ member => @regional_of_mem automaton region originals _ member
  | start _ _ _ _ _ _ ih => exact ih
  | turn before ih =>
      exact ih.trans (steps_turn wellFormed unused exact sustains genuine
        (kept_of_occurs wellFormed unused exact sustains genuine intact
          enlarges all before))

include wellFormed unused exact sustains genuine in
theorem steps_splitByClusters {limit : Nat}
    (intact : automaton.Intact grammar first)
    (enlarges : base.Enlarges automaton) (all : automaton.All good)
    (originals : ∀ number, automaton.prototype number = number)
    {splitting : Splitting}
    (result : region.splitByClusters limit grammar first automaton =
      .ok splitting) :
    Steps grammar first region (Splitting.begin automaton region)
      splitting := by
  obtain ⟨grown, occurs, -, rfl⟩ := occurs_splitByClusters result
  exact steps_of_occurs wellFormed unused exact sustains genuine intact enlarges
    all originals occurs

end ClusterSplitting

end LRTables
