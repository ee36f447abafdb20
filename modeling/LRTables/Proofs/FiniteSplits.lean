import LRTables.Proofs.PagerPrecision
import Mathlib.Data.Nat.Count

/-!
# Splits by weak compatibility end

In each turn a split takes a state from the queue and makes its transitions
again.  A transition is redirected at most once more than the contexts of its
source can grow, and when no state waits any longer, every state that can be
reached has passed its lookaheads on.
-/

namespace LRTables

open Collecting

namespace PagerSplitting

variable {grammar : Grammar} {first : FirstSets} {base : Automaton}
  {region : Region} {good : State → Prop} {pager : PagerSplitting}
  {number : Nat} {remaining : List (Symbol × Nat)}

/-- Whether a transition of the old automaton has another target in the new
one. -/
def Redirected (source : Nat) (symbol : Symbol) (old new : Automaton) : Prop :=
  (old.state source).successor? symbol ≠ none ∧
    (new.state source).successor? symbol ≠ (old.state source).successor? symbol

instance (source : Nat) (symbol : Symbol) (old new : Automaton) :
    Decidable (Redirected source symbol old new) :=
  inferInstanceAs (Decidable (_ ∧ _))

theorem Redirected.before_or_after {source : Nat} {symbol : Symbol}
    {old new later : Automaton}
    (redirected : Redirected source symbol old later) :
    Redirected source symbol old new ∨ Redirected source symbol new later := by
  obtain ⟨present, different⟩ := redirected
  by_cases same : (new.state source).successor? symbol =
      (old.state source).successor? symbol
  · right
    rw [Redirected, same]
    exact ⟨present, different⟩
  · exact Or.inl ⟨present, same⟩

/-- Whether a transition is redirected in a turn. -/
def RedirectedIn (grammar : Grammar) (first : FirstSets) (region : Region)
    (pager : PagerSplitting) (source : Nat) (symbol : Symbol) (turns : Nat) :
    Prop :=
  Redirected source symbol
    ((turn grammar first region)^[turns] pager).splitting.automaton
    ((turn grammar first region)^[turns + 1] pager).splitting.automaton

instance (grammar : Grammar) (first : FirstSets) (region : Region)
    (pager : PagerSplitting) (source : Nat) (symbol : Symbol) :
    DecidablePred (RedirectedIn grammar first region pager source symbol) :=
  fun _ => inferInstanceAs (Decidable (Redirected _ _ _ _))

/-- Whether a state has a hungry transition on the symbol. -/
def isHungryOn (grammar : Grammar) (automaton : Automaton) (source : Nat)
    (symbol : Symbol) : Bool :=
  ((automaton.state source).successor? symbol).any fun target =>
    automaton.isHungry grammar source (symbol, target)

/-- How often a transition may still be redirected: once if it is hungry, and
once more whenever the contexts of its source grow. -/
def appetite (grammar : Grammar) (automaton : Automaton) (source : Nat)
    (symbol : Symbol) : Nat :=
  if source < automaton.size then
    Closing.roomOf grammar.terminals.size (automaton.state source) +
      (isHungryOn grammar automaton source symbol).toNat
  else grammar.growthBound + 1

theorem appetite_of_lt {automaton : Automaton} {source : Nat} {symbol : Symbol}
    (inside : source < automaton.size) :
    appetite grammar automaton source symbol =
      Closing.roomOf grammar.terminals.size (automaton.state source) +
        (isHungryOn grammar automaton source symbol).toNat :=
  if_pos inside

/-- A transition is not redirected without appetite. -/
structure Consumes (grammar : Grammar) (source : Nat) (symbol : Symbol)
    (old new : Automaton) : Prop where
  le : appetite grammar new source symbol ≤ appetite grammar old source symbol
  lt : Redirected source symbol old new →
    appetite grammar new source symbol < appetite grammar old source symbol

/-- New states are counted as copies, and no transition is redirected without
appetite. -/
structure Advances (grammar : Grammar) (old new : Splitting) : Prop where
  counted : new.automaton.size + old.counts.clones =
    old.automaton.size + new.counts.clones
  consumes : ∀ source symbol,
    Consumes grammar source symbol old.automaton new.automaton

theorem Advances.refl (splitting : Splitting) :
    Advances grammar splitting splitting := by
  refine ⟨rfl, fun source symbol => ⟨Nat.le_refl _, ?_⟩⟩
  intro redirected
  exact absurd rfl redirected.2

theorem Advances.trans {old new later : Splitting}
    (before : Advances grammar old new) (after : Advances grammar new later) :
    Advances grammar old later := by
  have counted := before.counted
  have countedLater := after.counted
  refine ⟨by omega, fun source symbol => ?_⟩
  have early := before.consumes source symbol
  have late := after.consumes source symbol
  refine ⟨late.le.trans early.le, fun redirected => ?_⟩
  rcases redirected.before_or_after with soon | subsequent
  · exact Nat.lt_of_le_of_lt late.le (early.lt soon)
  · exact Nat.lt_of_lt_of_le (late.lt subsequent) early.le

section Redirecting

variable {current target : Nat} {symbol : Symbol} {provided : Splitting}

theorem Provides.counted {incoming : List Configuration} {old new : Splitting}
    (provides : Provides grammar first incoming current old target new) :
    new.automaton.size + old.counts.clones =
      old.automaton.size + new.counts.clones := by
  cases provides with
  | covering => rfl
  | joined =>
      dsimp only
      rw [Automaton.size_absorb]
      rfl
  | cloned =>
      dsimp only
      rw [Splitting.size_provide]
      omega

variable (wellFormed : grammar.WellFormed) (unused : grammar.GoalUnused)
  (exact : first.Exact grammar) (sustains : Sustains grammar first True good)
  (sorted : Sorted grammar base)
  (settling : Settling grammar first good base region number
    ((symbol, current) :: remaining) pager)
  (lacks : (pager.splitting.automaton.state current).covers
    ((pager.splitting.automaton.state number).successorCores grammar true
      symbol) = false)
  (supply : Provided grammar first good base
    ((pager.splitting.automaton.state number).successorCores grammar true
      symbol) current pager.splitting target provided)

include wellFormed unused exact sustains settling supply in
/-- A state keeps its contexts, or they have grown. -/
theorem Settling.alike_or_roomOf_lt {source : Nat}
    (inside : source < pager.splitting.automaton.size) :
    (pager.splitting.automaton.state source).Alike
        ((provided.automaton.relink number symbol target).state source) ∨
      Closing.roomOf grammar.terminals.size
          ((provided.automaton.relink number symbol target).state source) <
        Closing.roomOf grammar.terminals.size
          (pager.splitting.automaton.state source) := by
  by_cases isTarget : source = target
  · subst isTarget
    rw [roomOf_alike (Automaton.alike_relink number symbol source source)]
    cases supply.provides with
    | covering => exact Or.inl (Automaton.alike_relink _ _ _ _)
    | joined _ among lacking =>
        exact Or.inr (settling.kept.roomOf_absorb_lt wellFormed unused exact
          sustains inside (settling.copy_of_among among).2
          (fun _ _ => settling.kept.intact.arrives_lt settling.fits.source_lt)
          lacking)
    | cloned => exact absurd inside (Nat.lt_irrefl _)
  · exact Or.inl (alike_redirect supply inside isTarget)

include settling supply in
theorem Settling.successor?_redirect {source : Nat} {scanned : Symbol}
    (inside : source < pager.splitting.automaton.size) :
    ((provided.automaton.relink number symbol target).state
        source).successor? scanned =
      if source = number ∧ scanned = symbol then some target
      else (pager.splitting.automaton.state source).successor? scanned := by
  have providedInside := Nat.lt_of_lt_of_le settling.fits.source_lt
    supply.enlarges.size_le
  rw [Automaton.successor?_relink providedInside, State.successor?_eq,
    supply.provides.successors inside, State.successor?_eq]

include settling lacks supply in
theorem Settling.isHungryOn_of_redirected {source : Nat} {scanned : Symbol}
    (redirected : Redirected source scanned pager.splitting.automaton
      (provided.automaton.relink number symbol target)) :
    isHungryOn grammar pager.splitting.automaton source scanned = true := by
  obtain ⟨present, different⟩ := redirected
  obtain ⟨old, found⟩ := Option.ne_none_iff_exists'.mp present
  rw [settling.successor?_redirect supply
    (Automaton.lt_size_of_successor found)] at different
  split at different
  · rename_i own
    obtain ⟨rfl, rfl⟩ := own
    have edge := (settling.pending (scanned, current) List.mem_cons_self).1
    rw [isHungryOn, edge, Option.any_some, Automaton.isHungry, lacks]
    rfl
  · exact absurd rfl different

include settling supply in
/-- If the source has not grown, a transition that is hungry still was hungry
before, and it is not the one that was redirected. -/
theorem Settling.hungry_before
    (framed : (provided.automaton.relink number symbol target).Framed grammar)
    {source : Nat} {scanned : Symbol}
    (inside : source < pager.splitting.automaton.size)
    (alike : (pager.splitting.automaton.state source).Alike
      ((provided.automaton.relink number symbol target).state source))
    (hungry : isHungryOn grammar
      (provided.automaton.relink number symbol target) source scanned = true) :
    isHungryOn grammar pager.splitting.automaton source scanned = true ∧
      ¬ Redirected source scanned pager.splitting.automaton
        (provided.automaton.relink number symbol target) := by
  have before := settling.kept.intact.framed
  have next := @Settling.successor?_redirect grammar first base region good
    pager number remaining current target symbol provided settling supply
    source scanned inside
  split at next
  · rename_i own
    obtain ⟨rfl, rfl⟩ := own
    rw [isHungryOn, next, Option.any_some, framed.isHungry_iff next] at hungry
    refine absurd ?_ hungry
    intro item terminal has scans
    rw [(Automaton.alike_relink _ _ _ _).hasContext_iff]
    apply supply.arrived
    exact State.arrives_successorCores.mpr
      ⟨item, alike.hasContext_iff.mp has, scans, rfl⟩
  · refine ⟨?_, fun redirected => redirected.2 next⟩
    obtain ⟨other, found, lacking⟩ := (Option.any_eq_true _ _).mp hungry
    have foundBefore := next ▸ found
    rw [isHungryOn, foundBefore, Option.any_some]
    apply Automaton.isHungry_of_grows before framed alike ?_ foundBefore found
      lacking
    intro place placeInside item terminal has
    rw [(Automaton.alike_relink _ _ _ _).hasContext_iff]
    exact supply.provides.grows placeInside has

include wellFormed unused exact sustains settling lacks supply in
theorem Settling.consumes_redirect
    (framed : (provided.automaton.relink number symbol target).Framed grammar)
    {source : Nat} {scanned : Symbol}
    (inside : source < pager.splitting.automaton.size) :
    Consumes grammar source scanned pager.splitting.automaton
      (provided.automaton.relink number symbol target) := by
  have newInside :
      source < (provided.automaton.relink number symbol target).size := by
    rw [Automaton.size_relink]
    exact Nat.lt_of_lt_of_le inside supply.enlarges.size_le
  have before (redirected : Redirected source scanned pager.splitting.automaton
      (provided.automaton.relink number symbol target)) :
      (isHungryOn grammar pager.splitting.automaton source scanned).toNat =
        1 := by
    rw [settling.isHungryOn_of_redirected lacks supply redirected]
    rfl
  have most := Bool.toNat_le (isHungryOn grammar
    (provided.automaton.relink number symbol target) source scanned)
  have own := @appetite_of_lt grammar _ _ scanned inside
  have later := @appetite_of_lt grammar _ _ scanned newInside
  rcases settling.alike_or_roomOf_lt wellFormed unused exact sustains supply
    inside with alike | less
  · rw [roomOf_alike alike] at later
    cases hungry : isHungryOn grammar
        (provided.automaton.relink number symbol target) source scanned with
    | true =>
        obtain ⟨already, kept⟩ :=
          settling.hungry_before supply framed inside alike hungry
        rw [hungry, ← already, ← own] at later
        exact ⟨Nat.le_of_eq later, fun redirected => absurd redirected kept⟩
    | false =>
        rw [hungry, Bool.toNat_false] at later
        constructor
        · omega
        · intro redirected
          have one := before redirected
          omega
  · constructor
    · omega
    · intro redirected
      have one := before redirected
      omega

theorem Settling.appetite_le (sorted : Sorted grammar base)
    (settling : Settling grammar first good base region number remaining
      pager) (source : Nat) (scanned : Symbol) :
    appetite grammar pager.splitting.automaton source scanned ≤
      grammar.growthBound + 1 := by
  rw [appetite]
  split
  · rename_i inside
    apply Nat.add_le_add ?_ (Bool.toNat_le _)
    apply roomOf_le_growthBound
    exact (settling.listed sorted inside).size_le
      (settling.kept.intact.framed.regular source inside)
  · exact Nat.le_refl _

end Redirecting

section Turns

variable (wellFormed : grammar.WellFormed) (unused : grammar.GoalUnused)
  (exact : first.Exact grammar) (sustains : Sustains grammar first True good)
  (sorted : Sorted grammar base)

include wellFormed unused exact sustains sorted

theorem Settling.advances_remake {edge : Symbol × Nat}
    (settling : Settling grammar first good base region number
      (edge :: remaining) pager) :
    Advances grammar pager.splitting
      (PagerSplitting.remake grammar first number pager edge).splitting := by
  obtain ⟨symbol, current⟩ := edge
  obtain ⟨after, same | ⟨target, provided, lacks, supply, equal⟩⟩ :=
    settling.remake_cases wellFormed unused exact sustains
  · rw [same]
    exact .refl _
  · rw [equal] at after ⊢
    refine ⟨?_, fun source scanned => ?_⟩
    · dsimp only
      rw [Automaton.size_relink]
      exact supply.provides.counted
    · by_cases inside : source < pager.splitting.automaton.size
      · exact settling.consumes_redirect wellFormed unused exact sustains lacks
          supply after.kept.intact.framed inside
      · have unspent : appetite grammar pager.splitting.automaton source
            scanned = grammar.growthBound + 1 := if_neg inside
        constructor
        · rw [unspent]
          exact after.appetite_le sorted source scanned
        · intro redirected
          obtain ⟨old, found⟩ := Option.ne_none_iff_exists'.mp redirected.1
          exact absurd (Automaton.lt_size_of_successor found) inside

theorem Settling.advances_remakeEdges
    (settling : Settling grammar first good base region number remaining
      pager)
    (apart : Settling.Apart grammar pager) :
    Advances grammar pager.splitting
      (remaining.foldl (PagerSplitting.remake grammar first number)
        pager).splitting := by
  induction remaining generalizing pager with
  | nil => exact .refl _
  | cons edge rest ih =>
      obtain ⟨after, still, -⟩ :=
        settling.remake wellFormed unused exact sustains sorted apart
      exact (settling.advances_remake wellFormed unused exact sustains
        sorted).trans (ih after still)

theorem Settling.advances_turn
    (settling : Settling grammar first good base region number [] pager)
    (apart : Settling.Apart grammar pager) :
    Advances grammar pager.splitting
      (PagerSplitting.turn grammar first region pager).splitting := by
  rw [PagerSplitting.turn]
  split
  · exact .refl _
  · rename_i next queue popped
    unfold PagerSplitting.remakeAll
    dsimp only
    split
    · exact .refl _
    · exact (settling.take popped).advances_remakeEdges wellFormed unused exact
        sustains sorted apart

/-- So far each new state is a copy, and transitions have been redirected only
as often as their appetite has fallen. -/
theorem Settling.advances_turns
    (settling : Settling grammar first good base region number [] pager)
    (apart : Settling.Apart grammar pager) (turns : Nat) :
    Advances grammar pager.splitting
        ((PagerSplitting.turn grammar first region)^[turns] pager).splitting ∧
      ∀ source symbol,
        Nat.count (RedirectedIn grammar first region pager source symbol)
            turns +
          appetite grammar ((PagerSplitting.turn grammar first region)^[turns]
            pager).splitting.automaton source symbol ≤
        appetite grammar pager.splitting.automaton source symbol := by
  induction turns with
  | zero =>
      refine ⟨.refl _, fun source symbol => ?_⟩
      rw [Nat.count_zero, Nat.zero_add]
      exact Nat.le_refl _
  | succ turns ih =>
      obtain ⟨before, spent⟩ := ih
      obtain ⟨last, settled, still⟩ :=
        settling.turns wellFormed unused exact sustains sorted apart turns
      have after :=
        settled.advances_turn wellFormed unused exact sustains sorted still
      rw [← Function.iterate_succ_apply' (PagerSplitting.turn grammar first
        region), Nat.succ_eq_add_one] at after
      refine ⟨before.trans after, fun source symbol => ?_⟩
      have sum := spent source symbol
      have consumes := after.consumes source symbol
      have notMore := consumes.le
      rw [Nat.count_succ]
      split
      · rename_i redirected
        have less := consumes.lt redirected
        omega
      · omega

end Turns

/-- A split of a region ends after so many turns.  The new states are the
copies that were counted, each transition is redirected only so often, and
every transition from a state that can be reached leads to a state whose core
has the contexts that arrive. -/
structure Ends (grammar : Grammar) (first : FirstSets) (automaton : Automaton)
    (region : Region) (turns : Nat) (final : PagerSplitting) : Prop where
  reached : (turn grammar first region)^[turns]
    (begin grammar first automaton region) = final
  served : final.queue.waiting = []
  result : ∀ limit > turns,
    run grammar first region limit (begin grammar first automaton region) =
      .ok final.splitting
  counted : final.splitting.automaton.size =
    automaton.size + final.splitting.counts.clones
  bounded : final.splitting.automaton.size ≤ grammar.stateBound
  redirected : ∀ source symbol later,
    Nat.count (RedirectedIn grammar first region
      (begin grammar first automaton region) source symbol) later ≤
        grammar.growthBound + 1
  isocore : ∀ source symbol target,
    (final.splitting.automaton.state source).successor? symbol = some target →
      (final.splitting.automaton.state target).coreItems =
        ((final.splitting.automaton.state source).successorCores grammar true
          symbol).map Configuration.item
  covered : ∀ source ∈ final.splitting.automaton.reachableStates,
    ∀ symbol target,
      (final.splitting.automaton.state source).successor? symbol =
          some target →
        (final.splitting.automaton.state target).covers
          ((final.splitting.automaton.state source).successorCores grammar true
            symbol) = true

theorem counts_resetAll {splitting : Splitting} (numbers : List Nat) :
    (numbers.foldl (Splitting.reset grammar first) splitting).counts =
      splitting.counts := by
  induction numbers generalizing splitting with
  | nil => rfl
  | cons head rest ih => exact ih

theorem Settling.exists_ends {automaton : Automaton}
    (wellFormed : grammar.WellFormed) (unused : grammar.GoalUnused)
    (exact : first.Exact grammar) (sustains : Sustains grammar first True good)
    (sorted : Sorted grammar automaton)
    (evident : ∀ state, good state → state.Evident grammar)
    (faithful : automaton.Faithful grammar first)
    (settling : Settling grammar first good automaton region number []
      (begin grammar first automaton region))
    (size : (begin grammar first automaton region).splitting.automaton.size =
      automaton.size) :
    ∃ turns < stepBound grammar automaton, ∃ final,
      Ends grammar first automaton region turns final := by
  have apart := sorted.apart_of_size settling size
  obtain ⟨turns, few, served⟩ :=
    settling.exists_served wellFormed unused exact sustains sorted apart
  obtain ⟨last, settled, still⟩ :=
    settling.turns wellFormed unused exact sustains sorted apart turns
  have framed := settled.kept.intact.framed
  have matching {source target : Nat} {symbol : Symbol} :=
    @Propagating.matches_of_successor grammar _ framed source target symbol
  have advances (later : Nat) := settling.advances_turns wellFormed unused exact
    sustains sorted apart later
  have saturated := settled.saturated wellFormed unused exact evident faithful
    sorted.apart served
  refine ⟨turns, Nat.lt_of_le_of_lt few
    (settling.potential_lt_stepBound wellFormed unused sorted size),
    (PagerSplitting.turn grammar first region)^[turns]
      (begin grammar first automaton region), ?_⟩
  constructor
  · rfl
  · exact served
  · exact fun limit enough => run_of_served served enough
  · have counted := (advances turns).1.counted
    have none : (begin grammar first automaton
        region).splitting.counts.clones = 0 :=
      congrArg SplitCounts.clones (counts_resetAll region.states)
    omega
  · exact settled.size_le sorted still
  · intro source symbol later
    have spent := (advances later).2 source symbol
    have most := settling.appetite_le sorted source symbol
    omega
  · intro source symbol target edge
    exact (matching edge).items
  · intro source reachable symbol target edge
    obtain ⟨word, leads⟩ := framed.mem_reachableStates.mp reachable
    exact (Automaton.covers_iff_feeds (matching edge)).mpr
      (saturated.feeds word source leads symbol target edge)

end PagerSplitting

open PagerSplitting in
/-- Splits by weak compatibility end, whatever conflicts were found. -/
theorem pager_split_ends {grammar : Grammar} (accepted : grammar.Accepted)
    (unused : grammar.GoalUnused) :
    ∃ base, Automaton.collect? grammar (.ofGrammar grammar) .lr0 = some base ∧
      ∀ (log : ConflictLog) (automaton : Automaton) (region : Region),
        (base.traceLanes grammar
            (.ofGrammar grammar)).automaton.markConflictLanes grammar
              (.ofGrammar grammar) log = (automaton, region) →
        ∃ turns < stepBound grammar automaton, ∃ final,
          Ends grammar (.ofGrammar grammar) automaton region turns final ∧
            region.splitByPager grammar (.ofGrammar grammar) automaton =
              .ok final.splitting := by
  have wellFormed := accepted.wellFormed
  have exact := FirstSets.exact_ofGrammar wellFormed
  obtain ⟨base, collected⟩ := Automaton.exists_collect? wellFormed exact .lr0
  obtain ⟨traced, unrolled⟩ :=
    Construction.tracedFrom_of_collect? wellFormed unused exact collected
  refine ⟨base, collected, ?_⟩
  intro log automaton region marked
  obtain ⟨rfl, rfl⟩ := Prod.mk.inj marked
  have hereditary : grammar.Hereditary fun _ _ => False :=
    ⟨fun _ _ _ _ _ => id, fun _ _ _ _ => id, fun _ _ _ _ => id⟩
  obtain ⟨settling, sorted, size⟩ := @Automaton.TracedFrom.begins grammar _
    base _ log wellFormed unused exact collected traced unrolled _ hereditary
    fun _ _ _ _ _ none => none.elim
  have sustains := (sustains_grounded wellFormed unused exact
    hereditary).unrolled
  obtain ⟨turns, few, final, ends⟩ := settling.exists_ends wellFormed unused
    exact sustains sorted (fun _ guarded => guarded.1.1)
    ((traced.mark log).faithful wellFormed unused exact unrolled) size
  exact ⟨turns, few, final, ends, ends.result _ few⟩

open PagerSplitting in
/-- Where lanes cross, the region is not empty. -/
theorem pager_split_ends_crossed : ∃ base log automaton region turns final,
    Automaton.collect? .crossed (.ofGrammar .crossed) .lr0 = some base ∧
      (base.traceLanes .crossed
          (.ofGrammar .crossed)).automaton.markConflictLanes .crossed
            (.ofGrammar .crossed) log = (automaton, region) ∧
      region.isEmpty = false ∧
      Ends .crossed (.ofGrammar .crossed) automaton region turns final ∧
      region.splitByPager .crossed (.ofGrammar .crossed) automaton =
        .ok final.splitting := by
  obtain ⟨traced, region, contended⟩ := exists_contended_crossed
  obtain ⟨base, collected, rfl⟩ := contended.traced
  obtain ⟨table, -, -, rfl⟩ := contended.conflicts
  obtain ⟨other, same, ends⟩ :=
    pager_split_ends accepted_crossed goalUnused_crossed
  obtain rfl : base = other := Option.some.inj (collected.symm.trans same)
  obtain ⟨turns, -, final, ended, result⟩ := ends table.log _ _ rfl
  exact ⟨base, table.log, _, _, turns, final, collected, rfl,
    contended.affected, ended, result⟩

end LRTables
