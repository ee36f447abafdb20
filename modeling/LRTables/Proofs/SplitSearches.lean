import LRTables.Proofs.FreshCopies
import LRTables.Proofs.Hunger
import LRTables.Proofs.Settlings

/-!
# The search for copies ends

A copy is made only for contexts that no state of its family can take in, so
that there are at most as many states as there are sets of items with
lookaheads.  Between two copies contexts grow only so often, and while none
grows, each transition that is made again leaves one hungry transition fewer.
-/

namespace LRTables

open Finset Collecting

namespace PagerSplitting

variable {grammar : Grammar} {first : FirstSets} {base : Automaton}
  {region : Region} {good : State → Prop} {pager : PagerSplitting}
  {number : Nat} {remaining : List (Symbol × Nat)}

/-- The states of an automaton are told apart by their core items alone. -/
structure Sorted (grammar : Grammar) (automaton : Automaton) : Prop where
  listed : automaton.All (State.Listed grammar)
  apart : ∀ one < automaton.size, ∀ other < automaton.size,
    (automaton.state one).coreItems = (automaton.state other).coreItems →
      one = other

end PagerSplitting

namespace Splitting

variable {grammar : Grammar} {first : FirstSets} {base : Automaton}
  {region : Region} {good : State → Prop} {splitting : Splitting}
  {number : Nat} (kept : splitting.Kept grammar first good base)
  (original : ∀ number < splitting.automaton.size,
    splitting.automaton.prototype number < base.size)
  (sorted : PagerSplitting.Sorted grammar base)

include kept original

theorem Kept.coreItems_prototype (inside : number < splitting.automaton.size) :
    (base.state (splitting.automaton.prototype number)).coreItems =
      (splitting.automaton.state number).coreItems := by
  rw [(kept.intact.prototype_items number inside).coreItems,
    (kept.enlarges.sameItems _ (original number inside)).coreItems]

include sorted

theorem Kept.listed (inside : number < splitting.automaton.size) :
    (splitting.automaton.state number).Listed grammar :=
  (sorted.listed _ (original number inside)).congr
    (kept.coreItems_prototype original inside).symm

/-- States with the same core are copies of one state. -/
theorem Kept.prototype_eq {other : Nat}
    (inside : number < splitting.automaton.size)
    (otherInside : other < splitting.automaton.size)
    (same : (splitting.automaton.state number).coreItems =
      (splitting.automaton.state other).coreItems) :
    splitting.automaton.prototype number =
      splitting.automaton.prototype other := by
  apply sorted.apart _ (original number inside) _ (original other otherInside)
  rw [kept.coreItems_prototype original inside,
    kept.coreItems_prototype original otherInside, same]

theorem Kept.size_le {made : Nat → Item → Nat → Prop}
    (distinguished : Distinguished grammar .pager made splitting.automaton) :
    splitting.automaton.size ≤ grammar.stateBound :=
  distinguished.size_le (fun _ => kept.listed original sorted)
    kept.intact.terminated

theorem Kept.roomIn_le :
    roomIn grammar splitting.automaton ≤
      splitting.automaton.size * grammar.growthBound := by
  have bound := sum_le_card_nsmul (range splitting.automaton.size)
    (fun number => Closing.roomOf grammar.terminals.size
      (splitting.automaton.state number)) grammar.growthBound
    (by
      intro number member
      have inside := mem_range.mp member
      exact roomOf_le_growthBound
        ((kept.listed original sorted inside).size_le
          (kept.intact.framed.regular number inside)))
  rwa [card_range] at bound

/-- When no state of the family has all that arrives, no state with that core
has. -/
theorem Kept.lacks_of_family {source current : Nat} {symbol : Symbol}
    (fits : splitting.automaton.Fits grammar source symbol current)
    (complete : ∀ number < splitting.automaton.size,
      region.contains (splitting.automaton.prototype number) = true →
        number ∈ splitting.families.copiesOf
          (splitting.automaton.prototype number))
    (contained : region.contains
      (splitting.automaton.prototype current) = true)
    (lacking : ∀ copy ∈ splitting.families.copiesOf
        (splitting.automaton.prototype current),
      (splitting.automaton.state copy).covers
        ((splitting.automaton.state source).successorCores grammar true
          symbol) = false)
    (inside : number < splitting.automaton.size)
    (items : (splitting.automaton.state number).coreItems =
      ((splitting.automaton.state source).successorCores grammar true
        symbol).map Configuration.item) :
    (splitting.automaton.state number).covers
      ((splitting.automaton.state source).successorCores grammar true
        symbol) = false := by
  have same := kept.prototype_eq original sorted inside fits.target_lt
    (items.trans (fits.matching kept.intact.framed).items.symm)
  have member := complete number inside (same ▸ contained)
  exact lacking number (same ▸ member)

omit original in
theorem Kept.distinguished_of_size
    (size : splitting.automaton.size = base.size) :
    Distinguished grammar .pager (fun _ _ _ => False) splitting.automaton := by
  have items {number : Nat} (inside : number < base.size) :
      (splitting.automaton.state number).coreItems =
        (base.state number).coreItems :=
    (kept.enlarges.sameItems number inside).coreItems
  refine ⟨?_, nofun, ?_⟩
  · exact fun _ _ _ _ none => none.elim
  · intro one oneInside other otherInside different same
    rw [size] at oneInside otherInside
    rw [items oneInside, items otherInside] at same
    exact absurd (sorted.apart one oneInside other otherInside same) different

end Splitting

namespace PagerSplitting

variable {grammar : Grammar} {first : FirstSets} {base : Automaton}
  {region : Region} {good : State → Prop} {pager : PagerSplitting}
  {number : Nat} {remaining : List (Symbol × Nat)}

namespace Settling

theorem listed
    (settling : Settling grammar first good base region number remaining
      pager) (sorted : Sorted grammar base) {other : Nat}
    (inside : other < pager.splitting.automaton.size) :
    (pager.splitting.automaton.state other).Listed grammar :=
  settling.kept.listed settling.original sorted inside

/-- The states can be told apart by the contexts for which they were made. -/
def Apart (grammar : Grammar) (pager : PagerSplitting) : Prop :=
  ∃ made, Distinguished grammar .pager made pager.splitting.automaton

theorem size_le
    (settling : Settling grammar first good base region number remaining
      pager) (sorted : Sorted grammar base) (apart : Apart grammar pager) :
    pager.splitting.automaton.size ≤ grammar.stateBound := by
  obtain ⟨made, distinguished⟩ := apart
  exact settling.kept.size_le settling.original sorted distinguished

end Settling

/-- What a new state adds at most: its contexts may grow, and each time all its
transitions may become hungry. -/
def stateCost (grammar : Grammar) : Nat :=
  grammar.growthBound * (grammar.columnCount + 1) + grammar.columnCount

/-- A bound on the states still to be taken from the queue. -/
def potential (grammar : Grammar) (pager : PagerSplitting) : Nat :=
  pager.queue.waiting.length +
    roomIn grammar pager.splitting.automaton * (grammar.columnCount + 1) +
    pager.splitting.automaton.hungerIn grammar +
    (grammar.stateBound - pager.splitting.automaton.size) * stateCost grammar

/-- What a redirected transition does to an automaton: it leaves one hungry
transition fewer, or a context has grown, or there is a new state. -/
inductive Spends (grammar : Grammar) (old new : Automaton) : Prop where
  | fed : new.size = old.size → roomIn grammar new = roomIn grammar old →
      new.hungerIn grammar < old.hungerIn grammar → Spends grammar old new
  | grown : new.size = old.size → roomIn grammar new < roomIn grammar old →
      new.hungerIn grammar ≤ old.hungerIn grammar + grammar.columnCount →
      Spends grammar old new
  | copied : new.size = old.size + 1 →
      roomIn grammar new ≤ roomIn grammar old + grammar.growthBound →
      new.hungerIn grammar < old.hungerIn grammar + grammar.columnCount →
      Spends grammar old new

theorem Spends.potential_le {new : Splitting} {target : Nat}
    (spends : Spends grammar pager.splitting.automaton new.automaton)
    (bound : new.automaton.size ≤ grammar.stateBound) :
    potential grammar
        { splitting := new
          queue := pager.queue.push target } ≤
      potential grammar pager := by
  have longer := pager.queue.length_push_le target
  simp only [potential]
  cases spends with
  | fed size room hunger =>
      rw [size, room]
      omega
  | grown size room hunger =>
      rw [size]
      have less := Nat.mul_le_mul_right (grammar.columnCount + 1)
        (Nat.succ_le_of_lt room)
      rw [Nat.succ_mul] at less
      omega
  | copied size room hunger =>
      rw [size] at bound ⊢
      -- One state fewer is left to be made.
      have fewer : grammar.stateBound - pager.splitting.automaton.size =
          grammar.stateBound - (pager.splitting.automaton.size + 1) + 1 := by
        omega
      have more := Nat.mul_le_mul_right (grammar.columnCount + 1) room
      rw [Nat.add_mul] at more
      rw [fewer, Nat.add_mul, Nat.one_mul, stateCost]
      omega

theorem sum_le_of_other {numbers : Finset Nat} {target bound : Nat}
    {before after : Nat → Nat} (member : target ∈ numbers)
    (own : after target ≤ bound)
    (others : ∀ other ∈ numbers, other ≠ target →
      after other ≤ before other) :
    ∑ number ∈ numbers, after number ≤
      ∑ number ∈ numbers, before number + bound := by
  rw [← sum_erase_add _ after member, ← sum_erase_add _ before member]
  have rest : ∑ number ∈ numbers.erase target, after number ≤
      ∑ number ∈ numbers.erase target, before number :=
    sum_le_sum fun other listed =>
      others other (mem_of_mem_erase listed) (ne_of_mem_erase listed)
  omega

section Redirecting

variable {current target : Nat} {symbol : Symbol} {provided : Splitting}
  (wellFormed : grammar.WellFormed) (unused : grammar.GoalUnused)
  (exact : first.Exact grammar) (sustains : Sustains grammar first True good)
  (sorted : Sorted grammar base)
  (settling : Settling grammar first good base region number
    ((symbol, current) :: remaining) pager)
  (lacks : (pager.splitting.automaton.state current).covers
    ((pager.splitting.automaton.state number).successorCores grammar true
      symbol) = false)
  (supply : Provided grammar first good base
    ((pager.splitting.automaton.state number).successorCores grammar true
      symbol) current pager.splitting target provided)

include settling in
theorem Settling.fits :
    pager.splitting.automaton.Fits grammar number symbol current :=
  settling.kept.intact.framed.fits
    (settling.pending (symbol, current) List.mem_cons_self).1

include settling supply in
theorem Settling.items_target :
    (provided.automaton.state target).coreItems =
      ((pager.splitting.automaton.state number).successorCores grammar true
        symbol).map Configuration.item := by
  have fits := settling.fits
  have fitsNew := (fits.enlarge supply.enlarges).copy supply.kept.intact
    supply.target_lt (supply.prototype.trans
      (supply.enlarges.prototype current fits.target_lt).symm)
  rw [fitsNew.core, State.items_successorCores]
  exact (supply.enlarges.sameItems number fits.source_lt).successorItems

include settling in
theorem Settling.copy_of_among
    (among : target = current ∨ target ∈ pager.splitting.families.copiesOf
      (pager.splitting.automaton.prototype current)) :
    target < pager.splitting.automaton.size ∧
      (pager.splitting.automaton.state target).Matches grammar
        ((pager.splitting.automaton.state number).successorCores grammar true
          symbol) := by
  have copy : target < pager.splitting.automaton.size ∧
      pager.splitting.automaton.prototype target =
        pager.splitting.automaton.prototype current := by
    rcases among with rfl | member
    · exact ⟨settling.fits.target_lt, rfl⟩
    · exact settling.kept.families _ target member
  exact ⟨copy.1, (settling.fits.copy settling.kept.intact copy.1
    copy.2).matching settling.kept.intact.framed⟩

include wellFormed unused exact sustains sorted settling supply in
/-- The target is told apart by what arrives if it is new. -/
theorem Settling.apart_provided (apart : Settling.Apart grammar pager) :
    ∃ made, Distinguished grammar .pager made provided.automaton := by
  obtain ⟨made, distinguished⟩ := apart
  have kept := settling.kept
  cases supply.provides with
  | covering => exact ⟨made, distinguished⟩
  | joined _ among =>
      obtain ⟨inside, matching⟩ := settling.copy_of_among among
      exact ⟨made, kept.distinguished_absorb wellFormed unused exact sustains
        inside matching distinguished⟩
  | cloned refuse =>
      have inside := settling.fits.target_lt
      have original := kept.intact.prototype_idem current inside
      have fits := settling.fits.copy kept.intact
        (kept.intact.prototype_lt current inside) original
      dsimp only
      exact kept.distinguished_provide wellFormed unused exact sustains original
        fits distinguished
        fun _ => kept.lacks_of_family settling.original sorted settling.fits
          settling.complete
          (settling.pending (symbol, current) List.mem_cons_self).2
          fun copy member => (refuse copy member).1

include settling lacks supply in
/-- The transition that is redirected is no longer hungry, unless its source has
grown, and no other becomes hungry, but for those of the target. -/
theorem Settling.hunger_redirect
    (framed : (provided.automaton.relink number symbol target).Framed grammar)
    {other : Nat} (inside : other < pager.splitting.automaton.size)
    (alike : (pager.splitting.automaton.state other).Alike
      ((provided.automaton.relink number symbol target).state other)) :
    (provided.automaton.relink number symbol target).hunger grammar other ≤
        pager.splitting.automaton.hunger grammar other ∧
      (other = number →
        (provided.automaton.relink number symbol target).hunger grammar
            other <
          pager.splitting.automaton.hunger grammar other) := by
  have provides := supply.provides
  have before := settling.kept.intact.framed
  have edge := (settling.pending (symbol, current) List.mem_cons_self).1
  have sourceInside := settling.fits.source_lt
  have grows : ∀ next < pager.splitting.automaton.size, ∀ item terminal,
      (pager.splitting.automaton.state next).HasContext item terminal →
        ((provided.automaton.relink number symbol target).state
          next).HasContext item terminal := by
    intro next nextInside item terminal has
    rw [(Automaton.alike_relink _ _ _ _).hasContext_iff]
    exact provides.grows nextInside has
  by_cases same : other = number
  · subst same
    have less : (provided.automaton.relink other symbol target).hunger
          grammar other <
        pager.splitting.automaton.hunger grammar other := by
      apply Automaton.hunger_lt_of_redirected before framed alike grows
      · rw [Automaton.successors_relink (Nat.lt_of_lt_of_le inside
          supply.enlarges.size_le), provides.successors inside]
      · exact edge
      · rw [Automaton.isHungry, lacks]
        rfl
      · intro item terminal has scans
        rw [(Automaton.alike_relink _ _ _ _).hasContext_iff]
        apply supply.arrived
        exact State.arrives_successorCores.mpr
          ⟨item, alike.hasContext_iff.mp has, scans, rfl⟩
    exact ⟨Nat.le_of_lt less, fun _ => less⟩
  · refine ⟨?_, fun equal => absurd equal same⟩
    apply Automaton.hunger_le_of_grows before framed alike grows
    rw [Automaton.successors_relink_ne same, provides.successors inside]

include sorted settling supply in
theorem Settling.size_target_le :
    (provided.automaton.state target).configurations.size ≤
      grammar.itemCount := by
  have listed := settling.listed sorted settling.fits.target_lt
  have matching := settling.fits.matching settling.kept.intact.framed
  apply State.Listed.size_le
  · apply listed.congr
    rw [settling.items_target supply, matching.items]
  · exact supply.kept.intact.framed.regular target supply.target_lt

include wellFormed unused settling lacks supply in
/-- A new state brings in its own hunger only. -/
theorem Settling.hungerIn_new
    (framed : (provided.automaton.relink number symbol target).Framed grammar)
    (isNew : target = pager.splitting.automaton.size)
    (size : (provided.automaton.relink number symbol target).size =
      pager.splitting.automaton.size + 1) :
    (provided.automaton.relink number symbol target).hungerIn grammar <
      pager.splitting.automaton.hungerIn grammar + grammar.columnCount := by
  have sourceInside := settling.fits.source_lt
  have hunger {other : Nat} (inside : other < pager.splitting.automaton.size) :=
    settling.hunger_redirect lacks supply framed inside
      (alike_redirect supply inside (isNew ▸ Nat.ne_of_lt inside))
  rw [Automaton.hungerIn, Automaton.hungerIn, size, sum_range_succ]
  apply Nat.add_lt_add_of_lt_of_le
  · refine sum_lt_sum ?_ ⟨number, mem_range.mpr sourceInside, ?_⟩
    · intro other member
      exact (hunger (mem_range.mp member)).1
    · exact (hunger sourceInside).2 rfl
  · exact framed.hunger_le wellFormed unused _

include wellFormed unused exact sustains sorted settling lacks supply in
theorem Settling.spends
    (framed : (provided.automaton.relink number symbol target).Framed grammar) :
    Spends grammar pager.splitting.automaton
      (provided.automaton.relink number symbol target) := by
  have sourceInside := settling.fits.source_lt
  have hunger {other : Nat} (inside : other < pager.splitting.automaton.size)
      (different : other ≠ target) :=
    settling.hunger_redirect lacks supply framed inside
      (alike_redirect supply inside different)
  have mostHungry := framed.hunger_le wellFormed unused target
  have room : roomIn grammar
      (provided.automaton.relink number symbol target) =
        roomIn grammar provided.automaton :=
    roomIn_alike (Automaton.size_relink _ _ _)
      (Automaton.alike_relink number symbol target)
  have small := settling.size_target_le sorted supply
  have hungerIn := settling.hungerIn_new wellFormed unused lacks supply framed
  cases supply.provides with
  | covering =>
      have size := @Automaton.size_relink pager.splitting.automaton number
        symbol target
      have every {other : Nat}
          (inside : other < pager.splitting.automaton.size) :=
        settling.hunger_redirect lacks supply framed inside
          (Automaton.alike_relink number symbol target other)
      refine .fed size room ?_
      rw [Automaton.hungerIn, Automaton.hungerIn, size]
      refine sum_lt_sum ?_ ⟨number, mem_range.mpr sourceInside, ?_⟩
      · intro other member
        exact (every (mem_range.mp member)).1
      · exact (every sourceInside).2 rfl
  | joined _ among lacking =>
      obtain ⟨inside, matching⟩ := settling.copy_of_among among
      have size := (Automaton.size_relink number symbol target).trans
        (@Automaton.size_absorb grammar first pager.splitting.automaton target
          ((pager.splitting.automaton.state number).successorCores grammar
            true symbol))
      refine .grown size ?_ ?_
      · rw [room]
        exact settling.kept.roomIn_absorb_lt wellFormed unused exact sustains
          inside matching
          (fun _ _ => settling.kept.intact.arrives_lt sourceInside) lacking
      · rw [Automaton.hungerIn, Automaton.hungerIn, size]
        exact sum_le_of_other (mem_range.mpr inside) mostHungry
          fun other member different =>
            (hunger (mem_range.mp member) different).1
  | cloned =>
      dsimp only at room small hungerIn ⊢
      refine .copied ?_ ?_ (hungerIn rfl ?_)
      · rw [Automaton.size_relink, Splitting.size_provide]
      · rw [room]
        exact Splitting.roomIn_provide_le small
      · rw [Automaton.size_relink, Splitting.size_provide]

end Redirecting

/-- What a split does with one state of its queue.  Nothing happens when no
state waits. -/
def turn (grammar : Grammar) (first : FirstSets) (region : Region)
    (pager : PagerSplitting) : PagerSplitting :=
  match pager.queue.pop with
  | none => pager
  | some (number, queue) =>
    remakeAll grammar first region { pager with queue } number

theorem turn_of_served (served : pager.queue.waiting = []) :
    turn grammar first region pager = pager := by
  rw [turn, WorkQueue.pop_eq_none.mpr served]

/-- A run takes one turn after the other until no state waits. -/
theorem run_of_served {limit turns : Nat}
    (served : ((turn grammar first region)^[turns] pager).queue.waiting = [])
    (enough : turns < limit) :
    run grammar first region limit pager =
      .ok ((turn grammar first region)^[turns] pager).splitting := by
  induction turns generalizing pager limit with
  | zero =>
      have none : pager.queue.pop = none := WorkQueue.pop_eq_none.mpr served
      obtain ⟨limit, rfl⟩ := Nat.exists_eq_succ_of_ne_zero enough.ne'
      rw [run, none]
      rfl
  | succ turns ih =>
      obtain ⟨limit, rfl⟩ :=
        Nat.exists_eq_succ_of_ne_zero (Nat.ne_zero_of_lt enough)
      cases popped : pager.queue.pop with
      | none =>
          have still := @turn_of_served grammar first region pager
            (WorkQueue.pop_eq_none.mp popped)
          rw [run, popped, Function.iterate_fixed still]
      | some entry =>
          have next : turn grammar first region pager =
              remakeAll grammar first region
                { pager with queue := entry.2 } entry.1 := by
            rw [turn, popped]
          rw [run, popped]
          dsimp only
          rw [← next]
          exact ih served (Nat.lt_of_succ_lt_succ enough)

section Runs

variable (wellFormed : grammar.WellFormed) (unused : grammar.GoalUnused)
  (exact : first.Exact grammar) (sustains : Sustains grammar first True good)
  (sorted : Sorted grammar base)

include wellFormed unused exact sustains sorted

/-- Making a transition again keeps the states apart and does not raise the
potential. -/
theorem Settling.remake {edge : Symbol × Nat}
    (settling : Settling grammar first good base region number
      (edge :: remaining) pager)
    (apart : Settling.Apart grammar pager) :
    Settling grammar first good base region number remaining
        (remake grammar first number pager edge) ∧
      Settling.Apart grammar (remake grammar first number pager edge) ∧
      potential grammar (remake grammar first number pager edge) ≤
        potential grammar pager := by
  obtain ⟨symbol, current⟩ := edge
  obtain ⟨after, same | ⟨target, provided, lacks, supply, equal⟩⟩ :=
    settling.remake_cases wellFormed unused exact sustains
  · refine ⟨after, ?_⟩
    rw [same]
    exact ⟨apart, Nat.le_refl _⟩
  · obtain ⟨made, distinguished⟩ := settling.apart_provided wellFormed unused
      exact sustains sorted supply apart
    have still : Settling.Apart grammar
        (PagerSplitting.remake grammar first number pager
          (symbol, current)) := by
      rw [equal]
      exact ⟨made, distinguished.alike (Automaton.size_relink _ _ _)
        (Automaton.alike_relink number symbol target)⟩
    refine ⟨after, still, ?_⟩
    have framed := after.kept.intact.framed
    have bound := after.size_le sorted still
    rw [equal] at framed bound ⊢
    exact Spends.potential_le (settling.spends wellFormed unused exact sustains
      sorted lacks supply framed) bound

theorem Settling.remakeEdges
    (settling : Settling grammar first good base region number remaining
      pager)
    (apart : Settling.Apart grammar pager) :
    Settling grammar first good base region number []
        (remaining.foldl (PagerSplitting.remake grammar first number)
          pager) ∧
      Settling.Apart grammar
        (remaining.foldl (PagerSplitting.remake grammar first number)
          pager) ∧
      potential grammar
          (remaining.foldl (PagerSplitting.remake grammar first number)
            pager) ≤
        potential grammar pager := by
  induction remaining generalizing pager with
  | nil => exact ⟨settling, apart, Nat.le_refl _⟩
  | cons edge rest ih =>
      obtain ⟨after, still, notMore⟩ :=
        settling.remake wellFormed unused exact sustains sorted apart
      obtain ⟨final, finalApart, bound⟩ := ih after still
      exact ⟨final, finalApart, bound.trans notMore⟩

/-- A state is taken from the queue, and the potential falls. -/
theorem Settling.remakeAll {queue : WorkQueue Nat} {next : Nat}
    (settling : Settling grammar first good base region number [] pager)
    (apart : Settling.Apart grammar pager)
    (popped : pager.queue.pop = some (next, queue)) :
    Settling grammar first good base region next []
        (remakeAll grammar first region { pager with queue } next) ∧
      Settling.Apart grammar
        (remakeAll grammar first region { pager with queue } next) ∧
      potential grammar
          (remakeAll grammar first region { pager with queue } next) <
        potential grammar pager := by
  have waiting := WorkQueue.waiting_of_pop popped
  have less : potential grammar { pager with queue } <
      potential grammar pager := by
    simp only [potential, waiting, List.length_cons]
    omega
  unfold PagerSplitting.remakeAll
  dsimp only
  split
  · rename_i orphan
    refine ⟨settling.skip popped ?_, apart, less⟩
    rintro (isStart | known)
    · exact orphan.1 isStart
    · exact known orphan.2
  · obtain ⟨after, still, notMore⟩ :=
      (settling.take popped).remakeEdges wellFormed unused exact sustains
        sorted apart
    exact ⟨after, still, Nat.lt_of_le_of_lt notMore less⟩

/-- In a turn a state is taken from the queue and the potential falls, unless
no state waits. -/
theorem Settling.turn
    (settling : Settling grammar first good base region number [] pager)
    (apart : Settling.Apart grammar pager) :
    ∃ next,
      Settling grammar first good base region next []
        (turn grammar first region pager) ∧
      Settling.Apart grammar (turn grammar first region pager) ∧
      (pager.queue.waiting = [] ∨
        potential grammar (turn grammar first region pager) <
          potential grammar pager) := by
  rw [PagerSplitting.turn]
  split
  · rename_i none
    exact ⟨number, settling, apart, Or.inl (WorkQueue.pop_eq_none.mp none)⟩
  · rename_i next queue popped
    obtain ⟨after, still, less⟩ := settling.remakeAll wellFormed unused exact
      sustains sorted apart popped
    exact ⟨next, after, still, Or.inr less⟩

theorem Settling.turns
    (settling : Settling grammar first good base region number [] pager)
    (apart : Settling.Apart grammar pager) (turns : Nat) :
    ∃ last,
      Settling grammar first good base region last []
        ((PagerSplitting.turn grammar first region)^[turns] pager) ∧
      Settling.Apart grammar
        ((PagerSplitting.turn grammar first region)^[turns] pager) := by
  induction turns with
  | zero => exact ⟨number, settling, apart⟩
  | succ turns ih =>
      obtain ⟨last, before, still⟩ := ih
      obtain ⟨next, after, afterApart, -⟩ :=
        before.turn wellFormed unused exact sustains sorted still
      rw [Function.iterate_succ_apply']
      exact ⟨next, after, afterApart⟩

theorem Settling.exists_served
    (settling : Settling grammar first good base region number [] pager)
    (apart : Settling.Apart grammar pager) :
    ∃ turns ≤ potential grammar pager,
      ((PagerSplitting.turn grammar first region)^[turns]
        pager).queue.waiting = [] := by
  induction bound : potential grammar pager using Nat.strong_induction_on
    generalizing pager number with
  | h bound ih =>
      subst bound
      obtain ⟨next, after, still, served | less⟩ :=
        settling.turn wellFormed unused exact sustains sorted apart
      · exact ⟨0, Nat.zero_le _, served⟩
      · obtain ⟨turns, few, served⟩ := ih _ less after still rfl
        exact ⟨turns + 1, Nat.le_trans (Nat.succ_le_succ few) less, served⟩

theorem Settling.exists_run {limit : Nat}
    (settling : Settling grammar first good base region number [] pager)
    (apart : Settling.Apart grammar pager)
    (enough : potential grammar pager < limit) :
    ∃ final last, run grammar first region limit pager =
        .ok final.splitting ∧
      Settling grammar first good base region last [] final ∧
      final.queue.waiting = [] := by
  obtain ⟨turns, few, served⟩ :=
    settling.exists_served wellFormed unused exact sustains sorted apart
  obtain ⟨last, after, -⟩ :=
    settling.turns wellFormed unused exact sustains sorted apart turns
  exact ⟨_, last, run_of_served served (Nat.lt_of_le_of_lt few enough), after,
    served⟩

end Runs

end PagerSplitting

end LRTables
