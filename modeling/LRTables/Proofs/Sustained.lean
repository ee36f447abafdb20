import LRTables.Proofs.Copies

/-!
# Sustained properties

A property of states is sustained by a splitting if every change that is made
to a state keeps it: a reset, a join with what arrives from another state, and
whatever changes links and marks only.  Then it holds of all states throughout.
-/

namespace LRTables

namespace Automaton

variable {grammar : Grammar} {first : FirstSets} {automaton : Automaton}
  {good : State → Prop}

/-- All states have the property. -/
def All (good : State → Prop) (automaton : Automaton) : Prop :=
  ∀ number < automaton.size, good (automaton.state number)

theorem All.modify (all : automaton.All good) {number : Nat}
    {change : State → State}
    (changed : number < automaton.size →
      good (change (automaton.state number))) :
    (automaton.modify number change).All good := by
  intro other inside
  rw [size_modify] at inside
  by_cases same : other = number
  · subst same
    rw [state_modify_self inside]
    exact changed inside
  · rw [state_modify_ne same]
    exact all other inside

theorem All.add (all : automaton.All good) {added : State}
    (holds : good added) : (automaton.add added).All good := by
  intro number inside
  rcases lt_or_eq_of_lt_size_add inside with old | rfl
  · rw [state_add_of_lt old]
    exact all number old
  · rw [state_add_size]
    exact holds

theorem All.of_alike {old new : Automaton}
    (keeps : ∀ one other : State, one.Alike other → good one → good other)
    (all : old.All good) (size : new.size = old.size)
    (alike : ∀ number, (old.state number).Alike (new.state number)) :
    new.All good := by
  intro number inside
  rw [size] at inside
  exact keeps _ _ (alike number) (all number inside)

end Automaton

theorem Automaton.Fits.moved {grammar : Grammar} {automaton : Automaton}
    {source target : Nat} {symbol : Symbol}
    (fits : automaton.Fits grammar source symbol target) :
    .goal ∉ (automaton.state target).coreItems := by
  rw [fits.core, State.mem_successorItems]
  rintro ⟨origin, -, -, same⟩
  exact (Nat.succ_ne_zero origin.dot).symm (congrArg Item.dot same)

/-- What arrives can be joined with the state without an overlap of its
own. -/
def State.Receives (state : State) (incoming : List Configuration) : Prop :=
  weaklyCompatible (state.coreContexts.zip
    (incoming.map Configuration.context)) = true

theorem State.receives_of_blank {grammar : Grammar} {state : State}
    {incoming : List Configuration} (regular : state.Regular grammar)
    (blank : ∀ item ∈ state.coreItems, ∀ terminal,
      ¬ state.HasContext item terminal) : state.Receives incoming := by
  have bound := regular.coreCount_le
  have empty : ∀ context ∈ state.coreContexts, ∀ terminal,
      terminal ∉ context := by
    intro context member terminal inContext
    rw [coreContexts_eq bound, List.mem_map] at member
    obtain ⟨index, core, rfl⟩ := member
    have inside := Nat.lt_of_lt_of_le (List.mem_range.mp core) bound
    exact blank _ ((mem_coreItems bound).mpr
      ⟨index, List.mem_range.mp core, rfl⟩) terminal
      ⟨index, inside, rfl, inContext⟩
  rw [Receives, weaklyCompatible_iff, List.pairwise_iff_getElem]
  intro one other oneInside otherInside _
  have none {index : Nat} (inside : index < (state.coreContexts.zip
      (incoming.map Configuration.context)).length) (terminal : Nat) :
      terminal ∉ ((state.coreContexts.zip
        (incoming.map Configuration.context))[index]).1 :=
    empty _ (List.of_mem_zip (List.getElem_mem inside)).1 terminal
  rw [joinsCleanly_iff]
  exact Or.inr (Or.inr fun terminal =>
    ⟨fun both => none oneInside terminal both.1,
      fun both => none otherInside terminal both.1⟩)

/-- No lookahead of the core survives a reset, but for that of the goal. -/
theorem State.receives_resetContexts {grammar : Grammar} {first : FirstSets}
    {state : State} {incoming : List Configuration}
    (wellFormed : grammar.WellFormed) (unused : grammar.GoalUnused)
    (regular : state.Regular grammar) (moved : .goal ∉ state.coreItems) :
    (state.resetContexts grammar first).Receives incoming := by
  have same := state.cleared_sameItems
  have cleared : state.cleared.Regular grammar :=
    same.regular regular regular.originators.cleared
  have closed : (state.resetContexts grammar first).Regular grammar :=
    cleared.close wellFormed unused
  apply receives_of_blank closed
  intro item core terminal has
  obtain ⟨-, inKernel⟩ := closed.mem_coreItems.mp core
  rw [resetContexts_eq, cleared.hasContext_close wellFormed unused inKernel,
    hasContext_cleared] at has
  rw [resetContexts_eq, close_coreItems cleared.coreCount_le, same.coreItems,
    has.2.1] at core
  exact moved core

/-- Every change that splitting makes to a state keeps the property.  If the
splitting is clean, states receive what is joined with them. -/
structure Sustains (grammar : Grammar) (first : FirstSets) (clean : Prop)
    (good : State → Prop) : Prop where
  snug : ∀ state : State, good state → state.Snug grammar
  alike : ∀ old new : State, old.Alike new → good old → good new
  reset : ∀ state : State, state.Regular grammar →
    state.ItemsClosed grammar → good state →
      good (state.resetContexts grammar first)
  restored : ¬ clean → ∀ state new : State, state.Regular grammar →
    state.ItemsClosed grammar → good state →
    State.Joined grammar first state.cores (state.resetContexts grammar first)
        new →
      good new
  joined : ∀ (source target new : State) (symbol : Symbol),
    source.Regular grammar → source.ItemsClosed grammar → good source →
    good target →
    target.Matches grammar (source.successorCores grammar true symbol) →
    (clean → target.Receives (source.successorCores grammar true symbol)) →
    State.Joined grammar first (source.successorCores grammar true symbol)
        target new →
      good new

namespace Sustains

open Automaton

variable {grammar : Grammar} {first : FirstSets} {clean : Prop}
  {good : State → Prop} {automaton : Automaton}

theorem resetAt (sustains : Sustains grammar first clean good)
    (sealed : automaton.Sealed grammar first) (all : automaton.All good)
    (number : Nat) :
    (automaton.modify number fun state =>
      state.resetContexts grammar first).All good := by
  apply all.modify
  intro inside
  exact sustains.reset _ (sealed.framed.regular number inside)
    (sealed.framed.closed number inside) (all number inside)

theorem clone (sustains : Sustains grammar first clean good)
    (all : automaton.All good) {number : Nat}
    (inside : number < automaton.size) :
    (automaton.clone number).All good := by
  have added : (automaton.add (automaton.bareCopy number)).All good :=
    all.add (sustains.alike _ _ (alike_bareCopy number) (all number inside))
  have linked := linked_linkAll
    (show automaton.size < (automaton.add (automaton.bareCopy number)).size by
      rw [size_add]
      exact Nat.lt_succ_self _) (automaton.state number).successors
  rw [clone_eq]
  exact added.of_alike sustains.alike linked.size linked.alike

/-- What arrives from a good state is merged into another one. -/
theorem absorb (wellFormed : grammar.WellFormed)
    (unused : grammar.GoalUnused) (exact : first.Exact grammar)
    (sustains : Sustains grammar first clean good)
    (sealed : automaton.Sealed grammar first) (all : automaton.All good)
    {source : State} {symbol : Symbol} (regular : source.Regular grammar)
    (closed : source.ItemsClosed grammar) (holds : good source) {target : Nat}
    (core : target < automaton.size → (automaton.state target).coreItems =
      source.successorItems grammar symbol)
    (receives : clean →
      (automaton.state target).covers
          (source.successorCores grammar true symbol) = true ∨
        (automaton.state target).Receives
          (source.successorCores grammar true symbol))
    {merged : Automaton} {grown : Bool}
    (result : automaton.absorb grammar first target
      (source.successorCores grammar true symbol) = (merged, grown)) :
    merged.All good := by
  rw [Automaton.absorb, State.absorb_eq] at result
  by_cases covered : (automaton.state target).covers
      (source.successorCores grammar true symbol) = true
  · rw [if_pos covered] at result
    cases result
    exact all
  · rw [if_neg covered] at result
    cases result
    apply all.modify
    intro inside
    have matching : (automaton.state target).Matches grammar
        (source.successorCores grammar true symbol) := by
      refine ⟨sealed.framed.regular target inside, ?_⟩
      rw [State.items_successorCores]
      exact core inside
    have present := all target inside
    apply sustains.joined source _ _ symbol regular closed holds present
      matching
    · intro isClean
      exact (receives isClean).resolve_left covered
    · exact matching.joined wellFormed unused exact
        (sealed.framed.closed target inside) (sustains.snug _ present)

theorem relink (sustains : Sustains grammar first clean good)
    (all : automaton.All good) (source : Nat) (symbol : Symbol)
    (target : Nat) : (automaton.relink source symbol target).All good :=
  all.of_alike sustains.alike (automaton.size_relink source symbol target)
    (automaton.alike_relink source symbol target)

end Sustains

end LRTables
