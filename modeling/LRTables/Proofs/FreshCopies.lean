import LRTables.Proofs.Evidence
import LRTables.Proofs.Remakes
import LRTables.Proofs.Searches

/-!
# What copies are made for

A state that takes in what arrives has less room afterwards.  A copy is made
for contexts that no state with its core has in full, and it has nothing else
at its core.  So there are only finitely many copies, however they are chosen.
-/

namespace LRTables

open Finset Collecting PagerSplitting

namespace Splitting

variable {grammar : Grammar} {first : FirstSets} {base : Automaton}
  {clean : Prop} {good : State → Prop} {splitting : Splitting}
  {made : Nat → Item → Nat → Prop} {target : Nat}
  {incoming : List Configuration}

section Absorbing

variable (wellFormed : grammar.WellFormed) (unused : grammar.GoalUnused)
  (exact : first.Exact grammar) (sustains : Sustains grammar first clean good)
  (kept : splitting.Kept grammar first good base)
  (inside : target < splitting.automaton.size)
  (matching : (splitting.automaton.state target).Matches grammar incoming)

include wellFormed unused exact sustains kept inside matching

theorem Kept.joined :
    State.Joined grammar first incoming (splitting.automaton.state target)
      ((splitting.automaton.state target).joined grammar first incoming) :=
  matching.joined wellFormed unused exact
    (kept.intact.framed.closed target inside)
    (sustains.snug _ (kept.good target inside))

theorem Kept.distinguished_absorb
    (distinguished : Distinguished grammar .pager made splitting.automaton) :
    Distinguished grammar .pager made
      (splitting.automaton.absorb grammar first target incoming).1 := by
  cases covers : (splitting.automaton.state target).covers incoming with
  | true => rwa [Automaton.absorb_of_covers covers]
  | false =>
      have joined :=
        kept.joined wellFormed unused exact sustains inside matching
      rw [Automaton.absorb_of_not_covers covers]
      exact distinguished.grow rfl joined.sameItems joined.grows

theorem Kept.roomOf_absorb_lt
    (bounded : ∀ item terminal, State.Arrives incoming item terminal →
      terminal < grammar.terminals.size)
    (lacks : (splitting.automaton.state target).covers incoming = false) :
    Closing.roomOf grammar.terminals.size
        ((splitting.automaton.absorb grammar first target
          incoming).1.state target) <
      Closing.roomOf grammar.terminals.size
        (splitting.automaton.state target) := by
  rw [Automaton.absorb_of_not_covers lacks, Automaton.state_modify_self inside]
  exact roomOf_lt_of_joined
    (kept.joined wellFormed unused exact sustains inside matching) matching
    bounded lacks

theorem Kept.roomIn_absorb_lt
    (bounded : ∀ item terminal, State.Arrives incoming item terminal →
      terminal < grammar.terminals.size)
    (lacks : (splitting.automaton.state target).covers incoming = false) :
    roomIn grammar
        (splitting.automaton.absorb grammar first target incoming).1 <
      roomIn grammar splitting.automaton := by
  have less := kept.roomOf_absorb_lt wellFormed unused exact sustains inside
    matching bounded lacks
  rw [Automaton.absorb_of_not_covers lacks,
    Automaton.state_modify_self inside] at less
  rw [Automaton.absorb_of_not_covers lacks]
  exact roomIn_modify_lt inside less

end Absorbing

/-- No lookahead is at the core of a new copy before it takes any in. -/
theorem Kept.blank_clone (wellFormed : grammar.WellFormed)
    (unused : grammar.GoalUnused)
    (kept : splitting.Kept grammar first good base) {prototype : Nat}
    (inside : prototype < splitting.automaton.size)
    (moved : .goal ∉ ((splitting.clone grammar first prototype).automaton.state
      splitting.automaton.size).coreItems) :
    ∀ item ∈ ((splitting.clone grammar first prototype).automaton.state
        splitting.automaton.size).coreItems, ∀ terminal,
      ¬ ((splitting.clone grammar first prototype).automaton.state
        splitting.automaton.size).HasContext item terminal := by
  have cloned := kept.intact.clone inside
  have fresh : splitting.automaton.size <
      (splitting.automaton.clone prototype).size := by
    rw [cloned.size]
    exact Nat.lt_succ_self _
  have regular := cloned.intact.framed.regular _ fresh
  intro item core terminal has
  rw [automaton_clone, Automaton.state_modify_self fresh] at core has moved
  rw [State.coreItems_resetContexts regular] at core moved
  have isGoal :=
    (State.eq_goal_of_resetContexts wellFormed unused regular core has).1
  exact moved (isGoal ▸ core)

section Cloning

variable {prototype source : Nat} {symbol : Symbol}
  (wellFormed : grammar.WellFormed) (unused : grammar.GoalUnused)
  (exact : first.Exact grammar) (sustains : Sustains grammar first clean good)
  (kept : splitting.Kept grammar first good base)
  (original : splitting.automaton.prototype prototype = prototype)
  (fits : splitting.automaton.Fits grammar source symbol prototype)

include wellFormed unused exact sustains kept original fits

/-- A copy has at its core what arrives and nothing else. -/
theorem Kept.provided :
    ((provide grammar first splitting prototype
        ((splitting.automaton.state source).successorCores grammar true
          symbol)).state splitting.automaton.size).coreItems =
      ((splitting.automaton.state source).successorCores grammar true
        symbol).map Configuration.item ∧
    ∀ item ∈ ((provide grammar first splitting prototype
        ((splitting.automaton.state source).successorCores grammar true
          symbol)).state splitting.automaton.size).coreItems, ∀ terminal,
      (((provide grammar first splitting prototype
          ((splitting.automaton.state source).successorCores grammar true
            symbol)).state splitting.automaton.size).HasContext item
              terminal ↔
        State.Arrives ((splitting.automaton.state source).successorCores
          grammar true symbol) item terminal) := by
  have inside := fits.target_lt
  have chosen := @Kept.chosen_clone grammar first base clean good splitting
    wellFormed unused exact sustains kept
    ((splitting.automaton.state source).successorCores grammar true symbol) _
    inside original fits.moved
  have matching := chosen.matching fits original
  have moved := (chosen.fits fits original).moved
  have blank := kept.blank_clone wellFormed unused inside moved
  have joined := chosen.kept.joined wellFormed unused exact sustains
    chosen.target_lt matching
  rw [provide]
  cases covers : ((splitting.clone grammar first prototype).automaton.state
      splitting.automaton.size).covers
        ((splitting.automaton.state source).successorCores grammar true
          symbol) with
  | true =>
      rw [Automaton.absorb_of_covers covers]
      refine ⟨matching.items, fun item core terminal => ?_⟩
      constructor
      · exact fun has => absurd has (blank item core terminal)
      · exact (State.covers_iff matching.aligned).mp covers item terminal
  | false =>
      rw [Automaton.absorb_of_not_covers covers,
        Automaton.state_modify_self chosen.target_lt]
      rw [joined.sameItems.coreItems]
      refine ⟨matching.items, fun item core terminal => ?_⟩
      rw [joined.core item terminal
        (matching.regular.mem_coreItems.mp core).2]
      exact or_iff_right (blank item core terminal)

/-- If all states with its core lack some of what arrives, a copy is told apart
by what arrives. -/
theorem Kept.distinguished_provide
    (distinguished : Distinguished grammar .pager made splitting.automaton)
    (lacks : ∀ number < splitting.automaton.size,
      (splitting.automaton.state number).coreItems =
          ((splitting.automaton.state source).successorCores grammar true
            symbol).map Configuration.item →
        (splitting.automaton.state number).covers
          ((splitting.automaton.state source).successorCores grammar true
            symbol) = false) :
    ∃ made, Distinguished grammar .pager made
      (provide grammar first splitting prototype
        ((splitting.automaton.state source).successorCores grammar true
          symbol)) := by
  obtain ⟨items, arrives⟩ := kept.provided wellFormed unused exact sustains
    original fits
  have size := @size_provide grammar first splitting prototype
    ((splitting.automaton.state source).successorCores grammar true symbol)
  have added := distinguished.add items arrives (by
    intro number inside same
    have matching := State.Matches.mk
      (kept.intact.framed.regular number inside) same
    exact exists_difference_of_lacks matching.aligned (lacks number inside same)
      (distinguished.within number inside))
  refine ⟨_, added.alike (size.trans (Automaton.size_add _).symm) ?_⟩
  intro number
  by_cases inside : number < splitting.automaton.size
  · rw [Automaton.state_add_of_lt inside]
    exact alike_provide inside
  · rcases Nat.eq_or_lt_of_not_lt inside with same | outside
    · subst same
      rw [Automaton.state_add_size]
      exact .refl _
    · rw [Automaton.state_of_size_le (by rwa [Automaton.size_add]),
        Automaton.state_of_size_le (size ▸ outside)]
      exact .refl _

end Cloning

theorem roomIn_provide_le {prototype : Nat} {incoming : List Configuration}
    (small : ((provide grammar first splitting prototype incoming).state
      splitting.automaton.size).configurations.size ≤ grammar.itemCount) :
    roomIn grammar (provide grammar first splitting prototype incoming) ≤
      roomIn grammar splitting.automaton + grammar.growthBound := by
  rw [roomIn, roomIn, size_provide, sum_range_succ]
  apply Nat.add_le_add
  · apply sum_le_sum
    intro number member
    rw [roomOf_alike (alike_provide (mem_range.mp member))]
  · exact roomOf_le_growthBound small

end Splitting

end LRTables
