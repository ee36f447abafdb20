import LRTables.Proofs.BackLinks
import LRTables.Proofs.FaithfulAutomata
import LRTables.Proofs.Regenerations
import Mathlib.Logic.Relation

/-!
# The steps of a propagation

A propagation proceeds by pushes along single transitions.  None of them can
fail, for the target of a transition has all that arrives at its core.
-/

namespace LRTables

namespace Automaton

variable {grammar : Grammar} {first : FirstSets} {old new automaton : Automaton}

/-- The lookaheads of one state are pushed along a transition. -/
inductive Push (grammar : Grammar) (first : FirstSets) :
    Automaton → Automaton → Prop where
  | along {automaton : Automaton} {source target : Nat} {symbol : Symbol}
      {after : State} :
      automaton.Sealed grammar first →
      (automaton.state target).Snug grammar →
      (automaton.state source).successor? symbol = some target →
      Propagating.deliver target (automaton.state target)
        ((automaton.state source).successorCores grammar true symbol) =
          .ok after →
      Push grammar first automaton
        (automaton.modify target fun _ => (after.close grammar first true).1)

/-- Any number of pushes. -/
abbrev Pushes (grammar : Grammar) (first : FirstSets) :
    Automaton → Automaton → Prop :=
  Relation.ReflTransGen (Push grammar first)

theorem Push.sameLinks (push : Push grammar first old new) :
    old.SameLinks new := by
  cases push with
  | @along source target symbol after sealed snug edge delivery =>
      apply SameLinks.modify
      intro inside
      exact (State.SameLinks.of_deliver delivery).close
        (sealed.framed.closed target inside)
        (sealed.framed.regular target inside).distinct

theorem Pushes.sameLinks (pushes : Pushes grammar first old new) :
    old.SameLinks new := by
  induction pushes with
  | refl => exact .refl _
  | tail _ push ih => exact ih.trans push.sameLinks

end Automaton

namespace Propagating

open Automaton

variable {grammar : Grammar} {first : FirstSets} {base : Automaton}
  {propagating : Propagating} {number : Nat}
  {remaining : List (Symbol × Nat)} {good : State → Prop}
  (wellFormed : grammar.WellFormed) (unused : grammar.GoalUnused)
  (exact : first.Exact grammar)
  (sustains : Sustains grammar first False good)

include sustains in
theorem Flowing.pushAlong_ok {edge : Symbol × Nat}
    (flowing : Flowing grammar first good base number (edge :: remaining)
      propagating)
    (found : (propagating.automaton.state number).successor? edge.1 =
      some edge.2) :
    ∃ next, pushAlong grammar first number propagating edge = .ok next ∧
      Pushes grammar first propagating.automaton next.automaton := by
  obtain ⟨symbol, target⟩ := edge
  have sealed := flowing.sealed
  have inside := sealed.framed.bounded _ _ _ found
  obtain ⟨after, delivery, result⟩ := exists_delivery sealed.framed found
  rw [result]
  split
  · exact ⟨propagating, rfl, .refl⟩
  · exact ⟨_, rfl, .single (.along sealed
      (sustains.snug _ (flowing.all target inside)) found delivery)⟩

include wellFormed unused exact sustains in
theorem Flowing.pushAll_ok {edges : List (Symbol × Nat)}
    (flowing : Flowing grammar first good base number edges propagating)
    (found : ∀ edge ∈ edges,
      (base.state number).successor? edge.1 = some edge.2) :
    ∃ next, edges.foldlM (pushAlong grammar first number) propagating =
        .ok next ∧
      Pushes grammar first propagating.automaton next.automaton := by
  induction edges generalizing propagating with
  | nil => exact ⟨propagating, rfl, .refl⟩
  | cons edge rest ih =>
      have own := found edge List.mem_cons_self
      rw [← flowing.same.successor?_eq] at own
      obtain ⟨middle, step, push⟩ := flowing.pushAlong_ok sustains own
      have flows := flowing_pushAlong wellFormed unused exact sustains flowing
        own step
      obtain ⟨next, others, pushes⟩ := ih flows fun other later =>
        found other (List.mem_cons_of_mem _ later)
      refine ⟨next, ?_, push.trans pushes⟩
      rw [List.foldlM_cons, step]
      exact others

include wellFormed unused exact sustains in
/-- A propagation is stopped by nothing but its limit. -/
theorem Flowing.run_cases (limit : Nat)
    (flowing : Flowing grammar first good base number [] propagating) :
    run grammar first limit propagating = .error .unfinished ∨
      ∃ next, run grammar first limit propagating = .ok next ∧
        Pushes grammar first propagating.automaton next.automaton := by
  induction limit generalizing number propagating with
  | zero => exact Or.inl rfl
  | succ limit ih =>
      rw [run]
      split
      · exact Or.inr ⟨propagating, rfl, .refl⟩
      · rename_i popped queue found
        have taken := flowing.take found
        have edges : ∀ edge ∈ (propagating.automaton.state popped).successors,
            (base.state popped).successor? edge.1 = some edge.2 := by
          intro edge member
          rw [← flowing.same.successor?_eq]
          exact flowing.sealed.framed.keyed.mem_successors.mp member
        obtain ⟨middle, step, pushed⟩ :=
          taken.pushAll_ok wellFormed unused exact sustains edges
        have flows :=
          flowing_pushAll wellFormed unused exact sustains taken edges step
        have bound : (do
              let next ← (propagating.automaton.state popped).successors.foldlM
                (pushAlong grammar first popped) { propagating with queue }
              run grammar first limit next) =
            run grammar first limit middle := by
          rw [step]
          rfl
        dsimp only at bound ⊢
        rw [bound]
        rcases ih flows with stopped | ⟨next, ends, pushes⟩
        · exact Or.inl stopped
        · exact Or.inr ⟨next, ends, pushed.trans pushes⟩

end Propagating

namespace Automaton

variable {grammar : Grammar} {first : FirstSets} {automaton : Automaton}
  {good : State → Prop}
  (wellFormed : grammar.WellFormed) (unused : grammar.GoalUnused)
  (exact : first.Exact grammar)
  (sustains : Sustains grammar first False good)

include wellFormed unused exact sustains in
theorem Sealed.propagate_cases (sealed : automaton.Sealed grammar first)
    (all : automaton.All good) :
    automaton.propagate grammar first = .error .unfinished ∨
      ∃ done updates, automaton.propagate grammar first = .ok (done, updates) ∧
        Pushes grammar first automaton done := by
  have start := Propagating.flowing_start (.refl automaton) sealed all
  rcases start.run_cases wellFormed unused exact sustains
      (automaton.propagationLimit grammar) with stopped | ⟨next, ends, pushes⟩
  · left
    rw [Automaton.propagate, stopped]
    rfl
  · right
    refine ⟨next.automaton, next.updates, ?_, pushes⟩
    rw [Automaton.propagate, ends]
    rfl

end Automaton

namespace Splitting

open Automaton

variable {grammar : Grammar} {first : FirstSets} {base : Automaton}
  {splitting done : Splitting}
  (wellFormed : grammar.WellFormed) (unused : grammar.GoalUnused)
  (exact : first.Exact grammar)

include wellFormed unused exact in
theorem sameLinks_resetAll (sealed : splitting.automaton.Sealed grammar first)
    (numbers : List Nat) :
    splitting.automaton.SameLinks
      (numbers.foldl (reset grammar first) splitting).automaton := by
  induction numbers generalizing splitting with
  | nil => exact .refl _
  | cons number rest ih =>
      have same : splitting.automaton.SameLinks
          (splitting.reset grammar first number).automaton :=
        .modify fun inside => .resetContexts
          (sealed.framed.closed number inside)
          (sealed.framed.regular number inside).distinct
      exact same.trans (ih (sealed.reset wellFormed unused exact number))

include wellFormed unused exact in
theorem Kept.sameLinks_prepared {good : State → Prop}
    (kept : splitting.Kept grammar first good base) :
    splitting.automaton.detachUnreachable.SameLinks
      (splitting.prepared grammar first).automaton :=
  @sameLinks_resetAll grammar first
    { splitting with automaton := splitting.automaton.detachUnreachable }
    wellFormed unused exact kept.sealed_detach splitting.families.members

include wellFormed unused exact in
/-- The contexts are computed anew by pushes, unless the limit is reached. -/
theorem Kept.regenerate_cases {good : State → Prop}
    (kept : splitting.Kept grammar first good base)
    (sustains : Sustains grammar first False good) :
    splitting.regenerate grammar first = .error .unfinished ∨
      ∃ done, splitting.regenerate grammar first = .ok done ∧
        Pushes grammar first (splitting.prepared grammar first).automaton
          done.automaton := by
  obtain ⟨sealed, -, all⟩ := kept.prepared wellFormed unused exact sustains
  rw [regenerate_eq]
  rcases sealed.propagate_cases wellFormed unused exact sustains all with
    stopped | ⟨automaton, updates, ends, pushes⟩
  · left
    rw [stopped]
    rfl
  · right
    refine ⟨{ splitting.prepared grammar first with automaton }, ?_, pushes⟩
    rw [ends]
    rfl

section Regenerated

variable {good : State → Prop} (kept : splitting.Kept grammar first good base)
  (sustains : Sustains grammar first False good)
  (result : splitting.regenerate grammar first = .ok done)

include wellFormed unused exact kept sustains result in
theorem Kept.pushes_regenerate :
    Pushes grammar first (splitting.prepared grammar first).automaton
      done.automaton := by
  rcases kept.regenerate_cases wellFormed unused exact sustains with
    stopped | ⟨final, ends, pushes⟩
  · rw [stopped] at result
    cases result
  · rw [ends] at result
    cases result
    exact pushes

include wellFormed unused exact kept sustains result in
theorem Kept.sameLinks_regenerate :
    splitting.automaton.detachUnreachable.SameLinks done.automaton :=
  (kept.sameLinks_prepared wellFormed unused exact).trans
    (kept.pushes_regenerate wellFormed unused exact sustains result).sameLinks

end Regenerated

end Splitting

end LRTables
