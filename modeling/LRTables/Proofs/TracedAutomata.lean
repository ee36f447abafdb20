import LRTables.Proofs.Adequacy
import LRTables.Proofs.Traces

/-!
# Traced automata

The automaton without lookaheads, once its lanes have been traced, has the same
frame as before, and each configuration has the terminals that its item admits
after some word that leads to its state.
-/

namespace LRTables

namespace Automaton

variable {grammar : Grammar} {first : FirstSets}
  {base old new : Automaton} {tracing : Tracing}

namespace Retraced

theorem sameItems (retraced : old.Retraced new) (number : Nat) :
    (old.state number).SameItems (new.state number) := by
  have frame := retraced.frame number
  constructor
  · rw [frame]
  · rw [frame]
  · exact retraced.sizes number
  · intro index _
    exact retraced.item { state := number, index }

theorem sameFrame (retraced : old.Retraced new) : old.SameFrame new := by
  constructor
  · exact retraced.size
  · intro number _
    exact retraced.sameItems number
  · intro number _
    rw [retraced.frame number]

theorem originators (retraced : old.Retraced new) (number index : Nat) :
    ((new.state number).configuration index).originators =
      ((old.state number).configuration index).originators :=
  (retraced.relabels { state := number, index }).originators

theorem originatorsSound (retraced : old.Retraced new) {number : Nat}
    (sound : (old.state number).OriginatorsSound grammar) :
    (new.state number).OriginatorsSound grammar := by
  have same := retraced.sameItems number
  intro index inside origin member
  rw [same.size] at inside
  rw [retraced.originators] at member
  obtain ⟨originInside, isStart, scans⟩ := sound index inside origin member
  rw [same.size, same.item index inside, same.item origin originInside]
  exact ⟨originInside, isStart, scans⟩

theorem framed (retraced : old.Retraced new) (framed : old.Framed grammar) :
    new.Framed grammar := by
  apply framed.of_sameFrame retraced.sameFrame
  intro number inside
  exact retraced.originatorsSound (framed.regular number inside).originators

theorem total (retraced : old.Retraced new) (total : old.Total grammar) :
    new.Total grammar :=
  total.of_sameFrame retraced.sameFrame

theorem parented (retraced : old.Retraced new) (parented : old.Parented) :
    new.Parented := by
  apply parented.of_links retraced.size
  · intro number
    rw [retraced.frame]
  · intro number
    rw [retraced.frame]

end Retraced

theorem Lookaheadless.fresh (lookaheadless : base.Lookaheadless grammar first) :
    Tracing.Fresh base := by
  obtain ⟨collected, plain, -⟩ := lookaheadless
  constructor
  · exact plain.unmarked
  · intro place holds terminal inContext
    refine (collected.states place.state holds.1).1.blank rfl
      (base.configuration place).item terminal ?_
    exact ⟨place.index, holds.2, rfl, inContext⟩

section Traced

variable (wellFormed : grammar.WellFormed) (unused : grammar.GoalUnused)
  (exact : first.Exact grammar)

/-- The automaton whose lanes have been traced, and the one before that. -/
structure TracedFrom (grammar : Grammar) (first : FirstSets)
    (base automaton : Automaton) : Prop where
  lookaheadless : base.Lookaheadless grammar first
  retraced : base.Retraced automaton
  context : ∀ place, base.Holds place → ∀ terminal,
    terminal ∈ automaton.context place ↔
      base.Flows grammar first place terminal

include wellFormed unused in
theorem Lookaheadless.tracedFrom
    (lookaheadless : base.Lookaheadless grammar first) :
    TracedFrom grammar first base
      (base.traceLanes grammar first).automaton := by
  have laned := lookaheadless.laned wellFormed unused
  have traced : Traced grammar first base (base.traceLanes grammar first) :=
    laned.traced wellFormed unused lookaheadless.fresh
  constructor
  · exact lookaheadless
  · exact traced.retraced
  · intro place holds
    apply traced.context place holds
    rw [laned.framed.mem_reachableStates]
    exact lookaheadless.reached place.state holds.1

variable {automaton : Automaton}
  (traced : TracedFrom grammar first base automaton)

include wellFormed unused exact traced in
/-- The lookaheads of a traced automaton. -/
theorem TracedFrom.hasContext_iff {number : Nat} {item : Item}
    {terminal : Nat} (inside : number < base.size) :
    (automaton.state number).HasContext item terminal ↔
      ∃ word, base.Leads word number ∧ grammar.Admits word item terminal := by
  have laned := traced.lookaheadless.laned wellFormed unused
  constructor
  · rintro ⟨index, within, rfl, inContext⟩
    rw [traced.retraced.sizes] at within
    have holds : base.Holds { state := number, index } := ⟨inside, within⟩
    have flows := (traced.context _ holds terminal).mp inContext
    obtain ⟨word, leads, admits⟩ :=
      (laned.flows_iff wellFormed unused exact holds).mp flows
    refine ⟨word, leads, ?_⟩
    have item := traced.retraced.item { state := number, index }
    exact (congrArg (grammar.Admits word · terminal) item).mpr admits
  · rintro ⟨word, leads, admits⟩
    obtain ⟨index, holds, equal⟩ :=
      laned.exists_place wellFormed unused leads admits.valid
    have flows := (laned.flows_iff wellFormed unused exact holds).mpr
      ⟨word, leads, equal.symm ▸ admits⟩
    refine ⟨index, ?_, ?_, (traced.context _ holds terminal).mpr flows⟩
    · rw [traced.retraced.sizes]
      exact holds.2
    · exact (traced.retraced.item { state := number, index }).trans equal

include traced in
theorem TracedFrom.framed : automaton.Framed grammar :=
  traced.retraced.framed traced.lookaheadless.collected.framed

include wellFormed unused exact traced in
theorem TracedFrom.terminated : automaton.Terminated grammar := by
  intro number inside item terminal has
  rw [traced.retraced.size] at inside
  obtain ⟨word, -, admits⟩ :=
    (traced.hasContext_iff wellFormed unused exact inside).mp has
  exact admits.lt wellFormed

include wellFormed unused exact traced in
/-- Every state of a traced automaton is closed with its lookaheads. -/
theorem TracedFrom.closed {number : Nat} (inside : number < automaton.size) :
    (automaton.state number).Closed grammar first true := by
  rw [traced.retraced.size] at inside
  have laned := traced.lookaheadless.laned wellFormed unused
  have same := traced.retraced.sameItems number
  intro origin within nonterminal tail rest rule member
  rw [same.size] at within
  rw [same.item origin within] at rest
  obtain ⟨scans, isTail⟩ := Item.scanned_of_rest rest
  obtain ⟨index, indexInside, item, byOrigin, -⟩ :=
    (traced.lookaheadless.collected.states number inside).1.closed origin
      within nonterminal tail rest rule member
  refine ⟨index, ?_, ?_, ?_, ?_⟩
  · rw [same.size]
    exact indexInside
  · rw [same.item index indexInside]
    exact item
  · rw [traced.retraced.originators]
    exact byOrigin
  · intro terminal inLookaheads
    have holds : base.Holds { state := number, index } :=
      ⟨inside, indexInside⟩
    have originHolds : base.Holds { state := number, index := origin } :=
      ⟨inside, within⟩
    apply (traced.context _ holds terminal).mpr
    have ruleItem : (base.configuration { state := number, index }).item =
        { rule, dot := 0 } := item
    have notGoal :
        (base.configuration { state := number, index }).item ≠ .goal := by
      intro isGoal
      exact Grammar.rule_ne_goalRule wellFormed unused scans member
        (congrArg Item.rule (ruleItem.symm.trans isGoal))
    have isStart :
        (base.configuration { state := number, index }).item.dot = 0 := by
      rw [ruleItem]
    subst isTail
    have declared := Grammar.declares_tail wellFormed
      ((base.state number).configuration origin).item
    rcases (Closing.mem_generated exact declared).mp inLookaheads with
      begins | ⟨vanishes, inherited⟩
    · exact .generated ((generates_of_ne_goal notGoal).mpr
        ⟨isStart, origin, byOrigin,
          (exact.begins _ declared terminal).mpr begins⟩)
    · refine .along (mem_laneTargets.mpr ⟨notGoal, Or.inr
        ⟨isStart, origin, byOrigin, rfl, ?_⟩⟩) ?_
      · exact (exact.vanishes _ declared).mpr vanishes
      · exact (traced.context _ originHolds terminal).mp inherited

end Traced

end Automaton

end LRTables
