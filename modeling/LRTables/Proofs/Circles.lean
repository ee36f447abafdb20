import LRTables.Proofs.Ambiguities
import Mathlib.Data.Set.Insert

/-!
# Circles

Rules of a state that are at the front of one another, while all else vanishes,
form a circle.  A lane may leave the state of a circle and come back, but only
if the state is on a cycle of transitions.  A rule that begins with its own
nonterminal is a circle of its own.
-/

namespace LRTables

namespace Automaton

variable {grammar : Grammar} {first : FirstSets} {base : Automaton}
  {place next source target : Place} {circle : Set Place}

/-- A lane that undoes a transition leads from one place to the other. -/
def Strays (grammar : Grammar) (first : FirstSets) (base : Automaton)
    (place next : Place) : Prop :=
  ∃ outer inner, base.LaneLeads grammar first place outer ∧
    0 < base.dotAt outer ∧ inner ∈ base.laneTargets grammar first outer ∧
    base.LaneLeads grammar first inner next

theorem Strays.extend (strays : base.Strays grammar first place next)
    (before : base.LaneLeads grammar first source place)
    (after : base.LaneLeads grammar first next target) :
    base.Strays grammar first source target := by
  obtain ⟨outer, inner, leaves, moved, isTarget, returns⟩ := strays
  exact ⟨outer, inner, before.trans leaves, moved, isTarget,
    returns.trans after⟩

/-- Along a path the count stays the same, unless the path strays. -/
theorem strays_of_isChain {count : Place → Nat} {path : List Place}
    (chain : (source :: path).IsChain (base.StepsTo grammar first count))
    (member : target ∈ source :: path) :
    base.LaneLeads grammar first target source ∧
      (count target = count source ∨
        base.Strays grammar first target source) := by
  induction path generalizing source with
  | nil =>
      rw [List.mem_singleton.mp member]
      exact ⟨.refl, Or.inl rfl⟩
  | cons next rest ih =>
      obtain ⟨step, later⟩ := List.isChain_cons_cons.mp chain
      rcases List.mem_cons.mp member with rfl | below
      · exact ⟨.refl, Or.inl rfl⟩
      · obtain ⟨leads, same | strays⟩ := ih later below
        · refine ⟨leads.tail step.target, ?_⟩
          by_cases moved : 0 < base.dotAt next
          · exact Or.inr ⟨next, source, leads, moved, step.target, .refl⟩
          · have grows := step.count
            rw [if_neg moved, Nat.add_zero] at grows
            exact Or.inl (same.trans grows.symm)
        · exact ⟨leads.tail step.target,
            Or.inr (strays.extend .refl (.single step.target))⟩

/-- A transition leads from one state to the other. -/
def Precedes (base : Automaton) (source target : Nat) : Prop :=
  ∃ symbol, (base.state source).successor? symbol = some target

section Laned

variable (laned : base.Laned grammar)

include laned

theorem Laned.precedes_of_laneLeads (holds : base.Holds place)
    (leads : base.LaneLeads grammar first place next) :
    base.Holds next ∧
      Relation.ReflTransGen base.Precedes next.state place.state := by
  induction leads with
  | refl => exact ⟨holds, .refl⟩
  | @tail middle next _ isTarget ih =>
      obtain ⟨middleHolds, path⟩ := ih
      refine ⟨laned.holds_target middleHolds isTarget, ?_⟩
      obtain ⟨-, ⟨-, isTransitor⟩ | ⟨-, index, -, rfl, -⟩⟩ :=
        mem_laneTargets.mp isTarget
      · obtain ⟨-, symbol, edge, -⟩ :=
          (laned.wired middle middleHolds next).mp isTransitor
        exact .head ⟨symbol, edge⟩ path
      · exact path

theorem Laned.precedes_of_strays (holds : base.Holds place)
    (strays : base.Strays grammar first place next) :
    Relation.TransGen base.Precedes next.state place.state := by
  obtain ⟨outer, inner, leaves, moved, isTarget, returns⟩ := strays
  obtain ⟨outerHolds, before⟩ := laned.precedes_of_laneLeads holds leaves
  obtain ⟨-, after⟩ := laned.precedes_of_laneLeads
    (laned.holds_target outerHolds isTarget) returns
  obtain ⟨-, ⟨-, isTransitor⟩ | ⟨isStart, -⟩⟩ := mem_laneTargets.mp isTarget
  · obtain ⟨-, symbol, edge, -⟩ :=
      (laned.wired outer outerHolds inner).mp isTransitor
    exact .trans_right after (.head' ⟨symbol, edge⟩ before)
  · rw [dotAt, isStart] at moved
    exact absurd moved (Nat.lt_irrefl 0)

end Laned

/-- Rules are begun at both places, and a lane leads from one to the other. -/
structure Turns (grammar : Grammar) (first : FirstSets) (base : Automaton)
    (place next : Place) : Prop where
  holds : base.Holds place
  isStart : base.dotAt place = 0
  atStart : base.dotAt next = 0
  target : next ∈ base.laneTargets grammar first place

theorem laneLeads_of_turns
    (turns : Relation.TransGen (base.Turns grammar first) place next) :
    base.LaneLeads grammar first place next :=
  Relation.ReflTransGen.mono (fun _ _ turn => Turns.target turn) _ _
    turns.to_reflTransGen

/-- Places that turn to one another, and to which no lane leads back that has
left the state before. -/
structure Circle (grammar : Grammar) (first : FirstSets) (base : Automaton)
    (circle : Set Place) : Prop where
  turns : ∀ place ∈ circle, ∀ next ∈ circle,
    Relation.TransGen
      (fun place next => next ∈ circle ∧ base.Turns grammar first place next)
      place next
  stays : ∀ place ∈ circle, ∀ next ∈ circle,
    base.Turns grammar first place next →
      place = next ∨ ¬ base.Strays grammar first next place

theorem Circle.holds (isCircle : base.Circle grammar first circle)
    (inside : place ∈ circle) : base.Holds place := by
  obtain ⟨next, ⟨-, turn⟩, -⟩ := Relation.TransGen.head'_iff.mp
    (isCircle.turns place inside place inside)
  exact turn.holds

theorem Circle.not_visited (isCircle : base.Circle grammar first circle)
    (inside : place ∈ circle) {visited : Place → Prop}
    (turns : ∀ source ∈ circle, visited source → ∀ target ∈ circle,
      base.Turns grammar first source target →
        visited target ∧ target ≠ place) : ¬ visited place := by
  intro known
  have around {target : Place}
      (path : Relation.TransGen (fun source target => target ∈ circle ∧
        base.Turns grammar first source target) place target) :
      target ∈ circle ∧ visited target ∧ target ≠ place := by
    induction path with
    | single turn =>
        exact ⟨turn.1, turns place inside known _ turn.1 turn.2⟩
    | tail _ turn ih =>
        exact ⟨turn.1, turns _ ih.1 ih.2.1 _ turn.1 turn.2⟩
  exact (around (isCircle.turns place inside place inside)).2.2 rfl

theorem circle_singleton (turn : base.Turns grammar first place place) :
    base.Circle grammar first {place} := by
  constructor
  · intro source isPlace target isTarget
    rw [Set.mem_singleton_iff] at isPlace isTarget
    subst isPlace isTarget
    exact .single ⟨rfl, turn⟩
  · intro source isPlace target isTarget _
    exact Or.inl (isPlace.trans isTarget.symm)

/-- The places that turn to a place and to which it turns. -/
def circleOf (grammar : Grammar) (first : FirstSets) (base : Automaton)
    (place : Place) : Set Place :=
  { other | Relation.TransGen (base.Turns grammar first) place other ∧
      Relation.TransGen (base.Turns grammar first) other place }

theorem circle_circleOf
    (noStray : ¬ base.Strays grammar first place place) :
    base.Circle grammar first (base.circleOf grammar first place) := by
  constructor
  · rintro source ⟨fromPlace, toPlace⟩ target ⟨isReached, reaches⟩
    have turns := toPlace.trans isReached
    induction turns using Relation.TransGen.head_induction_on with
    | single turn => exact .single ⟨⟨isReached, reaches⟩, turn⟩
    | head turn turns ih =>
        have later := turns.trans reaches
        exact .head ⟨⟨fromPlace.tail turn, later⟩, turn⟩
          (ih (fromPlace.tail turn) later)
  · rintro source ⟨-, toPlace⟩ target ⟨isReached, -⟩ -
    exact Or.inr fun strays => noStray
      (strays.extend (laneLeads_of_turns isReached) (laneLeads_of_turns toPlace))

/-- A rule that begins with its own nonterminal and lets the rest vanish. -/
theorem Laned.turns_self (wellFormed : grammar.WellFormed)
    (unused : grammar.GoalUnused) (exact : first.Exact grammar)
    (laned : base.Laned grammar) (holds : base.Holds place) {rule : Nat}
    {rest : List Symbol}
    (item : (base.configuration place).item = { rule, dot := 0 })
    (right : grammar.right rule = .nonterminal (grammar.left rule) :: rest)
    (vanishes : grammar.Vanishes rest) :
    base.Turns grammar first place place := by
  obtain ⟨word, leads⟩ := laned.reached place.state holds.1
  have valid := laned.valid wellFormed unused holds leads
  have inside : rule < grammar.rules.size := by
    have bound := valid.rule_lt wellFormed
    rwa [item] at bound
  have isRest : ({ rule, dot := 0 } : Item).rest grammar =
      .nonterminal (grammar.left rule) :: rest := right
  obtain ⟨scanned, tail⟩ := Item.scanned_of_rest isRest
  have isStart : base.dotAt place = 0 := by
    rw [dotAt, item]
  refine ⟨holds, isStart, isStart, ?_⟩
  apply laned.mem_laneTargets_of_hands wellFormed unused exact holds holds
  rw [item]
  exact .intro scanned (Grammar.mem_rulesOf.mpr ⟨inside, rfl⟩)
    (tail.symm ▸ vanishes)

end Automaton

end LRTables
