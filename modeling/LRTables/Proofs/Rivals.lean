import LRTables.Proofs.Evidence
import LRTables.Proofs.Overlaps

/-!
# Rivals

Two items are rivals if from both of them the same symbols lead to the end of
different rules, and what a lookahead has to pass on the way vanishes.  Only a
lookahead that rivals share can come to be one of a reduce/reduce conflict.
-/

namespace LRTables

namespace Grammar

/-- What the first two items have for lookaheads, two finished rules will have
after some more symbols. -/
inductive Rivals (grammar : Grammar) : Item → Item → Prop where
  | finals {here there : Item} :
      here.isFinal grammar = true → there.isFinal grammar = true →
      here.rule ≠ there.rule → Rivals grammar here there
  | scanned {here there : Item} {symbol : Symbol} :
      here.scanned grammar = some symbol →
      there.scanned grammar = some symbol →
      Rivals grammar here.advance there.advance → Rivals grammar here there
  | left {here inner there : Item} :
      grammar.Hands here inner → Rivals grammar inner there →
      Rivals grammar here there
  | right {here there inner : Item} :
      grammar.Hands there inner → Rivals grammar here inner →
      Rivals grammar here there

variable {grammar : Grammar}

theorem hereditary_rivals (grammar : Grammar) :
    grammar.Hereditary grammar.Rivals :=
  ⟨fun _ _ _ => .scanned, fun _ _ _ => .left, fun _ _ _ => .right⟩

/-- If no word calls for two competing actions, rivals are never admitted with
the same lookahead. -/
theorem Deterministic.not_rivals (deterministic : grammar.Deterministic)
    {word : List Symbol} {here there : Item} {terminal : Nat}
    (left : grammar.Admits word here terminal)
    (right : grammar.Admits word there terminal) :
    ¬ grammar.Rivals here there := by
  intro rivals
  induction rivals generalizing word with
  | finals final otherFinal different =>
      exact different (congrArg Item.rule
        (deterministic.reduceReduce word _ _ terminal left right final
          otherFinal))
  | scanned scans otherScans _ ih =>
      exact ih (.advance left scans) (.advance right otherScans)
  | left hands _ ih => exact ih (left.handed (.single hands)) right
  | right hands _ ih => exact ih left (right.handed (.single hands))

end Grammar

variable {grammar : Grammar} {first : FirstSets} {state : State}
  {matters : Item → Item → Prop}

/-- No overlap survives a reset. -/
theorem State.grounded_resetContexts (wellFormed : grammar.WellFormed)
    (unused : grammar.GoalUnused) (exact : first.Exact grammar)
    (hereditary : grammar.Hereditary matters) (regular : state.Regular grammar)
    (exists_word : ∃ word, state.HasKernel grammar word) :
    (state.resetContexts grammar first).Grounded grammar matters := by
  have evident : (state.resetContexts grammar first).Evident grammar :=
    evident_resetContexts wellFormed unused exact regular exists_word
  apply evident.snug.grounded hereditary evident.attested
  intro here member there otherMember different _ terminal hasHere hasThere
  rw [coreItems_resetContexts regular] at member otherMember
  have isGoal :=
    (eq_goal_of_resetContexts wellFormed unused regular member hasHere).1
  have otherGoal :=
    (eq_goal_of_resetContexts wellFormed unused regular otherMember hasThere).1
  exact absurd (isGoal.trans otherGoal.symm) different

/-- A splitting by weak compatibility keeps overlaps grounded. -/
theorem sustains_grounded (wellFormed : grammar.WellFormed)
    (unused : grammar.GoalUnused) (exact : first.Exact grammar)
    (hereditary : grammar.Hereditary matters) :
    Sustains grammar first True fun state =>
      state.Evident grammar ∧ state.Grounded grammar matters := by
  have evident : Sustains grammar first True (State.Evident grammar) :=
    sustains_evident wellFormed unused exact True
  constructor
  · exact fun state both => both.1.snug
  · rintro old new alike ⟨isEvident, grounded⟩
    exact ⟨evident.alike old new alike isEvident, grounded.alike alike⟩
  · rintro state regular closed ⟨isEvident, -⟩
    exact ⟨evident.reset state regular closed isEvident,
      state.grounded_resetContexts wellFormed unused exact hereditary regular
        isEvident.attested.exists_word⟩
  · exact fun unclean => absurd trivial unclean
  · rintro source target new symbol regular closed
      ⟨sourceEvident, sourceGrounded⟩ ⟨isEvident, grounded⟩ matching receives
      joined
    have newEvident := evident.joined source target new symbol regular closed
      sourceEvident isEvident matching receives joined
    exact ⟨newEvident, joined.grounded wellFormed unused hereditary matching
      (receives trivial) regular closed sourceGrounded newEvident.attested
      grounded⟩

end LRTables
