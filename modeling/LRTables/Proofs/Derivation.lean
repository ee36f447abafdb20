import LRTables.Grammar.Basic
import Mathlib.Logic.Relation

/-!
# Derivations

What the symbols of a grammar derive, step by step and rightmost first, which
terminals can begin what a list of symbols derives, and whether the list can
vanish.
-/

namespace LRTables.Grammar

variable {grammar : Grammar}

/-- Some nonterminal of a form is replaced by the right-hand side of one of its
rules. -/
inductive Produces (grammar : Grammar) : List Symbol → List Symbol → Prop where
  | replace (before after : List Symbol) {rule : Nat} :
      rule < grammar.rules.size →
      Produces grammar
        (before ++ .nonterminal (grammar.left rule) :: after)
        (before ++ grammar.right rule ++ after)

/-- A form becomes another one in zero or more steps. -/
def Derives (grammar : Grammar) : List Symbol → List Symbol → Prop :=
  Relation.ReflTransGen grammar.Produces

/-- The symbols derive the empty string. -/
def Vanishes (grammar : Grammar) (symbols : List Symbol) : Prop :=
  grammar.Derives symbols []

/-- The symbols derive a form that begins with the terminal. -/
def Begins (grammar : Grammar) (symbols : List Symbol) (terminal : Nat) :
    Prop :=
  ∃ rest, grammar.Derives symbols (.terminal terminal :: rest)

/-- The rules of a derivation that always replaces the last nonterminal, in the
order in which they are applied. -/
inductive Rightmost (grammar : Grammar) :
    List Nat → List Symbol → List Symbol → Prop where
  | done (form : List Symbol) : Rightmost grammar [] form form
  | replace (before : List Symbol) (tokens : List Nat) {rule : Nat}
      {rules : List Nat} {form : List Symbol} :
      rule < grammar.rules.size →
      Rightmost grammar rules
        (before ++ grammar.right rule ++ tokens.map .terminal) form →
      Rightmost grammar (rule :: rules)
        (before ++ .nonterminal (grammar.left rule) :: tokens.map .terminal)
        form

/-- Derivation symbol by symbol: each symbol is kept, or replaced and expanded
further. -/
inductive Expands (grammar : Grammar) : List Symbol → List Symbol → Prop where
  | nil : Expands grammar [] []
  | keep (symbol : Symbol) {rest form : List Symbol} :
      Expands grammar rest form →
      Expands grammar (symbol :: rest) (symbol :: form)
  | replace {rule : Nat} {rest front back : List Symbol} :
      rule < grammar.rules.size →
      Expands grammar (grammar.right rule) front →
      Expands grammar rest back →
      Expands grammar (.nonterminal (grammar.left rule) :: rest)
        (front ++ back)

theorem mem_rulesOf {nonterminal rule : Nat} :
    rule ∈ grammar.rulesOf nonterminal ↔
      rule < grammar.rules.size ∧ grammar.left rule = nonterminal := by
  simp [rulesOf]

namespace Derives

theorem refl (form : List Symbol) : grammar.Derives form form :=
  Relation.ReflTransGen.refl

theorem trans {first second third : List Symbol}
    (earlier : grammar.Derives first second)
    (later : grammar.Derives second third) : grammar.Derives first third :=
  Relation.ReflTransGen.trans earlier later

theorem single {rule : Nat} (valid : rule < grammar.rules.size) :
    grammar.Derives [.nonterminal (grammar.left rule)]
      (grammar.right rule) := by
  have step : grammar.Produces _ _ := .replace [] [] valid
  rw [List.nil_append, List.append_nil, List.nil_append] at step
  exact Relation.ReflTransGen.single step

theorem within {first second : List Symbol}
    (derives : grammar.Derives first second) (before after : List Symbol) :
    grammar.Derives (before ++ first ++ after)
      (before ++ second ++ after) := by
  induction derives with
  | refl => exact refl _
  | tail _ step ih =>
      refine ih.trans (Relation.ReflTransGen.single ?_)
      cases step with
      | replace front back valid =>
          have step := Produces.replace (before ++ front) (back ++ after) valid
          simpa [List.append_assoc] using step

theorem append {first second third fourth : List Symbol}
    (left : grammar.Derives first second)
    (right : grammar.Derives third fourth) :
    grammar.Derives (first ++ third) (second ++ fourth) := by
  have onLeft := left.within [] third
  have onRight := right.within second []
  simp only [List.nil_append] at onLeft
  simp only [List.append_nil] at onRight
  exact onLeft.trans onRight

end Derives

namespace Expands

theorem refl (form : List Symbol) : grammar.Expands form form := by
  induction form with
  | nil => exact .nil
  | cons symbol rest ih => exact .keep symbol ih

theorem append {first second third fourth : List Symbol}
    (left : grammar.Expands first second)
    (right : grammar.Expands third fourth) :
    grammar.Expands (first ++ third) (second ++ fourth) := by
  induction left with
  | nil => exact right
  | keep symbol _ ih => exact .keep symbol ih
  | replace valid front _ _ ih =>
      rw [List.cons_append, List.append_assoc]
      exact .replace valid front ih

theorem of_append {left right form : List Symbol}
    (expands : grammar.Expands (left ++ right) form) :
    ∃ front back, form = front ++ back ∧ grammar.Expands left front ∧
      grammar.Expands right back := by
  induction left generalizing form with
  | nil => exact ⟨[], form, rfl, .nil, expands⟩
  | cons symbol rest ih =>
      rw [List.cons_append] at expands
      cases expands with
      | keep _ tail =>
          obtain ⟨front, back, rfl, restFront, rightBack⟩ := ih tail
          exact ⟨symbol :: front, back, rfl, .keep symbol restFront, rightBack⟩
      | @replace rule _ first _ valid head tail =>
          obtain ⟨front, back, rfl, restFront, rightBack⟩ := ih tail
          exact ⟨first ++ front, back, by rw [List.append_assoc],
            .replace valid head restFront, rightBack⟩

theorem derives {first second : List Symbol}
    (expands : grammar.Expands first second) :
    grammar.Derives first second := by
  induction expands with
  | nil => exact .refl []
  | keep symbol _ ih => exact (Derives.refl [symbol]).append ih
  | replace valid _ _ headIh tailIh =>
      exact ((Derives.single valid).trans headIh).append tailIh

theorem of_produces {first second third : List Symbol}
    (step : grammar.Produces first second)
    (expands : grammar.Expands second third) :
    grammar.Expands first third := by
  cases step with
  | replace before after valid =>
      obtain ⟨middle, back, rfl, onMiddle, onBack⟩ := of_append expands
      obtain ⟨front, inner, rfl, onFront, onInner⟩ := of_append onMiddle
      rw [List.append_assoc]
      exact onFront.append (.replace valid onInner onBack)

end Expands

theorem expands_iff_derives {first second : List Symbol} :
    grammar.Expands first second ↔ grammar.Derives first second := by
  constructor
  · exact Expands.derives
  · intro derives
    induction derives using Relation.ReflTransGen.head_induction_on with
    | refl => exact .refl second
    | head step _ ih => exact Expands.of_produces step ih

theorem Vanishes.nil : grammar.Vanishes [] :=
  Derives.refl []

theorem Begins.of_derives {first second : List Symbol} {terminal : Nat}
    (derives : grammar.Derives first second)
    (begins : grammar.Begins second terminal) :
    grammar.Begins first terminal := by
  obtain ⟨rest, later⟩ := begins
  exact ⟨rest, derives.trans later⟩

theorem vanishes_append {left right : List Symbol} :
    grammar.Vanishes (left ++ right) ↔
      grammar.Vanishes left ∧ grammar.Vanishes right := by
  simp only [Vanishes, ← expands_iff_derives]
  constructor
  · intro expands
    obtain ⟨front, back, equal, onLeft, onRight⟩ := expands.of_append
    obtain ⟨rfl, rfl⟩ := List.append_eq_nil_iff.mp equal.symm
    exact ⟨onLeft, onRight⟩
  · rintro ⟨onLeft, onRight⟩
    exact onLeft.append onRight

theorem not_vanishes_terminal {terminal : Nat} {rest : List Symbol} :
    ¬ grammar.Vanishes (.terminal terminal :: rest) := by
  intro vanishes
  cases expands_iff_derives.mpr vanishes

theorem vanishes_nonterminal {nonterminal : Nat} :
    grammar.Vanishes [.nonterminal nonterminal] ↔
      ∃ rule ∈ grammar.rulesOf nonterminal,
        grammar.Vanishes (grammar.right rule) := by
  constructor
  · intro vanishes
    have expands := expands_iff_derives.mpr vanishes
    generalize target : ([] : List Symbol) = form at expands
    cases expands with
    | keep => cases target
    | @replace rule _ front back valid head tail =>
        obtain ⟨rfl, rfl⟩ := List.append_eq_nil_iff.mp target.symm
        exact ⟨rule, mem_rulesOf.mpr ⟨valid, rfl⟩, head.derives⟩
  · rintro ⟨rule, member, vanishes⟩
    obtain ⟨valid, rfl⟩ := mem_rulesOf.mp member
    exact (Derives.single valid).trans vanishes

theorem not_begins_nil {terminal : Nat} : ¬ grammar.Begins [] terminal := by
  rintro ⟨rest, derives⟩
  cases expands_iff_derives.mpr derives

theorem begins_terminal {terminal other : Nat} {rest : List Symbol} :
    grammar.Begins (.terminal other :: rest) terminal ↔ terminal = other := by
  constructor
  · rintro ⟨form, derives⟩
    cases expands_iff_derives.mpr derives
    rfl
  · rintro rfl
    exact ⟨rest, Derives.refl _⟩

theorem begins_append {left right : List Symbol} {terminal : Nat} :
    grammar.Begins (left ++ right) terminal ↔
      grammar.Begins left terminal ∨
        grammar.Vanishes left ∧ grammar.Begins right terminal := by
  constructor
  · rintro ⟨rest, derives⟩
    obtain ⟨front, back, equal, onLeft, onRight⟩ :=
      (expands_iff_derives.mpr derives).of_append
    cases front with
    | nil =>
        rw [List.nil_append] at equal
        subst equal
        exact Or.inr ⟨onLeft.derives, rest, onRight.derives⟩
    | cons symbol front =>
        rw [List.cons_append, List.cons.injEq] at equal
        obtain ⟨rfl, -⟩ := equal
        exact Or.inl ⟨front, onLeft.derives⟩
  · rintro (⟨rest, derives⟩ | ⟨vanishes, rest, derives⟩)
    · exact ⟨rest ++ right, derives.append (Derives.refl right)⟩
    · exact ⟨rest, vanishes.append derives⟩

theorem begins_nonterminal {nonterminal terminal : Nat} :
    grammar.Begins [.nonterminal nonterminal] terminal ↔
      ∃ rule ∈ grammar.rulesOf nonterminal,
        grammar.Begins (grammar.right rule) terminal := by
  constructor
  · rintro ⟨rest, derives⟩
    have expands := expands_iff_derives.mpr derives
    generalize target : Symbol.terminal terminal :: rest = form at expands
    cases expands with
    | keep => cases target
    | @replace rule _ front back valid head tail =>
        cases tail
        rw [List.append_nil] at target
        subst target
        exact ⟨rule, mem_rulesOf.mpr ⟨valid, rfl⟩, rest, head.derives⟩
  · rintro ⟨rule, member, begins⟩
    obtain ⟨valid, rfl⟩ := mem_rulesOf.mp member
    exact begins.of_derives (Derives.single valid)

namespace Rightmost

theorem derives {rules : List Nat} {first second : List Symbol}
    (rightmost : grammar.Rightmost rules first second) :
    grammar.Derives first second := by
  induction rightmost with
  | done form => exact .refl form
  | replace before tokens valid _ ih =>
      exact (Relation.ReflTransGen.single (.replace before _ valid)).trans ih

theorem trans {earlier later : List Nat} {first second third : List Symbol}
    (start : grammar.Rightmost earlier first second)
    (finish : grammar.Rightmost later second third) :
    grammar.Rightmost (earlier ++ later) first third := by
  induction start with
  | done => exact finish
  | replace before tokens valid _ ih =>
      exact .replace before tokens valid (ih finish)

theorem prepend {rules : List Nat} {first second : List Symbol}
    (rightmost : grammar.Rightmost rules first second)
    (front : List Symbol) :
    grammar.Rightmost rules (front ++ first) (front ++ second) := by
  induction rightmost with
  | done => exact .done _
  | replace before tokens valid _ ih =>
      rw [← List.append_assoc]
      refine .replace (front ++ before) tokens valid ?_
      simpa only [List.append_assoc] using ih

theorem appendTokens {rules : List Nat} {first second : List Symbol}
    (rightmost : grammar.Rightmost rules first second) (more : List Nat) :
    grammar.Rightmost rules (first ++ more.map .terminal)
      (second ++ more.map .terminal) := by
  induction rightmost with
  | done => exact .done _
  | replace before tokens valid _ ih =>
      rw [List.append_assoc, List.cons_append, ← List.map_append]
      refine .replace before (tokens ++ more) valid ?_
      simpa only [List.map_append, List.append_assoc] using ih

/-- Any derivation of a token string can be rearranged. -/
theorem of_expands {form target : List Symbol}
    (expands : grammar.Expands form target) {tokens : List Nat}
    (plain : target = tokens.map .terminal) :
    ∃ rules, grammar.Rightmost rules form target := by
  induction expands generalizing tokens with
  | nil => exact ⟨[], .done []⟩
  | keep symbol _ ih =>
      cases tokens with
      | nil => cases plain
      | cons token tokens =>
          rw [List.map_cons, List.cons.injEq] at plain
          obtain ⟨rules, rightmost⟩ := ih plain.2
          exact ⟨rules, rightmost.prepend [symbol]⟩
  | @replace rule rest front back valid _ _ headIh tailIh =>
      obtain ⟨first, second, rfl, frontPlain, backPlain⟩ :=
        List.map_eq_append_iff.mp plain.symm
      obtain ⟨headRules, head⟩ := headIh frontPlain.symm
      obtain ⟨tailRules, tail⟩ := tailIh backPlain.symm
      refine ⟨tailRules ++ rule :: headRules,
        (tail.prepend [.nonterminal (grammar.left rule)]).trans ?_⟩
      subst backPlain
      exact .replace [] second valid (head.appendTokens second)

theorem exists_of_derives {form : List Symbol} {tokens : List Nat}
    (derives : grammar.Derives form (tokens.map .terminal)) :
    ∃ rules, grammar.Rightmost rules form (tokens.map .terminal) :=
  of_expands (expands_iff_derives.mpr derives) rfl

end Rightmost

end LRTables.Grammar
