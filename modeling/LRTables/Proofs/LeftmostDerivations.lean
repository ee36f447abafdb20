import LRTables.Proofs.Derivation

/-!
# Leftmost derivations

Whatever derives a token string derives it by expanding the first nonterminal
each time.  The forms on the way may grow far beyond the token string, since
symbols can vanish; `LeftmostWithin` bounds them.
-/

namespace LRTables.Grammar

variable {grammar : Grammar}

/-- The first nonterminal of a form is replaced by the right-hand side of one
of its rules. -/
inductive ProducesFirst (grammar : Grammar) :
    List Symbol → List Symbol → Prop where
  | replace (tokens : List Nat) (after : List Symbol) {rule : Nat} :
      rule < grammar.rules.size →
      ProducesFirst grammar
        (tokens.map .terminal ++ .nonterminal (grammar.left rule) :: after)
        (tokens.map .terminal ++ grammar.right rule ++ after)

/-- A form becomes another one by expanding first nonterminals. -/
def Leftmost (grammar : Grammar) : List Symbol → List Symbol → Prop :=
  Relation.ReflTransGen grammar.ProducesFirst

/-- A leftmost derivation that makes no form of more than `limit` symbols. -/
def LeftmostWithin (grammar : Grammar) (limit : Nat) :
    List Symbol → List Symbol → Prop :=
  Relation.ReflTransGen fun form next =>
    grammar.ProducesFirst form next ∧ next.length ≤ limit

theorem ProducesFirst.produces {form next : List Symbol}
    (step : grammar.ProducesFirst form next) : grammar.Produces form next := by
  cases step with
  | replace tokens after valid => exact .replace _ after valid

theorem ProducesFirst.appendForm {form next : List Symbol}
    (step : grammar.ProducesFirst form next) (more : List Symbol) :
    grammar.ProducesFirst (form ++ more) (next ++ more) := by
  cases step with
  | replace tokens after valid =>
      have longer := ProducesFirst.replace tokens (after ++ more) valid
      simpa [List.append_assoc] using longer

theorem ProducesFirst.prependTokens {form next : List Symbol}
    (step : grammar.ProducesFirst form next) (front : List Nat) :
    grammar.ProducesFirst (front.map .terminal ++ form)
      (front.map .terminal ++ next) := by
  cases step with
  | replace tokens after valid =>
      have longer := ProducesFirst.replace (front ++ tokens) after valid
      simpa [List.append_assoc] using longer

namespace Leftmost

theorem derives {form next : List Symbol}
    (leftmost : grammar.Leftmost form next) : grammar.Derives form next := by
  induction leftmost with
  | refl => exact .refl _
  | tail _ step ih => exact ih.tail step.produces

theorem appendForm {form next : List Symbol}
    (leftmost : grammar.Leftmost form next) (more : List Symbol) :
    grammar.Leftmost (form ++ more) (next ++ more) := by
  induction leftmost with
  | refl => exact .refl
  | tail _ step ih => exact ih.tail (step.appendForm more)

theorem prependTokens {form next : List Symbol}
    (leftmost : grammar.Leftmost form next) (front : List Nat) :
    grammar.Leftmost (front.map .terminal ++ form)
      (front.map .terminal ++ next) := by
  induction leftmost with
  | refl => exact .refl
  | tail _ step ih => exact ih.tail (step.prependTokens front)

/-- Any derivation of a token string can be rearranged: the first symbol is
expanded to the end before the others. -/
theorem of_expands {form target : List Symbol}
    (expands : grammar.Expands form target) {tokens : List Nat}
    (plain : target = tokens.map .terminal) :
    grammar.Leftmost form target := by
  induction expands generalizing tokens with
  | nil => exact .refl
  | keep symbol _ ih =>
      cases tokens with
      | nil => cases plain
      | cons token tokens =>
          simp only [List.map_cons, List.cons.injEq] at plain
          obtain ⟨rfl, rest⟩ := plain
          exact (ih rest).prependTokens [token]
  | @replace rule rest front back valid _ _ headIh tailIh =>
      obtain ⟨first, second, rfl, frontPlain, backPlain⟩ :=
        List.map_eq_append_iff.mp plain.symm
      have head := (headIh frontPlain.symm).appendForm rest
      have tail := (tailIh backPlain.symm).prependTokens first
      rw [frontPlain] at tail
      have start : grammar.ProducesFirst
          (.nonterminal (grammar.left rule) :: rest)
          (grammar.right rule ++ rest) :=
        .replace [] rest valid
      exact .head start (head.trans tail)

theorem of_derives {form : List Symbol} {tokens : List Nat}
    (derives : grammar.Derives form (tokens.map .terminal)) :
    grammar.Leftmost form (tokens.map .terminal) :=
  of_expands (expands_iff_derives.mpr derives) rfl

end Leftmost

namespace LeftmostWithin

variable {limit : Nat} {form next : List Symbol}

theorem leftmost (within : grammar.LeftmostWithin limit form next) :
    grammar.Leftmost form next := by
  induction within with
  | refl => exact .refl
  | tail _ step ih => exact ih.tail step.1

theorem of_leftmost (leftmost : grammar.Leftmost form next)
    (short : ∀ other, grammar.Derives other next → other.length ≤ limit) :
    grammar.LeftmostWithin limit form next := by
  induction leftmost using Relation.ReflTransGen.head_induction_on with
  | refl => exact .refl
  | head step rest ih =>
      have bounded := short _ (Leftmost.derives rest)
      exact .head ⟨step, bounded⟩ ih

end LeftmostWithin

/-- Without nonterminals that vanish, no form is longer than what it
derives. -/
theorem length_le_of_derives
    (solid : ∀ nonterminal, ¬ grammar.Vanishes [.nonterminal nonterminal])
    {form next : List Symbol} (derives : grammar.Derives form next) :
    form.length ≤ next.length := by
  have expands := expands_iff_derives.mpr derives
  clear derives
  induction expands with
  | nil => exact Nat.le_refl _
  | keep symbol _ ih => simpa using ih
  | @replace rule rest front back valid head _ headIh tailIh =>
      have some : front ≠ [] := by
        intro vanished
        subst vanished
        exact solid _ ((Derives.single valid).trans head.derives)
      have positive := List.length_pos_iff.mpr some
      simp only [List.length_cons, List.length_append]
      omega

end LRTables.Grammar
