/-!
# Symbol names

A declared name is an identifier, with the underscore allowed in front and
dots allowed inside.  Which characters identifiers are made of is for an
alphabet to say.
-/

namespace LRTables

/-- The characters that an identifier may begin with, and those that it may go
on with. -/
class Alphabet where
  begins : Char → Bool
  continues : Char → Bool

/-- The character stands in no identifier. -/
def Alphabet.Excludes [Alphabet] (character : Char) : Prop :=
  begins character = false ∧ continues character = false

namespace Name

variable [Alphabet]

def canStart (character : Char) : Bool :=
  character == '_' || Alphabet.begins character

def canContinue (character : Char) : Bool :=
  character == '.' || Alphabet.continues character

/-- A name is not empty, and its first character is held to a test of its
own. -/
def isName (text : String) : Bool :=
  match text.toList with
  | [] => false
  | first :: rest => canStart first && rest.all canContinue

theorem not_mem_of_isName {text : String} {character : Char}
    (excluded : Alphabet.Excludes character) (underscore : character ≠ '_')
    (dot : character ≠ '.') (name : isName text = true) :
    character ∉ text.toList := by
  have start : canStart character = false := by
    rw [canStart, excluded.1, Bool.or_false, beq_eq_false_iff_ne]
    exact underscore
  have continues : canContinue character = false := by
    rw [canContinue, excluded.2, Bool.or_false, beq_eq_false_iff_ne]
    exact dot
  intro member
  rw [isName] at name
  split at name
  · rename_i empty
    rw [empty] at member
    cases member
  · rename_i first rest shape
    rw [shape] at member
    rw [Bool.and_eq_true, List.all_eq_true] at name
    rcases List.mem_cons.mp member with rfl | later
    · rw [start] at name
      exact Bool.false_ne_true name.1
    · have own := name.2 character later
      rw [continues] at own
      exact Bool.false_ne_true own

end Name

end LRTables
