/-!
# Lines and fields

A text is cut into lines at line feeds, and a line into fields at blanks.
-/

namespace LRTables.Line

/-- The characters of a text up to the first line feed, and those after it.
The second component is `none` when there is no line feed. -/
def cut : List Char → List Char × Option (List Char)
  | [] => ([], none)
  | '\n' :: rest => ([], some rest)
  | character :: rest =>
    let (line, later) := cut rest
    (character :: line, later)

/-- A line that ended in a line feed loses one carriage return before it. -/
def dropReturn (line : List Char) : List Char :=
  if line.getLast? = some '\r' then line.dropLast else line

theorem length_cut_lt {characters line later : List Char}
    (found : cut characters = (line, some later)) :
    later.length < characters.length := by
  induction characters generalizing line later with
  | nil => simp [cut] at found
  | cons character rest induction =>
    unfold cut at found
    split at found
    · simp at found
    · rename_i equal
      simp only [List.cons.injEq] at equal
      simp only [Prod.mk.injEq, Option.some.injEq] at found
      obtain ⟨_, rfl⟩ := found
      simp [equal.2]
    · rename_i equal
      simp only [List.cons.injEq] at equal
      obtain ⟨_, rfl⟩ := equal
      simp only [Prod.mk.injEq] at found
      have split : cut rest = ((cut rest).1, some later) := by
        rw [← found.2]
      have shorter := induction split
      simp only [List.length_cons]
      omega

/-- The lines of a text.  A line feed at the very end starts no new line. -/
def lines (characters : List Char) : List (List Char) :=
  match characters with
  | [] => []
  | first :: others =>
    match _ : cut (first :: others) with
    | (line, none) => [line]
    | (line, some later) => dropReturn line :: lines later
termination_by characters.length
decreasing_by exact length_cut_lt (by assumption)

/-- The characters with the Unicode property `White_Space`. -/
def isBlank (character : Char) : Bool :=
  let point := character.toNat
  decide (0x9 ≤ point) && decide (point ≤ 0xD) ||
    decide (0x2000 ≤ point) && decide (point ≤ 0x200A) ||
    [0x20, 0x85, 0xA0, 0x1680, 0x2028, 0x2029, 0x202F, 0x205F, 0x3000].contains
      point

/-- The fields of a line; `field` holds the characters of an unfinished one. -/
def fieldsFrom (field : List Char) : List Char → List (List Char)
  | [] => if field.isEmpty then [] else [field]
  | character :: rest =>
    if isBlank character then
      if field.isEmpty then fieldsFrom [] rest
      else field :: fieldsFrom [] rest
    else fieldsFrom (field ++ [character]) rest

/-- The maximal runs of characters that are no blanks. -/
def fields (line : List Char) : List (List Char) :=
  fieldsFrom [] line

end LRTables.Line
