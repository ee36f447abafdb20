import LRTables.Text.Line
import Mathlib.Data.List.Basic

/-!
# Reading lines and fields back

Lines that are written one after the other, each with a line feed at its end,
read back as they are, except that a carriage return at the end of a line is
lost.  Fields that are separated by single spaces read back as they are.
-/

namespace LRTables.Line

theorem cut_append {line : List Char} (whole : '\n' ∉ line)
    (rest : List Char) : cut (line ++ '\n' :: rest) = (line, some rest) := by
  induction line with
  | nil => rfl
  | cons character line ih =>
      rw [List.mem_cons, not_or] at whole
      rw [List.cons_append, cut, ih whole.2]
      · exact fun equal => whole.1 equal.symm

theorem not_mem_cut (characters : List Char) :
    '\n' ∉ (cut characters).1 := by
  induction characters with
  | nil => exact List.not_mem_nil
  | cons character rest ih =>
      unfold cut
      split
      · exact List.not_mem_nil
      · exact List.not_mem_nil
      · rename_i differs equal
        cases equal
        intro member
        rcases List.mem_cons.mp member with here | later
        · exact differs here.symm
        · exact ih later

theorem lines_append {line : List Char} (whole : '\n' ∉ line)
    (rest : List Char) :
    lines (line ++ '\n' :: rest) = dropReturn line :: lines rest := by
  have found := cut_append whole rest
  obtain ⟨first, others, shape⟩ :
      ∃ first others, line ++ '\n' :: rest = first :: others :=
    List.ne_nil_iff_exists_cons.mp
      (List.append_ne_nil_of_right_ne_nil _ (List.cons_ne_nil _ _))
  rw [shape] at found ⊢
  rw [lines]
  split
  · rename_i equal
    rw [found] at equal
    cases equal
  · rename_i equal
    rw [found] at equal
    cases equal
    rfl

theorem lines_flatMap {texts : List (List Char)}
    (whole : ∀ text ∈ texts, '\n' ∉ text) :
    lines (texts.flatMap fun text => text ++ ['\n']) =
      texts.map dropReturn := by
  induction texts with
  | nil => simp [lines]
  | cons text rest ih =>
      rw [List.flatMap_cons, List.append_assoc, List.singleton_append,
        lines_append (whole text List.mem_cons_self), List.map_cons,
        ih fun other member => whole other (List.mem_cons_of_mem _ member)]

theorem mem_of_mem_dropReturn {line : List Char} {character : Char}
    (member : character ∈ dropReturn line) : character ∈ line := by
  unfold dropReturn at member
  split at member
  · exact List.dropLast_subset line member
  · exact member

theorem not_mem_of_mem_lines {characters line : List Char}
    (member : line ∈ lines characters) : '\n' ∉ line := by
  induction characters using lines.induct with
  | case1 => simp [lines] at member
  | case2 first others text found =>
      have free := not_mem_cut (first :: others)
      rw [found] at free
      rw [lines] at member
      split at member
      · rename_i equal
        rw [found] at equal
        cases equal
        rw [List.mem_singleton] at member
        exact member ▸ free
      · rename_i equal
        rw [found] at equal
        cases equal
  | case3 first others text later found ih =>
      have free := not_mem_cut (first :: others)
      rw [found] at free
      rw [lines] at member
      split at member
      · rename_i equal
        rw [found] at equal
        cases equal
      · rename_i equal
        rw [found] at equal
        cases equal
        rcases List.mem_cons.mp member with rfl | rest
        · exact fun inside => free (mem_of_mem_dropReturn inside)
        · exact ih rest

theorem dropReturn_of_getLast?_ne {line : List Char}
    (ending : line.getLast? ≠ some '\r') : dropReturn line = line :=
  if_neg ending

theorem dropReturn_eq_self_iff {line : List Char} :
    dropReturn line = line ↔ line.getLast? ≠ some '\r' := by
  constructor
  · intro same ending
    have length := congrArg List.length same
    have nonempty : line ≠ [] := by
      rintro rfl
      cases ending
    rw [dropReturn, if_pos ending, List.length_dropLast] at length
    have positive := List.length_pos_iff.mpr nonempty
    omega
  · exact dropReturn_of_getLast?_ne

/-- The characters of a field: at least one, and no blanks. -/
def IsField (field : List Char) : Prop :=
  field ≠ [] ∧ ∀ character ∈ field, isBlank character = false

instance decidableIsField (field : List Char) : Decidable (IsField field) :=
  decidable_of_iff ((!field.isEmpty && field.all (!isBlank ·)) = true) (by
    cases field <;> simp [IsField])

theorem fieldsFrom_append {field : List Char}
    (solid : ∀ character ∈ field, isBlank character = false)
    (front rest : List Char) :
    fieldsFrom front (field ++ rest) = fieldsFrom (front ++ field) rest := by
  induction field generalizing front with
  | nil => rw [List.nil_append, List.append_nil]
  | cons character others ih =>
      have filled := solid character List.mem_cons_self
      rw [List.cons_append, fieldsFrom, filled]
      rw [if_neg Bool.false_ne_true, ih, List.append_assoc,
        List.singleton_append]
      intro other member
      exact solid other (List.mem_cons_of_mem _ member)

@[simp] theorem fields_space (rest : List Char) :
    fields (' ' :: rest) = fields rest := by
  have blank : isBlank ' ' = true := by decide
  simp [fields, fieldsFrom, blank]

theorem fields_singleton {field : List Char} (isField : IsField field) :
    fields field = [field] := by
  have whole := fieldsFrom_append isField.2 [] []
  rw [List.append_nil, List.nil_append] at whole
  rw [fields, whole]
  simp [fieldsFrom, isField.1]

theorem fields_append {field : List Char} (isField : IsField field)
    (rest : List Char) :
    fields (field ++ ' ' :: rest) = field :: fields rest := by
  have blank : isBlank ' ' = true := by decide
  rw [fields, fieldsFrom_append isField.2, List.nil_append]
  simp [fieldsFrom, blank, isField.1, fields]

theorem fields_intercalate {texts : List (List Char)}
    (areFields : ∀ field ∈ texts, IsField field) :
    fields ([' '].intercalate texts) = texts := by
  induction texts with
  | nil => rfl
  | cons first rest ih =>
      have own := areFields first List.mem_cons_self
      cases rest with
      | nil =>
          rw [List.intercalate_singleton, fields_singleton own]
      | cons second others =>
          rw [List.intercalate_cons_cons, List.append_assoc,
            List.singleton_append, fields_append own, ih fun field member =>
              areFields field (List.mem_cons_of_mem _ member)]

/-- A character of a line of fields is a space or belongs to a field. -/
theorem mem_intercalate {texts : List (List Char)} {character : Char}
    (member : character ∈ [' '].intercalate texts) :
    character = ' ' ∨ ∃ field ∈ texts, character ∈ field := by
  induction texts with
  | nil => cases member
  | cons first rest ih =>
      cases rest with
      | nil =>
          rw [List.intercalate_singleton] at member
          exact Or.inr ⟨first, List.mem_cons_self, member⟩
      | cons second others =>
          rw [List.intercalate_cons_cons, List.append_assoc,
            List.mem_append, List.mem_append, List.mem_singleton] at member
          rcases member with here | space | later
          · exact Or.inr ⟨first, List.mem_cons_self, here⟩
          · exact Or.inl space
          · rcases ih later with space | ⟨field, inRest, inside⟩
            · exact Or.inl space
            · exact Or.inr
                ⟨field, List.mem_cons_of_mem _ inRest, inside⟩

theorem not_mem_intercalate {texts : List (List Char)} {blank : Char}
    (areFields : ∀ field ∈ texts, IsField field)
    (isBlank : isBlank blank = true) (noSpace : blank ≠ ' ') :
    blank ∉ [' '].intercalate texts := by
  intro member
  rcases mem_intercalate member with space | ⟨field, listed, inside⟩
  · exact noSpace space
  · rw [(areFields field listed).2 blank inside] at isBlank
    cases isBlank

end LRTables.Line
