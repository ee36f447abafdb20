import LRTables.Text.Numeral
import LRTables.Text.Line
import Mathlib.Data.List.Basic

/-!
# Reading numerals back

The numeral of a number reads back as that number, and it holds neither blanks
nor signs, apart from one minus sign in front of a negative number.
-/

namespace LRTables.Numeral

theorem digitValue?_digit :
    ∀ value < 10, digitValue? (digit value) = some value := by
  decide

theorem isBlank_digit :
    ∀ value < 10, Line.isBlank (digit value) = false := by
  decide

theorem digit_ne_plus : ∀ value < 10, digit value ≠ '+' := by
  decide

theorem digit_ne_minus : ∀ value < 10, digit value ≠ '-' := by
  decide

/-- What holds of every digit holds throughout a numeral. -/
theorem forall_mem_digits {property : Char → Prop}
    (each : ∀ value < 10, property (digit value)) (number : Nat) :
    ∀ character ∈ digits number, property character := by
  induction number using Nat.strongRecOn with
  | ind number ih =>
      unfold digits
      split
      · rename_i small
        intro character member
        rw [List.mem_singleton] at member
        exact member ▸ each number small
      · rename_i large
        have last : number % 10 < 10 := Nat.mod_lt _ (by decide)
        intro character member
        rcases List.mem_append.mp member with front | back
        · exact ih (number / 10) (by omega) character front
        · rw [List.mem_singleton] at back
          exact back ▸ each _ last

theorem digits_ne_nil (number : Nat) : digits number ≠ [] := by
  unfold digits
  split
  · exact List.cons_ne_nil _ _
  · exact List.append_ne_nil_of_right_ne_nil _ (List.cons_ne_nil _ _)

theorem readDigits_append (value : Nat) (front back : List Char) :
    readDigits value (front ++ back) =
      (readDigits value front).bind fun found => readDigits found back := by
  induction front generalizing value with
  | nil => rfl
  | cons character rest ih =>
      rw [List.cons_append, readDigits, readDigits]
      cases digitValue? character with
      | none => rfl
      | some digit => exact ih _

theorem readDigits_digits (number : Nat) :
    readDigits 0 (digits number) = some number := by
  induction number using Nat.strongRecOn with
  | ind number ih =>
      unfold digits
      split
      · rename_i small
        simp [readDigits, digitValue?_digit number small]
      · rename_i large
        have last : number % 10 < 10 := Nat.mod_lt _ (by decide)
        have front := ih (number / 10) (by omega)
        rw [readDigits_append, front, Option.bind_some, readDigits,
          digitValue?_digit _ last]
        show some (number / 10 * 10 + number % 10) = some number
        rw [Nat.div_add_mod']

theorem magnitude?_digits (number : Nat) :
    magnitude? (digits number) = some number := by
  have read := readDigits_digits number
  cases found : digits number with
  | nil => exact absurd found (digits_ne_nil number)
  | cons first rest =>
      rw [found] at read
      exact read

theorem natural?_digits {bound number : Nat} (below : number < bound) :
    natural? bound (digits number) = some number := by
  have read := magnitude?_digits number
  have signless : ∀ character ∈ digits number, character ≠ '+' :=
    forall_mem_digits digit_ne_plus number
  unfold natural?
  split
  · rename_i rest found
    rw [found] at signless
    exact absurd rfl (signless '+' List.mem_cons_self)
  · exact Option.filter_eq_some_iff.mpr ⟨read, decide_eq_true below⟩

theorem natural?_lt {bound number : Nat} {characters : List Char}
    (read : natural? bound characters = some number) : number < bound :=
  of_decide_eq_true (Option.filter_eq_some_iff.mp read).2

@[simp] theorem toList_text (number : Nat) :
    (text number).toList = digits number :=
  String.toList_ofList

theorem toList_integerText_natCast (number : Nat) :
    (integerText (number : Int)).toList = digits number :=
  toList_text number

theorem toList_integerText_neg {number : Nat} (positive : 0 < number) :
    (integerText (-(number : Int))).toList = '-' :: digits number := by
  obtain ⟨previous, rfl⟩ : ∃ previous, number = previous + 1 :=
    ⟨number - 1, by omega⟩
  have shape : -((previous + 1 : Nat) : Int) = Int.negSucc previous := rfl
  rw [shape, integerText, String.toList_append, toList_text]
  rfl

theorem integer?_digits {bound number : Nat} (below : number < bound) :
    integer? bound (digits number) = some (number : Int) := by
  have read := natural?_digits below
  have signless : ∀ character ∈ digits number, character ≠ '-' :=
    forall_mem_digits digit_ne_minus number
  unfold integer?
  split
  · rename_i rest found
    rw [found] at signless
    exact absurd rfl (signless '-' List.mem_cons_self)
  · rw [read]
    rfl

theorem integer?_integerText {bound : Nat} {number : Int}
    (least : -(bound : Int) ≤ number) (below : number < bound) :
    integer? bound (integerText number).toList = some number := by
  by_cases natural : 0 ≤ number
  · obtain ⟨size, rfl⟩ := Int.eq_ofNat_of_zero_le natural
    rw [toList_integerText_natCast]
    exact integer?_digits (by omega)
  · obtain ⟨size, rfl⟩ : ∃ size : Nat, number = -(size : Int) :=
      ⟨number.natAbs, by omega⟩
    have within : size ≤ bound := by omega
    rw [toList_integerText_neg (by omega), integer?, magnitude?_digits]
    simp [Option.filter, within]

theorem integer?_bounds {bound : Nat} (positive : 0 < bound) {number : Int}
    {characters : List Char}
    (read : integer? bound characters = some number) :
    -(bound : Int) ≤ number ∧ number < bound := by
  unfold integer? at read
  split at read
  · obtain ⟨value, found, rfl⟩ := Option.map_eq_some_iff.mp read
    obtain ⟨size, kept, whole⟩ := Option.bind_eq_some_iff.mp found
    cases whole
    have within : size ≤ bound :=
      of_decide_eq_true (Option.filter_eq_some_iff.mp kept).2
    omega
  · obtain ⟨size, found, rfl⟩ := Option.map_eq_some_iff.mp read
    have below := natural?_lt found
    constructor <;> simp only [Int.ofNat_eq_natCast] <;> omega

end LRTables.Numeral
