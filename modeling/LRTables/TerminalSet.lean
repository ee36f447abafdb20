/-!
# Sets of terminals

A set of terminal numbers, kept as the binary digits of one natural number.
Two sets with the same members are therefore the same value, whatever
operations built them, and the members are always listed in increasing order.
-/

namespace LRTables

/-- A finite set of terminal numbers: `terminal` is a member when the digit of
`digits` at that position is one. -/
structure TerminalSet where
  digits : Nat
  deriving DecidableEq

namespace TerminalSet

instance : EmptyCollection TerminalSet :=
  ⟨⟨0⟩⟩

instance : Inhabited TerminalSet :=
  ⟨∅⟩

def contains (set : TerminalSet) (terminal : Nat) : Bool :=
  set.digits.testBit terminal

instance : Membership Nat TerminalSet :=
  ⟨fun set terminal => set.contains terminal = true⟩

instance (terminal : Nat) (set : TerminalSet) : Decidable (terminal ∈ set) :=
  inferInstanceAs (Decidable (set.contains terminal = true))

def singleton (terminal : Nat) : TerminalSet :=
  ⟨1 <<< terminal⟩

def union (left right : TerminalSet) : TerminalSet :=
  ⟨left.digits ||| right.digits⟩

def inter (left right : TerminalSet) : TerminalSet :=
  ⟨left.digits &&& right.digits⟩

/-- The members of `left` that are not members of `right`. -/
def diff (left right : TerminalSet) : TerminalSet :=
  ⟨left.digits ^^^ (left.digits &&& right.digits)⟩

instance : Union TerminalSet :=
  ⟨union⟩

instance : Inter TerminalSet :=
  ⟨inter⟩

instance : SDiff TerminalSet :=
  ⟨diff⟩

def insert (set : TerminalSet) (terminal : Nat) : TerminalSet :=
  set ∪ singleton terminal

def erase (set : TerminalSet) (terminal : Nat) : TerminalSet :=
  set \ singleton terminal

def isEmpty (set : TerminalSet) : Bool :=
  set.digits == 0

def isDisjoint (left right : TerminalSet) : Bool :=
  (left ∩ right).isEmpty

def isSubset (left right : TerminalSet) : Bool :=
  left ∩ right == left

/-- One more than the largest member, or zero for the empty set. -/
def bound (set : TerminalSet) : Nat :=
  if set.digits = 0 then 0 else set.digits.log2 + 1

/-- The members in increasing order. -/
def toList (set : TerminalSet) : List Nat :=
  (List.range set.bound).filter set.contains

def size (set : TerminalSet) : Nat :=
  set.toList.length

def ofList (terminals : List Nat) : TerminalSet :=
  terminals.foldl insert ∅

/-- The members between braces, separated by commas. -/
def toText (set : TerminalSet) : String :=
  "\x7b" ++ ", ".intercalate (set.toList.map toString) ++ "\x7d"

theorem ext {left right : TerminalSet}
    (same : ∀ terminal, terminal ∈ left ↔ terminal ∈ right) :
    left = right := by
  cases left with
  | mk leftDigits =>
    cases right with
    | mk rightDigits =>
      congr 1
      apply Nat.eq_of_testBit_eq
      intro terminal
      exact Bool.eq_iff_iff.mpr (same terminal)

theorem mem_iff_contains {terminal : Nat} {set : TerminalSet} :
    terminal ∈ set ↔ set.contains terminal = true :=
  Iff.rfl

@[simp] theorem not_mem_empty (terminal : Nat) :
    ¬ terminal ∈ (∅ : TerminalSet) := by
  show ¬ (0 : Nat).testBit terminal = true
  simp

@[simp] theorem mem_singleton {terminal other : Nat} :
    terminal ∈ singleton other ↔ terminal = other := by
  show (1 <<< other).testBit terminal = true ↔ terminal = other
  rw [Nat.one_shiftLeft, Nat.testBit_two_pow, decide_eq_true_iff, eq_comm]

@[simp] theorem mem_union {terminal : Nat} {left right : TerminalSet} :
    terminal ∈ left ∪ right ↔ terminal ∈ left ∨ terminal ∈ right := by
  show (left.digits ||| right.digits).testBit terminal = true ↔
    left.digits.testBit terminal = true ∨ right.digits.testBit terminal = true
  simp [Nat.testBit_or]

@[simp] theorem mem_inter {terminal : Nat} {left right : TerminalSet} :
    terminal ∈ left ∩ right ↔ terminal ∈ left ∧ terminal ∈ right := by
  show (left.digits &&& right.digits).testBit terminal = true ↔
    left.digits.testBit terminal = true ∧ right.digits.testBit terminal = true
  simp [Nat.testBit_and]

@[simp] theorem mem_diff {terminal : Nat} {left right : TerminalSet} :
    terminal ∈ left \ right ↔ terminal ∈ left ∧ ¬ terminal ∈ right := by
  show (left.digits ^^^ (left.digits &&& right.digits)).testBit terminal
      = true ↔
    left.digits.testBit terminal = true ∧
      ¬ right.digits.testBit terminal = true
  simp only [Nat.testBit_xor, Nat.testBit_and]
  cases left.digits.testBit terminal <;>
    cases right.digits.testBit terminal <;> simp

@[simp] theorem mem_insert {terminal added : Nat} {set : TerminalSet} :
    terminal ∈ set.insert added ↔ terminal ∈ set ∨ terminal = added := by
  simp [insert]

@[simp] theorem mem_erase {terminal removed : Nat} {set : TerminalSet} :
    terminal ∈ set.erase removed ↔ terminal ∈ set ∧ terminal ≠ removed := by
  simp [erase]

theorem isEmpty_iff {set : TerminalSet} :
    set.isEmpty = true ↔ set = ∅ := by
  cases set with
  | mk digits =>
    show (digits == 0) = true ↔ TerminalSet.mk digits = TerminalSet.mk 0
    simp

theorem isDisjoint_iff {left right : TerminalSet} :
    left.isDisjoint right = true ↔
      ∀ terminal, terminal ∈ left → ¬ terminal ∈ right := by
  rw [isDisjoint, isEmpty_iff]
  constructor
  · intro empty terminal inLeft inRight
    have inBoth : terminal ∈ left ∩ right := mem_inter.mpr ⟨inLeft, inRight⟩
    rw [empty] at inBoth
    exact not_mem_empty terminal inBoth
  · intro apart
    apply ext
    intro terminal
    simp only [mem_inter, not_mem_empty, iff_false, not_and]
    exact apart terminal

theorem isSubset_iff {left right : TerminalSet} :
    left.isSubset right = true ↔
      ∀ terminal, terminal ∈ left → terminal ∈ right := by
  simp only [isSubset, beq_iff_eq]
  constructor
  · intro equal terminal inLeft
    rw [← equal] at inLeft
    exact (mem_inter.mp inLeft).2
  · intro subset
    apply ext
    intro terminal
    simp only [mem_inter, and_iff_left_iff_imp]
    exact subset terminal

theorem lt_bound_of_mem {terminal : Nat} {set : TerminalSet}
    (member : terminal ∈ set) : terminal < set.bound := by
  have digit : set.digits.testBit terminal = true := member
  have atLeast := Nat.ge_two_pow_of_testBit digit
  have positive : set.digits ≠ 0 := by
    have := Nat.two_pow_pos terminal
    omega
  rw [bound, if_neg positive]
  have := (Nat.le_log2 positive).mpr atLeast
  omega

@[simp] theorem mem_toList {terminal : Nat} {set : TerminalSet} :
    terminal ∈ set.toList ↔ terminal ∈ set := by
  simp only [toList, List.mem_filter, List.mem_range]
  exact ⟨And.right, fun member => ⟨lt_bound_of_mem member, member⟩⟩

end TerminalSet

end LRTables
