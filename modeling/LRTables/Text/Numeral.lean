/-!
# Decimal numerals

Numbers are written without leading zeros.  A reader also takes leading zeros
and a plus sign, and a minus sign where negative numbers are allowed.
-/

namespace LRTables.Numeral

/-- The character of a digit. -/
def digit (value : Nat) : Char :=
  Char.ofNat ('0'.toNat + value)

/-- The digits of a number, most significant first. -/
def digits (number : Nat) : List Char :=
  if number < 10 then [digit number]
  else digits (number / 10) ++ [digit (number % 10)]

def text (number : Nat) : String :=
  String.ofList (digits number)

def integerText : Int → String
  | .ofNat number => text number
  | .negSucc number => "-" ++ text (number + 1)

def digitValue? (character : Char) : Option Nat :=
  if '0' ≤ character ∧ character ≤ '9' then
    some (character.toNat - '0'.toNat)
  else none

/-- Read further digits after those that make up `value`. -/
def readDigits (value : Nat) : List Char → Option Nat
  | [] => some value
  | character :: rest =>
    match digitValue? character with
    | none => none
    | some digit => readDigits (value * 10 + digit) rest

/-- Read a numeral of at least one digit. -/
def magnitude? : List Char → Option Nat
  | [] => none
  | characters => readDigits 0 characters

/-- Read a number below `bound`. -/
def natural? (bound : Nat) (characters : List Char) : Option Nat :=
  let unsigned :=
    match characters with
    | '+' :: rest => rest
    | _ => characters
  (magnitude? unsigned).filter fun number => decide (number < bound)

/-- Read a number from `-bound` up to but not including `bound`. -/
def integer? (bound : Nat) (characters : List Char) : Option Int :=
  match characters with
  | '-' :: rest =>
    ((magnitude? rest).filter fun number => decide (number ≤ bound)).map
      fun number => -(number : Int)
  | _ => (natural? bound characters).map Int.ofNat

end LRTables.Numeral
