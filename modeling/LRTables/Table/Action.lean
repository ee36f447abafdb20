/-!
# Table actions and their codes

A table cell is written as one integer: zero for an error, a positive number
for a target state, a negative one for a rule, and the least 32-bit integer
for acceptance.
-/

namespace LRTables

inductive Action where
  | shift (state : Nat)
  | reduce (rule : Nat)
  | goto (state : Nat)
  | accept
  | error
  deriving DecidableEq

namespace Action

/-- The code of acceptance. -/
def acceptCode : Int := -2147483648

/-- Rules that a code can name have numbers below this bound. -/
def ruleBound : Nat := 65536

def code : Action → Int
  | .shift state => state
  | .reduce rule => -(rule : Int)
  | .goto state => state
  | .accept => acceptCode
  | .error => 0

/-- The action of a code.  The columns of terminals hold shifts and the other
columns gotos. -/
def ofCode (onTerminal : Bool) (code : Int) : Action :=
  if code = acceptCode then .accept
  else
    match code with
    | .ofNat 0 => .error
    | .ofNat state => if onTerminal then .shift state else .goto state
    | .negSucc rule =>
      if rule + 1 < ruleBound then .reduce (rule + 1) else .error

/-- The state to which a shift or a goto leads. -/
def target? : Action → Option Nat
  | .shift state => some state
  | .goto state => some state
  | _ => none

/-- Rename the target state.  A target without a new name becomes an error. -/
def renameTarget (rename : Nat → Option Nat) : Action → Action
  | .shift state => (rename state).elim .error .shift
  | .goto state => (rename state).elim .error .goto
  | action => action

end Action

end LRTables
