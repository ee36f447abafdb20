import LRTables.Ordered
import LRTables.Table.Action

/-!
# Conflicts

A reduction that finds its cell taken is a conflict.  Every conflict is logged
with the action that it met and the action that was decided on.
-/

namespace LRTables

inductive ConflictKind where
  | shiftReduce
  | reduceReduce
  /-- A reduction on the end of input in the accepting state. -/
  | acceptReduce
  deriving DecidableEq

structure Conflict where
  state : Nat
  lookahead : Nat
  /-- The rule of the reduction that arrived, or that accepting replaced. -/
  reduce : Nat
  /-- The action with which the reduction competes. -/
  other : Action
  decision : Action
  /-- Whether precedence settled the conflict. -/
  byPrecedence : Bool
  deriving DecidableEq

namespace Conflict

def kind (conflict : Conflict) : ConflictKind :=
  match conflict.other with
  | .shift _ => .shiftReduce
  | .accept => .acceptReduce
  | _ => .reduceReduce

end Conflict

structure ConflictLog where
  conflicts : Array Conflict
  shiftReduce : Nat
  reduceReduce : Nat
  shiftShift : Nat
  /-- The states with a conflict that precedence did not settle, in order of
  the first one. -/
  inadequate : List Nat
  deriving DecidableEq

namespace ConflictLog

def empty : ConflictLog :=
  { conflicts := #[]
    shiftReduce := 0
    reduceReduce := 0
    shiftShift := 0
    inadequate := [] }

def ofState (log : ConflictLog) (state : Nat) : List Conflict :=
  log.conflicts.toList.filter fun conflict => conflict.state == state

/-- The number of shift/reduce and reduce/reduce conflicts that precedence did
not settle. -/
def unresolved (log : ConflictLog) : Nat :=
  log.shiftReduce + log.reduceReduce

/-- Count a conflict that precedence did not settle. -/
def count (log : ConflictLog) (conflict : Conflict) : ConflictLog :=
  let marked :=
    { log with inadequate := Ordered.insert log.inadequate conflict.state }
  match conflict.kind with
  | .shiftReduce => { marked with shiftReduce := log.shiftReduce + 1 }
  | .reduceReduce => { marked with reduceReduce := log.reduceReduce + 1 }
  | .acceptReduce => marked

/-- Log a conflict.  Conflicts settled by precedence are not counted. -/
def record (log : ConflictLog) (conflict : Conflict) : ConflictLog :=
  let counted :=
    if conflict.byPrecedence then log else log.count conflict
  { counted with conflicts := log.conflicts.push conflict }

end ConflictLog

end LRTables
