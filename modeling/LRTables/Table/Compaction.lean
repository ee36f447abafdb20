import LRTables.Discovery
import LRTables.Table.Basic

/-!
# Compaction

The rows of unreachable states are dropped and the others renumbered without
gaps, in the old order.
-/

namespace LRTables

/-- Old and new numbers of the states that are kept. -/
structure Renumbering where
  /-- For each old state, its new number. -/
  newNumbers : Array (Option Nat)
  /-- For each new state, its old number. -/
  oldNumbers : Array Nat
  deriving DecidableEq

namespace Renumbering

def new? (renumbering : Renumbering) (old : Nat) : Option Nat :=
  renumbering.newNumbers.getD old none

def old? (renumbering : Renumbering) (new : Nat) : Option Nat :=
  renumbering.oldNumbers[new]?

/-- Number the kept states of a table with `size` states. -/
def ofKept (size : Nat) (kept : Nat → Bool) : Renumbering :=
  let oldNumbers := ((List.range size).filter kept).toArray
  { newNumbers := (Array.range size).map fun old =>
      oldNumbers.findIdx? (· == old)
    oldNumbers }

end Renumbering

namespace Table

/-- The states to which the cells of a row lead. -/
def rowTargets (table : Table) (state : Nat) : List Nat :=
  (table.rows.getD state #[]).toList.filterMap Action.target?

/-- The states reachable from the first one, which always counts if there is
any. -/
def reachableRows (table : Table) : Array Nat :=
  if table.stateCount = 0 then #[]
  else discover table.rowTargets table.stateCount [0]

def renumbering (table : Table) : Renumbering :=
  let reachable := table.reachableRows
  .ofKept table.stateCount reachable.contains

/-- Rename the states of a conflict; `none` when its own state is dropped. -/
def renameConflict? (renumbering : Renumbering) (conflict : Conflict) :
    Option Conflict :=
  (renumbering.new? conflict.state).map fun state =>
    { conflict with
      state
      other := conflict.other.renameTarget renumbering.new?
      decision := conflict.decision.renameTarget renumbering.new? }

/-- Drop the unreachable rows.  The conflicts that are left are counted
anew. -/
def compact (table : Table) : Table :=
  let renumbering := table.renumbering
  let kept := table.log.conflicts.filterMap (renameConflict? renumbering)
  { table with
    rows := renumbering.oldNumbers.map fun old =>
      (table.rows.getD old #[]).map (Action.renameTarget renumbering.new?)
    finals := table.finals.filterMap fun (state, rule) =>
      (renumbering.new? state).map fun state => (state, rule)
    log := kept.foldl ConflictLog.record
      { ConflictLog.empty with shiftShift := table.log.shiftShift } }

end Table

end LRTables
