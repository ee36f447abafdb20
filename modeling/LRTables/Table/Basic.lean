import LRTables.Table.Conflict

/-!
# Parsing tables

One row per state and one column per symbol: the terminals first, then the
nonterminals other than the goal symbol.
-/

namespace LRTables

/-- What a parser has to know about a rule. -/
structure RuleShape where
  /-- The column of the left-hand side.  The goal rule has none. -/
  column : Option Nat
  /-- The length of the right-hand side. -/
  length : Nat
  hasCode : Bool
  deriving DecidableEq

structure Table where
  /-- Column headers. -/
  columns : Array String
  terminalCount : Nat
  rules : Array RuleShape
  rows : Array (Array Action)
  /-- The states whose only action is one reduction, with its rule. -/
  finals : Array (Nat × Nat)
  log : ConflictLog
  deriving DecidableEq

namespace Table

def stateCount (table : Table) : Nat :=
  table.rows.size

def columnNamed? (table : Table) (name : String) : Option Nat :=
  table.columns.findIdx? (· == name)

/-- The content of a cell.  Outside the table every cell is an error. -/
def cell (table : Table) (state column : Nat) : Action :=
  (table.rows.getD state #[]).getD column .error

end Table

end LRTables
