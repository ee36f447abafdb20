import LRTables.Table.Basic
import LRTables.Text.Numeral

/-!
# The written form of tables

A table is written as lines in six sections: columns, rules, states, final
states, conflicts and inadequate states.  Each section opens with a line that
holds its tag and its counts.
-/

namespace LRTables.Table

/-- Numbers separated by single spaces. -/
def spaced (fields : List String) : String :=
  " ".intercalate fields

def flagText (flag : Bool) : String :=
  if flag then "1" else "0"

def headerLine (tag : String) (counts : List Nat) : String :=
  spaced (tag :: counts.map Numeral.text)

def shapeLine (shape : RuleShape) : String :=
  spaced [shape.column.elim "-" Numeral.text, Numeral.text shape.length,
    flagText shape.hasCode]

def rowLine (row : Array Action) : String :=
  spaced (row.toList.map fun action => Numeral.integerText action.code)

def finalLine (final : Nat × Nat) : String :=
  spaced [Numeral.text final.1, Numeral.text final.2]

def conflictLine (conflict : Conflict) : String :=
  spaced [Numeral.text conflict.state, Numeral.text conflict.lookahead,
    Numeral.text conflict.reduce, Numeral.integerText conflict.other.code,
    Numeral.integerText conflict.decision.code,
    flagText conflict.byPrecedence]

/-- The lines of the written form, without line feeds. -/
def lines (table : Table) : List String :=
  headerLine "%columns" [table.columns.size, table.terminalCount] ::
    table.columns.toList ++
  headerLine "%rules" [table.rules.size] ::
    table.rules.toList.map shapeLine ++
  headerLine "%states" [table.rows.size] ::
    table.rows.toList.map rowLine ++
  headerLine "%final" [table.finals.size] ::
    table.finals.toList.map finalLine ++
  headerLine "%conflicts"
      [table.log.conflicts.size, table.log.shiftReduce,
        table.log.reduceReduce, table.log.shiftShift] ::
    table.log.conflicts.toList.map conflictLine ++
  headerLine "%inadequate" [table.log.inadequate.length] ::
    table.log.inadequate.map Numeral.text

/-- The written form; every line ends in a line feed. -/
def write (table : Table) : String :=
  String.join (table.lines.map fun line => line ++ "\n")

end LRTables.Table
