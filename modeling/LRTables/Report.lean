import LRTables.Automaton.Text
import LRTables.Construction
import LRTables.Grammar.Warning
import LRTables.Table.Text

/-!
# Reports and logs

A report lists the states, ambiguities and conflicts of a construction.  A log
holds the notices given on the way.
-/

namespace LRTables

inductive Severity where
  | debug
  | warn
  deriving DecidableEq

/-- One entry of a log. -/
structure Notice where
  severity : Severity
  text : String
  deriving DecidableEq

namespace Table

/-- The listing of a state with the conflicts logged for it. -/
def stateText (table : Table) (grammar : Grammar) (number : Nat)
    (state : State) : String :=
  let conflicts := table.log.ofState number
  state.text grammar number ++
    if conflicts.isEmpty then ""
    else
      "## conflicts\n" ++ String.join (conflicts.map fun conflict =>
        "- " ++ conflict.text grammar ++ "\n")

end Table

namespace ConflictLog

/-- The numbers of conflicts in one line. -/
def summary (log : ConflictLog) (grammar : Grammar) : String :=
  toString log.shiftReduce ++ " shift/reduce, " ++
    toString log.reduceReduce ++ " reduce/reduce conflicts" ++
    match grammar.expect with
    | none => ""
    | some expected =>
      " (expected " ++ toString expected ++ " shift/reduce)"

/-- Whether the conflicts are those that the grammar expects, or none when it
expects nothing. -/
def isExpected (log : ConflictLog) (grammar : Grammar) : Bool :=
  match grammar.expect with
  | some expected => expected == log.shiftReduce && log.reduceReduce == 0
  | none => log.unresolved == 0

end ConflictLog

namespace Output

/-- The full report. -/
def report (output : Output) (grammar : Grammar) : String :=
  let states := output.automaton.reachableStates.map fun number =>
    output.table.stateText grammar number (output.automaton.state number) ++
      "\n"
  let ambiguities := output.ambiguities.toList.map fun ambiguity =>
    "ambiguity: " ++ ambiguity.text grammar ++ "\n"
  String.join states ++ String.join ambiguities ++
    output.table.log.summary grammar ++ "\n"

/-- The notices given when an output is reported. -/
def notices (output : Output) (grammar : Grammar) : List Notice :=
  let log := output.table.log
  output.ambiguities.toList.map (fun ambiguity =>
    { severity := .warn
      text := "ambiguous grammar: " ++ ambiguity.text grammar }) ++
    [{ severity := if log.isExpected grammar then .debug else .warn
       text := log.summary grammar }]

end Output

namespace Construction

/-- The notices given in the course of a construction.  Those about the output
are given only if there is one. -/
def notices (construction : Construction) (grammar : Grammar) :
    List Notice :=
  construction.ambiguities.toList.map (fun ambiguity =>
    { severity := .warn
      text := "grammar is ambiguous: " ++ ambiguity.text grammar }) ++
    match construction.built with
    | .ok output => output.notices grammar
    | .error _ => []

end Construction

namespace Grammar

/-- The notices given when the grammar is defined. -/
def notices (grammar : Grammar) : List Notice :=
  grammar.warnings.map fun warning =>
    { severity := .warn
      text := warning.message grammar }

end Grammar

end LRTables
