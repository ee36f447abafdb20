import LRTables.Automaton.Basic
import LRTables.Grammar.Text

/-!
# Listings of states
-/

namespace LRTables

/-- A number with at least two digits. -/
def twoDigits (number : Nat) : String :=
  if number < 10 then "0" ++ toString number else toString number

namespace Item

/-- An item as `(A := x . y)`.  A dot beyond the end is not written. -/
def text (grammar : Grammar) (item : Item) : String :=
  let symbols := (grammar.right item.rule).map fun symbol =>
    " " ++ grammar.symbolText symbol
  let dot := if item.dot ≤ symbols.length then " ." else ""
  "(" ++ grammar.nonterminalText (grammar.left item.rule) ++ " :=" ++
    String.join (symbols.take item.dot) ++ dot ++
    String.join (symbols.drop item.dot) ++ ")"

end Item

namespace State

def configurationLine (grammar : Grammar) (coreCount index : Nat)
    (configuration : Configuration) : String :=
  "- " ++ configuration.item.text grammar ++ "  " ++
    grammar.setText configuration.context ++
    (if index < coreCount then "" else " (closure)") ++ "\n"

def successorLine (grammar : Grammar) (edge : Symbol × Nat) : String :=
  "- " ++ grammar.symbolText edge.1 ++ " => " ++ twoDigits edge.2 ++ "\n"

/-- The listing of the state with the given number. -/
def text (grammar : Grammar) (number : Nat) (state : State) : String :=
  let entry :=
    match state.entry with
    | none => ""
    | some symbol => " (on " ++ grammar.symbolText symbol ++ ")"
  let source :=
    match state.cloneOf with
    | none => ""
    | some prototype => " (split from " ++ twoDigits prototype ++ ")"
  "#### State " ++ twoDigits number ++ entry ++ source ++ "\n" ++
    "## configurations\n" ++
    String.join (state.configurations.toList.mapIdx
      (configurationLine grammar state.coreCount)) ++
    "## successors\n" ++
    String.join (state.successors.map (successorLine grammar))

end State

namespace Automaton

/-- All states, with a blank line between neighbours. -/
def text (grammar : Grammar) (automaton : Automaton) : String :=
  "\n".intercalate ((List.range automaton.size).map fun number =>
    (automaton.state number).text grammar number)

end Automaton

end LRTables
