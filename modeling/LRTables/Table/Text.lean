import LRTables.Grammar.Text
import LRTables.Automaton.Text
import LRTables.Table.Basic

/-!
# The text of actions and conflicts
-/

namespace LRTables

namespace Action

def text (grammar : Grammar) : Action → String
  | .shift state => "shift(" ++ twoDigits state ++ ")"
  | .reduce rule => "reduce(" ++ grammar.ruleText rule ++ ")"
  | .goto state => "goto(" ++ twoDigits state ++ ")"
  | .accept => "accept"
  | .error => "error"

end Action

namespace ConflictKind

def text : ConflictKind → String
  | .shiftReduce => "shift/reduce"
  | .reduceReduce => "reduce/reduce"
  | .acceptReduce => "accept/reduce"

end ConflictKind

namespace Conflict

def text (grammar : Grammar) (conflict : Conflict) : String :=
  conflict.kind.text ++ " conflict on " ++
    grammar.terminalText conflict.lookahead ++ ": " ++
    (Action.reduce conflict.reduce).text grammar ++ " vs " ++
    conflict.other.text grammar ++ " => " ++
    conflict.decision.text grammar ++
    (if conflict.byPrecedence then " (by precedence)" else "")

end Conflict

end LRTables
