/-!
# Failures of table construction
-/

namespace LRTables

inductive ConstructionError where
  /-- A transition brings an item that its target does not have. -/
  | missingCore (state rule dot : Nat)
  | acceptReduceClash (state rule : Nat)
  | expectMismatch (expected shiftReduce reduceReduce : Nat)
  /-- A search for states was stopped by its step limit. -/
  | unfinished
  deriving DecidableEq

namespace ConstructionError

def message : ConstructionError → String
  | .missingCore state rule dot =>
    "state " ++ toString state ++ ": no core configuration for rule " ++
      toString rule ++ " at marker " ++ toString dot
  | .acceptReduceClash state rule =>
    "state " ++ toString state ++
      ": accept clashes with the reduction by rule " ++ toString rule
  | .expectMismatch expected shiftReduce reduceReduce =>
    "expected " ++ toString expected ++ " shift/reduce conflicts, found " ++
      toString shiftReduce ++ " shift/reduce and " ++
      toString reduceReduce ++ " reduce/reduce"
  | .unfinished => "the search for states was not finished"

end ConstructionError

end LRTables
