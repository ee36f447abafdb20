import LRTables.Automaton.Basic

/-!
# Limits of state searches

A search for states ends because only finitely many states can be told apart.
The numbers here count how many there could be at most.
-/

namespace LRTables.Grammar

/-- The number of items of a grammar. -/
def itemCount (grammar : Grammar) : Nat :=
  grammar.rules.foldl (fun count rule => count + rule.right.length + 1) 0

/-- An upper bound on the number of sets of items with lookaheads. -/
def stateBound (grammar : Grammar) : Nat :=
  1 <<< (grammar.itemCount * (grammar.terminals.size + 1))

/-- An upper bound on how often the contexts of one state can grow. -/
def growthBound (grammar : Grammar) : Nat :=
  grammar.itemCount * grammar.terminals.size

/-- A state waits for expansion once when it is new and once more each time
its contexts have grown. -/
def collectionLimit (grammar : Grammar) : Nat :=
  grammar.stateBound * (grammar.growthBound + 1) + 1

end LRTables.Grammar
