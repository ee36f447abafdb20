import LRTables.Grammar.Basic

/-!
# Items

A rule with a dot somewhere in its right-hand side.
-/

namespace LRTables

structure Item where
  rule : Nat
  /-- The number of symbols before the dot. -/
  dot : Nat
  deriving DecidableEq

namespace Item

/-- The item that starts every parse: the goal rule with the dot in front. -/
def goal : Item :=
  { rule := goalRule
    dot := 0 }

/-- The symbols from the dot onward. -/
def rest (grammar : Grammar) (item : Item) : List Symbol :=
  (grammar.right item.rule).drop item.dot

/-- The symbol right after the dot. -/
def scanned (grammar : Grammar) (item : Item) : Option Symbol :=
  (item.rest grammar).head?

/-- The symbols after the scanned one. -/
def tail (grammar : Grammar) (item : Item) : List Symbol :=
  (item.rest grammar).tail

/-- Whether the dot has reached the end. -/
def isFinal (grammar : Grammar) (item : Item) : Bool :=
  (item.rest grammar).isEmpty

def advance (item : Item) : Item :=
  { item with dot := item.dot + 1 }

/-- Items are ordered by rule, then by dot. -/
def precedes (left right : Item) : Bool :=
  decide (left.rule < right.rule) ||
    left.rule == right.rule && decide (left.dot ≤ right.dot)

end Item

end LRTables
