import Std.Data.HashSet

/-!
# Breadth-first discovery

`discover` lists the nodes that can be reached from given roots, each node
once, in the order in which a breadth-first search meets them.
-/

namespace LRTables

open Std

/-- The nodes met so far, in order, and the same nodes as a set. -/
structure Discovered (α : Type) [BEq α] [Hashable α] where
  nodes : Array α
  seen : HashSet α

namespace Discovered

variable {α : Type} [BEq α] [Hashable α]

def empty : Discovered α :=
  { nodes := #[]
    seen := ∅ }

/-- Note a node unless it has been met before. -/
def add (discovered : Discovered α) (node : α) : Discovered α :=
  if discovered.seen.contains node then discovered
  else
    { nodes := discovered.nodes.push node
      seen := discovered.seen.insert node }

def addAll (discovered : Discovered α) (nodes : List α) : Discovered α :=
  nodes.foldl add discovered

/-- Expand the nodes from `position` onward, as long as their position can be
written with `bits` bits.  The bound is compared by its length, so it may be
far beyond what could be counted. -/
def expand (next : α → List α) (bits position : Nat)
    (discovered : Discovered α) : Discovered α :=
  if _inside : position.log2 < bits then
    match discovered.nodes[position]? with
    | none => discovered
    | some node =>
      expand next bits (position + 1) (discovered.addAll (next node))
  else discovered
termination_by (1 <<< bits) - position
decreasing_by
  have below : position < 1 <<< bits := by
    rw [Nat.one_shiftLeft]
    exact Nat.lt_of_lt_of_le Nat.lt_log2_self
      (Nat.pow_le_pow_right (by decide) _inside)
  omega

end Discovered

/-- The nodes reachable from `roots` along `next`, in breadth-first order.  At
most `2 ^ bits` nodes are expanded, so the list is complete when no more than
that many are reachable.  For a small set of nodes its size does as `bits`. -/
def discover {α : Type} [BEq α] [Hashable α]
    (next : α → List α) (bits : Nat) (roots : List α) : Array α :=
  (Discovered.expand next bits 0 (Discovered.empty.addAll roots)).nodes

end LRTables
