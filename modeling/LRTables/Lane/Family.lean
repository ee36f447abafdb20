import LRTables.Automaton.Links
import LRTables.Automaton.Propagation
import LRTables.Lane.Region

/-!
# Families of copies

Splitting makes copies of the states of a region.  A family holds the copies
of one state, the state itself first.  Once the transitions are settled, the
contexts of all families are computed anew.
-/

namespace LRTables

namespace State

/-- Drop all contexts and rebuild those that are generated in the state. -/
def resetContexts (grammar : Grammar) (first : FirstSets) (state : State) :
    State :=
  let cleared := state.mapConfigurations fun configuration =>
    { configuration with
      context :=
        if configuration.item = .goal then
          .singleton Terminal.endOfInput
        else ∅ }
  (cleared.close grammar first true).1

end State

/-- For each state of a region, its copies. -/
abbrev Families := List (Nat × List Nat)

namespace Families

def ofRegion (automaton : Automaton) (region : Region) : Families :=
  (List.range automaton.size).foldl
    (fun families number =>
      let prototype := automaton.prototype number
      if region.contains prototype then
        Ordered.update families prototype [] (· ++ [number])
      else families)
    []

/-- The copies of a state. -/
def copiesOf (families : Families) (prototype : Nat) : List Nat :=
  (Ordered.find? families prototype).getD []

def add (families : Families) (prototype copy : Nat) : Families :=
  Ordered.update families prototype [] (· ++ [copy])

/-- All states of all families. -/
def members (families : Families) : List Nat :=
  families.flatMap Prod.snd

end Families

/-- How much splitting has done. -/
structure SplitCounts where
  clones : Nat
  merges : Nat
  deriving DecidableEq

/-- A region in the course of being split. -/
structure Splitting where
  automaton : Automaton
  families : Families
  counts : SplitCounts

namespace Splitting

def begin (automaton : Automaton) (region : Region) : Splitting :=
  { automaton
    families := Families.ofRegion automaton region
    counts :=
      { clones := 0
        merges := 0 } }

/-- Reset the contexts of a state. -/
def reset (grammar : Grammar) (first : FirstSets) (splitting : Splitting)
    (number : Nat) : Splitting :=
  { splitting with
    automaton := splitting.automaton.modify number fun state =>
      state.resetContexts grammar first }

/-- Append a copy of a state whose contexts are reset. -/
def clone (grammar : Grammar) (first : FirstSets) (splitting : Splitting)
    (prototype : Nat) : Splitting :=
  let copy := splitting.automaton.size
  let cloned :=
    { splitting with
      automaton := splitting.automaton.clone prototype
      families := splitting.families.add prototype copy
      counts :=
        { splitting.counts with clones := splitting.counts.clones + 1 } }
  cloned.reset grammar first copy

def countMerge (splitting : Splitting) : Splitting :=
  { splitting with
    counts :=
      { splitting.counts with merges := splitting.counts.merges + 1 } }

/-- The first copy of a state that has all arriving contexts. -/
def covering? (splitting : Splitting) (prototype : Nat)
    (incoming : List Configuration) : Option Nat :=
  (splitting.families.copiesOf prototype).find? fun copy =>
    (splitting.automaton.state copy).covers incoming

/-- Compute the contexts of all families anew from the transitions.  States
that have become unreachable no longer feed their successors. -/
def regenerate (grammar : Grammar) (first : FirstSets)
    (splitting : Splitting) : Except ConstructionError Splitting := do
  let detached :=
    { splitting with automaton := splitting.automaton.detachUnreachable }
  let cleared := splitting.families.members.foldl
    (reset grammar first) detached
  let (automaton, _) ← cleared.automaton.propagate grammar first
  return { cleared with automaton }

end Splitting

end LRTables
