import LRTables.Automaton.Closure

/-!
# Merging states with the same core items

When the lookaheads that arrive at a state may join those already there.
-/

namespace LRTables

/-- How states with the same core items are told apart. -/
inductive Precision where
  /-- Lookaheads are not tracked. -/
  | lr0
  /-- States with different lookaheads are different. -/
  | canonical
  /-- States are merged when that is weakly compatible. -/
  | pager
  deriving DecidableEq

namespace Precision

def tracksContexts : Precision → Bool
  | .lr0 => false
  | .canonical => true
  | .pager => true

end Precision

inductive Compatibility where
  | same
  | compatible
  | incompatible
  deriving DecidableEq

/-- Whether joining two pairs of contexts brings no new overlap: either one
side overlaps already, or nothing overlaps across. -/
def joinsCleanly (here there : TerminalSet × TerminalSet) : Bool :=
  !here.1.isDisjoint there.1 || !here.2.isDisjoint there.2 ||
    here.1.isDisjoint there.2 && there.1.isDisjoint here.2

/-- Weak compatibility of two lists of contexts, given entry by entry: no two
entries come to overlap by the merge alone. -/
def weaklyCompatible : List (TerminalSet × TerminalSet) → Bool
  | [] => true
  | entry :: rest => rest.all (joinsCleanly entry) && weaklyCompatible rest

namespace State

/-- Compare arriving core configurations with a state of the same items. -/
def compare (precision : Precision) (state : State)
    (incoming : List Configuration) : Compatibility :=
  let arriving := incoming.map Configuration.context
  if state.coreContexts == arriving then .same
  else
    match precision with
    | .lr0 => .same
    | .canonical => .incompatible
    | .pager =>
      if weaklyCompatible (state.coreContexts.zip arriving) then .compatible
      else .incompatible

/-- Whether every arriving context is already in the state. -/
def covers (state : State) (incoming : List Configuration) : Bool :=
  (state.coreContexts.zip incoming).all fun entry =>
    entry.2.context.isSubset entry.1

/-- Add contexts to those of the first configurations, entry by entry. -/
def joinContexts (state : State) (contexts : List TerminalSet) : State :=
  { state with
    configurations := state.configurations.mapIdx
      fun index (configuration : Configuration) =>
        { configuration with
          context := configuration.context ∪ contexts.getD index ∅ } }

/-- Add the arriving contexts and close the state again if one has grown. -/
def absorb (grammar : Grammar) (first : FirstSets) (state : State)
    (incoming : List Configuration) : State × Bool :=
  if state.covers incoming then (state, false)
  else
    let joined := state.joinContexts (incoming.map Configuration.context)
    ((joined.close grammar first true).1, true)

end State

namespace Automaton

/-- Merge arriving core configurations into a state.  The second component
tells whether a context has grown. -/
def absorb (grammar : Grammar) (first : FirstSets) (automaton : Automaton)
    (number : Nat) (incoming : List Configuration) : Automaton × Bool :=
  let (state, grown) :=
    (automaton.state number).absorb grammar first incoming
  if grown then (automaton.modify number fun _ => state, true)
  else (automaton, false)

end Automaton

end LRTables
