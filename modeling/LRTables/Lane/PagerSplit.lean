import LRTables.Automaton.SearchLimit
import LRTables.Lane.Family

/-!
# Splitting by weak compatibility

The transitions into the region are made again from its predecessors onward.
A transition keeps its target if that has all arriving contexts; otherwise it
goes to a copy that has them, else to a weakly compatible copy, else to a new
one.
-/

namespace LRTables

/-- A split with the states whose transitions are to be made again. -/
structure PagerSplitting where
  splitting : Splitting
  queue : WorkQueue Nat

namespace PagerSplitting

/-- Contexts are reset throughout the region.  Its predecessors wait first,
then its own states. -/
def begin (grammar : Grammar) (first : FirstSets) (automaton : Automaton)
    (region : Region) : PagerSplitting :=
  let splitting := region.states.foldl (Splitting.reset grammar first)
    (Splitting.begin automaton region)
  let parents := region.states.flatMap fun number =>
    (splitting.automaton.state number).parents
  { splitting
    queue := .ofList (parents ++ region.states) }

/-- Choose the copy to which a transition goes whose target lacks some of the
arriving contexts. -/
def choose (grammar : Grammar) (first : FirstSets) (splitting : Splitting)
    (current : Nat) (incoming : List Configuration) : Nat × Splitting :=
  let prototype := splitting.automaton.prototype current
  match splitting.covering? prototype incoming with
  | some target => (target, splitting)
  | none =>
    let arriving := incoming.map Configuration.context
    let candidates := current :: splitting.families.copiesOf prototype
    let compatible := candidates.find? fun candidate =>
      weaklyCompatible
        ((splitting.automaton.state candidate).coreContexts.zip arriving)
    match compatible with
    | some target => (target, splitting.countMerge)
    | none =>
      (splitting.automaton.size, splitting.clone grammar first prototype)

/-- Make one transition again. -/
def remake (grammar : Grammar) (first : FirstSets) (source : Nat)
    (pager : PagerSplitting) (edge : Symbol × Nat) : PagerSplitting :=
  let (symbol, current) := edge
  let automaton := pager.splitting.automaton
  let incoming :=
    (automaton.state source).successorCores grammar true symbol
  if (automaton.state current).covers incoming then pager
  else
    let (target, splitting) :=
      choose grammar first pager.splitting current incoming
    let (merged, grown) :=
      splitting.automaton.absorb grammar first target incoming
    let queue := if grown then pager.queue.push target else pager.queue
    if target = current then
      { splitting := { splitting with automaton := merged }
        queue }
    else
      { splitting :=
          { splitting with automaton := merged.relink source symbol target }
        queue := queue.push target }

/-- Make the transitions of a state into the region again.  A state that has
lost all its parents is passed over. -/
def remakeAll (grammar : Grammar) (first : FirstSets) (region : Region)
    (pager : PagerSplitting) (number : Nat) : PagerSplitting :=
  let automaton := pager.splitting.automaton
  let state := automaton.state number
  if number ≠ Automaton.start ∧ state.parents = [] then pager
  else
    let edges := state.successors.filter fun edge =>
      region.contains (automaton.prototype edge.2)
    edges.foldl (remake grammar first number) pager

/-- Work off the waiting states, at most `limit` of them. -/
def run (grammar : Grammar) (first : FirstSets) (region : Region) :
    (limit : Nat) → PagerSplitting → Except ConstructionError Splitting
  | 0, _ => .error .unfinished
  | limit + 1, pager =>
    match pager.queue.pop with
    | none => .ok pager.splitting
    | some (number, queue) =>
      run grammar first region limit
        (remakeAll grammar first region { pager with queue } number)

/-- Each state waits at first, once more whenever it has grown, and once more
whenever a transition is redirected to it. -/
def stepBound (grammar : Grammar) (automaton : Automaton) : Nat :=
  (automaton.size + grammar.stateBound) * (grammar.growthBound + 1) *
      (grammar.columnCount + 2) +
    2 * automaton.size + 1

end PagerSplitting

namespace Region

/-- Split a region by weak compatibility. -/
def splitByPager (grammar : Grammar) (first : FirstSets)
    (automaton : Automaton) (region : Region) :
    Except ConstructionError Splitting :=
  PagerSplitting.run grammar first region
    (PagerSplitting.stepBound grammar automaton)
    (PagerSplitting.begin grammar first automaton region)

end Region

end LRTables
