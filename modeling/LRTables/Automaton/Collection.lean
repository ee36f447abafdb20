import LRTables.Automaton.Links
import LRTables.Automaton.Merging
import LRTables.Automaton.SearchLimit

/-!
# The collection of states

States are found from the start state onward.  The successor of a state on a
symbol is an old state with the same core items, if the chosen precision
allows, or else a new one.  A merge that enlarges the contexts of a state that
has been expanded makes it wait for expansion again.
-/

namespace LRTables

/-- A collection of states in the making. -/
structure Collecting where
  automaton : Automaton
  /-- States to be expanded. -/
  queue : WorkQueue Nat
  /-- For each state, whether it has been expanded before. -/
  expanded : Array Bool

/-- Where a transition is to lead. -/
inductive Target where
  /-- A state that has all arriving contexts already. -/
  | same (state : Nat)
  /-- A state that the arriving contexts may join. -/
  | joined (state : Nat)
  | new
  deriving DecidableEq

namespace Automaton

/-- The states with given core items, oldest first. -/
def withCores (automaton : Automaton) (cores : List Configuration) :
    List Nat :=
  (List.range automaton.size).filter fun number =>
    (automaton.state number).hasCores cores

/-- A state with the same contexts wins over the oldest compatible one. -/
def findTarget (automaton : Automaton) (precision : Precision)
    (cores : List Configuration) : Target :=
  let candidates := (automaton.withCores cores).map fun number =>
    (number, (automaton.state number).compare precision cores)
  match candidates.find? fun candidate => candidate.2 == .same with
  | some (number, _) => .same number
  | none =>
    match candidates.find? fun candidate => candidate.2 == .compatible with
    | some (number, _) => .joined number
    | none => .new

end Automaton

namespace Collecting

/-- The start state alone, closed and waiting. -/
def begin (grammar : Grammar) (first : FirstSets) (precision : Precision) :
    Collecting :=
  let contexts := precision.tracksContexts
  let context : TerminalSet :=
    if contexts then .singleton Terminal.endOfInput else ∅
  let state := State.ofCores none [Configuration.ofItem .goal context]
  { automaton := Automaton.empty.add (state.close grammar first contexts).1
    queue := WorkQueue.empty.push Automaton.start
    expanded := #[false] }

/-- Make the transition of a state on one symbol. -/
def addTransition (grammar : Grammar) (first : FirstSets)
    (precision : Precision) (source : Nat) (collecting : Collecting)
    (symbol : Symbol) : Collecting :=
  let contexts := precision.tracksContexts
  let automaton := collecting.automaton
  let cores :=
    (automaton.state source).successorCores grammar contexts symbol
  match automaton.findTarget precision cores with
  | .same target =>
    { collecting with automaton := automaton.relink source symbol target }
  | .joined target =>
    let (merged, grown) := automaton.absorb grammar first target cores
    { collecting with
      automaton := merged.relink source symbol target
      queue :=
        if grown && collecting.expanded.getD target false then
          collecting.queue.push target
        else collecting.queue }
  | .new =>
    let target := automaton.size
    let state := State.ofCores (some symbol) cores
    let grown := automaton.add (state.close grammar first contexts).1
    { automaton := grown.relink source symbol target
      queue := collecting.queue.push target
      expanded := collecting.expanded.push false }

/-- Make all transitions of a state. -/
def expand (grammar : Grammar) (first : FirstSets) (precision : Precision)
    (collecting : Collecting) (number : Nat) : Collecting :=
  let symbols := (collecting.automaton.state number).scannedSymbols grammar
  symbols.foldl (addTransition grammar first precision number)
    { collecting with
      expanded := collecting.expanded.setIfInBounds number true }

/-- Expand waiting states until none is left, at most `limit` times. -/
def run (grammar : Grammar) (first : FirstSets) (precision : Precision) :
    (limit : Nat) → Collecting → Option Automaton
  | 0, _ => none
  | limit + 1, collecting =>
    match collecting.queue.pop with
    | none => some collecting.automaton
    | some (number, queue) =>
      run grammar first precision limit
        (expand grammar first precision { collecting with queue } number)

end Collecting

namespace Automaton

/-- The automaton of a grammar at a given precision.  `none` stands for a
search stopped by its limit. -/
def collect? (grammar : Grammar) (first : FirstSets) (precision : Precision) :
    Option Automaton :=
  (Collecting.run grammar first precision grammar.collectionLimit
    (Collecting.begin grammar first precision)).map detachUnreachable

end Automaton

end LRTables
