import LRTables.Automaton.Basic
import LRTables.Discovery
import LRTables.Ordered

/-!
# Transitions

Every transition is kept three times: among the successors of its source,
among the parents of its target, and, configuration by configuration, among
the transitors of its target.  The operations here change all three together.
-/

namespace LRTables

namespace State

/-- Forget a parent and the transitors that lie in it. -/
def dropParent (state : State) (parent : Nat) : State :=
  let kept := state.mapConfigurations fun configuration =>
    { configuration with
      transitors := configuration.transitors.filter fun place =>
        place.state != parent }
  { kept with parents := kept.parents.filter (· != parent) }

end State

namespace Automaton

/-- The configuration of `source` that becomes `item` by a transition. -/
def predecessor? (source : State) (item : Item) : Option Nat :=
  match item.dot with
  | 0 => none
  | dot + 1 => source.find? { item with dot }

/-- Add the transitors that lie in the state `number`. -/
def addTransitors (number : Nat) (source : State) (target : State) : State :=
  { target with
    configurations := target.configurations.mapIdx fun index configuration =>
      if index < target.coreCount then
        match predecessor? source configuration.item with
        | none => configuration
        | some origin =>
          { configuration with
            transitors := Ordered.insert configuration.transitors
              { state := number
                index := origin } }
      else configuration }

/-- Add a transition, or redirect it in the successors alone. -/
def link (automaton : Automaton) (source : Nat) (symbol : Symbol)
    (target : Nat) : Automaton :=
  let automaton := automaton.modify source fun state =>
    { state with successors := Ordered.put state.successors symbol target }
  let sourceState := automaton.state source
  automaton.modify target fun state =>
    addTransitors source sourceState
      { state with parents := Ordered.insert state.parents source }

/-- Redirect a transition, so that its old target forgets the source. -/
def relink (automaton : Automaton) (source : Nat) (symbol : Symbol)
    (target : Nat) : Automaton :=
  match (automaton.state source).successor? symbol with
  | none => automaton.link source symbol target
  | some old =>
    if old = target then automaton
    else
      (automaton.modify old fun state => state.dropParent source).link
        source symbol target

/-- Append a copy of a state with the same configurations and successors but
without parents. -/
def clone (automaton : Automaton) (number : Nat) : Automaton :=
  let source := automaton.state number
  let bare := source.mapConfigurations fun configuration =>
    { configuration with
      transitors := []
      marks := .none }
  let copy :=
    { bare with
      successors := []
      parents := []
      cloneOf := some (automaton.prototype number) }
  source.successors.foldl
    (fun grown edge => grown.link automaton.size edge.1 edge.2)
    (automaton.add copy)

/-- For each state, whether the start state reaches it. -/
def reachable (automaton : Automaton) : Array Bool :=
  let targets (number : Nat) :=
    (automaton.state number).successors.map Prod.snd
  (discover targets automaton.size [start]).foldl
    (fun flags number => flags.setIfInBounds number true)
    (Array.replicate automaton.size false)

/-- The numbers of the reachable states. -/
def reachableStates (automaton : Automaton) : List Nat :=
  let reachable := automaton.reachable
  (List.range automaton.size).filter fun number =>
    reachable.getD number false

/-- Cut every unreachable state off: it loses its transitions, and the states
that it led to forget it. -/
def detachUnreachable (automaton : Automaton) : Automaton :=
  let reachable := automaton.reachable
  let isKept (number : Nat) := reachable.getD number false
  { states := automaton.states.mapIdx fun number state =>
      let kept := state.mapConfigurations fun configuration =>
        { configuration with
          transitors := configuration.transitors.filter fun place =>
            isKept place.state }
      { kept with
        successors := if isKept number then kept.successors else []
        parents := kept.parents.filter isKept } }

end Automaton

end LRTables
