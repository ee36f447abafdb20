import LRTables.Automaton.Links
import LRTables.FirstSets
import LRTables.Table.Conflict

/-!
# Conflict lanes

From the reductions of every unresolved reduce/reduce conflict, lanes are
followed backward through configurations whose context holds the conflicting
terminal.  The states on these lanes form the region that may be split.
-/

namespace LRTables

/-- The states on the lanes of conflicts. -/
structure Region where
  /-- For each state on a lane, the conflicting terminals of its lanes. -/
  terminals : List (Nat × TerminalSet)
  /-- The states in which a conflicting terminal is generated. -/
  heads : List Nat
  /-- For each state on a lane, its successors on a lane. -/
  onward : List (Nat × List Nat)
  deriving DecidableEq

namespace Region

def empty : Region :=
  { terminals := []
    heads := []
    onward := [] }

def isEmpty (region : Region) : Bool :=
  region.terminals.isEmpty

def states (region : Region) : List Nat :=
  region.terminals.map Prod.fst

def contains (region : Region) (state : Nat) : Bool :=
  region.states.contains state

/-- The conflicting terminals at a state. -/
def terminalsAt (region : Region) (state : Nat) : TerminalSet :=
  (Ordered.find? region.terminals state).getD ∅

/-- The successors of a state on a lane. -/
def onwardFrom (region : Region) (state : Nat) : List Nat :=
  (Ordered.find? region.onward state).getD []

end Region

namespace Automaton

/-- The reductions that compete in a conflict which precedence did not
settle. -/
def conflictSources (grammar : Grammar) (automaton : Automaton)
    (conflict : Conflict) : List (Place × Nat) :=
  match conflict.other with
  | .reduce other =>
    if conflict.byPrecedence then []
    else
      let places := ((automaton.state conflict.state).finals grammar).map
        fun index => ({ state := conflict.state, index } : Place)
      (places.filter fun place =>
        let configuration := automaton.configuration place
        (configuration.item.rule == conflict.reduce ||
            configuration.item.rule == other) &&
          configuration.context.contains conflict.lookahead).map
        fun place => (place, conflict.lookahead)
  | _ => []

/-- Whether a lane of a terminal can come from a place. -/
def holds (automaton : Automaton) (terminal : Nat) (place : Place) : Bool :=
  (automaton.context place).contains terminal

/-- The configurations of the same state that bring a configuration in. -/
def originatorsOf (automaton : Automaton) (place : Place) : List Place :=
  (automaton.configuration place).originators.map fun index =>
    { state := place.state
      index }

/-- One step backward along the lanes of a terminal. -/
def laneStep (grammar : Grammar) (first : FirstSets) (automaton : Automaton) :
    Place × Nat → List (Place × Nat)
  | (place, terminal) =>
    let configuration := automaton.configuration place
    let sources :=
      if configuration.item = .goal then []
      else if configuration.item.dot > 0 then configuration.transitors
      else
        (automaton.originatorsOf place).filter fun origin =>
          let item := (automaton.configuration origin).item
          (first.heads (item.tail grammar)).2
    (sources.filter (automaton.holds terminal)).map fun source =>
      (source, terminal)

/-- Whether a conflicting terminal is generated at a configuration. -/
def isLaneHead (grammar : Grammar) (first : FirstSets)
    (automaton : Automaton) (place : Place) (terminal : Nat) : Bool :=
  let configuration := automaton.configuration place
  if configuration.item = .goal then true
  else if configuration.item.dot > 0 then false
  else
    (automaton.originatorsOf place).any fun origin =>
      let item := (automaton.configuration origin).item
      (first.heads (item.tail grammar)).1.contains terminal

/-- The configurations and terminals on conflict lanes, in breadth-first
order. -/
def laneMembers (grammar : Grammar) (first : FirstSets)
    (automaton : Automaton) (log : ConflictLog) : List (Place × Nat) :=
  let sources := log.conflicts.toList.flatMap
    (automaton.conflictSources grammar)
  (discover (automaton.laneStep grammar first)
    (automaton.configurationCount * grammar.terminals.size) sources).toList

/-- Add a member of a conflict lane to the region. -/
def addToRegion (grammar : Grammar) (first : FirstSets)
    (automaton : Automaton) (region : Region) (member : Place × Nat) :
    Region :=
  let (place, terminal) := member
  let configuration := automaton.configuration place
  let crossed :=
    if configuration.item.dot > 0 then
      configuration.transitors.filter (automaton.holds terminal)
    else []
  { terminals := Ordered.update region.terminals place.state ∅
      fun set => set.insert terminal
    heads :=
      if automaton.isLaneHead grammar first place terminal then
        Ordered.insert region.heads place.state
      else region.heads
    onward := crossed.foldl
      (fun onward transitor =>
        Ordered.update onward transitor.state [] fun targets =>
          Ordered.insert targets place.state)
      region.onward }

/-- Mark the conflict lanes and find their region. -/
def markConflictLanes (grammar : Grammar) (first : FirstSets)
    (automaton : Automaton) (log : ConflictLog) : Automaton × Region :=
  let members := automaton.laneMembers grammar first log
  let marked := members.foldl
    (fun marked member =>
      marked.modifyConfiguration member.1 fun configuration =>
        { configuration with
          marks := { configuration.marks with onConflictLane := true } })
    automaton
  (marked,
    members.foldl (automaton.addToRegion grammar first) Region.empty)

end Automaton

end LRTables
