import LRTables.Automaton.Item

/-!
# States and automata

A state is a list of configurations: items with the lookaheads on which they
may be reduced.  The core configurations come first, in increasing order of
their items; the others were added by closure.  States are numbered in order
of creation, and the start state is `0`.
-/

namespace LRTables

/-- A configuration, given by the number of its state and its index there. -/
structure Place where
  state : Nat
  index : Nat
  deriving DecidableEq, Hashable

/-- What lane tracing has noted about a configuration. -/
structure Marks where
  /-- The configuration is on the lane being traced. -/
  inLane : Bool
  /-- The context is final. -/
  complete : Bool
  /-- Some lookahead was generated here and not inherited. -/
  laneEnd : Bool
  /-- The configuration is on a lane of an unresolved conflict. -/
  onConflictLane : Bool
  deriving DecidableEq

namespace Marks

def none : Marks :=
  { inLane := false
    complete := false
    laneEnd := false
    onConflictLane := false }

end Marks

structure Configuration where
  item : Item
  /-- The lookaheads. -/
  context : TerminalSet
  /-- The configurations of the same state whose scanned nonterminal brought
  this one in. -/
  originators : List Nat
  /-- The configurations of parent states that became this one by a
  transition. -/
  transitors : List Place
  marks : Marks
  deriving DecidableEq

namespace Configuration

/-- A configuration without links and marks. -/
def ofItem (item : Item) (context : TerminalSet) : Configuration :=
  { item
    context
    originators := []
    transitors := []
    marks := .none }

instance : Inhabited Configuration :=
  ⟨ofItem .goal ∅⟩

end Configuration

structure State where
  /-- The symbol on which the state is entered. -/
  entry : Option Symbol
  configurations : Array Configuration
  coreCount : Nat
  /-- Transitions in order of creation. -/
  successors : List (Symbol × Nat)
  parents : List Nat
  /-- The state of which this one is a copy. -/
  cloneOf : Option Nat
  deriving DecidableEq

instance : Inhabited State :=
  ⟨{ entry := none
     configurations := #[]
     coreCount := 0
     successors := []
     parents := []
     cloneOf := none }⟩

namespace State

/-- A state with core configurations only. -/
def ofCores (entry : Option Symbol) (cores : List Configuration) : State :=
  { entry
    configurations := cores.toArray
    coreCount := cores.length
    successors := []
    parents := []
    cloneOf := none }

def configuration (state : State) (index : Nat) : Configuration :=
  state.configurations.getD index default

def modify (state : State) (index : Nat)
    (change : Configuration → Configuration) : State :=
  { state with configurations := state.configurations.modify index change }

/-- Change every configuration. -/
def mapConfigurations (state : State)
    (change : Configuration → Configuration) : State :=
  { state with configurations := state.configurations.map change }

/-- The core configurations. -/
def cores (state : State) : List Configuration :=
  state.configurations.toList.take state.coreCount

def coreContexts (state : State) : List TerminalSet :=
  state.cores.map Configuration.context

/-- The index of an item among all configurations. -/
def find? (state : State) (item : Item) : Option Nat :=
  state.configurations.findIdx? fun configuration =>
    configuration.item == item

/-- The index of an item among the core configurations. -/
def findCore? (state : State) (item : Item) : Option Nat :=
  (state.find? item).filter fun index => decide (index < state.coreCount)

/-- Whether the state has exactly these core items. -/
def hasCores (state : State) (cores : List Configuration) : Bool :=
  state.coreCount == cores.length &&
    state.cores.map Configuration.item == cores.map Configuration.item

/-- The indices of the configurations whose dot has reached the end. -/
def finals (grammar : Grammar) (state : State) : List Nat :=
  (List.range state.configurations.size).filter fun index =>
    (state.configuration index).item.isFinal grammar

def successor? (state : State) (symbol : Symbol) : Option Nat :=
  (state.successors.find? fun edge => edge.1 == symbol).map Prod.snd

end State

structure Automaton where
  states : Array State
  deriving DecidableEq

namespace Automaton

/-- The number of the start state. -/
def start : Nat := 0

def empty : Automaton :=
  { states := #[] }

def size (automaton : Automaton) : Nat :=
  automaton.states.size

def state (automaton : Automaton) (number : Nat) : State :=
  automaton.states.getD number default

def modify (automaton : Automaton) (number : Nat) (change : State → State) :
    Automaton :=
  { states := automaton.states.modify number change }

/-- Append a state; its number is the old size. -/
def add (automaton : Automaton) (state : State) : Automaton :=
  { states := automaton.states.push state }

def configuration (automaton : Automaton) (place : Place) : Configuration :=
  (automaton.state place.state).configuration place.index

def context (automaton : Automaton) (place : Place) : TerminalSet :=
  (automaton.configuration place).context

def modifyConfiguration (automaton : Automaton) (place : Place)
    (change : Configuration → Configuration) : Automaton :=
  automaton.modify place.state fun state => state.modify place.index change

/-- The state of which a state is a copy, or else the state itself. -/
def prototype (automaton : Automaton) (number : Nat) : Nat :=
  (automaton.state number).cloneOf.getD number

/-- The places of all configurations of a state. -/
def placesOf (automaton : Automaton) (number : Nat) : List Place :=
  (List.range (automaton.state number).configurations.size).map fun index =>
    { state := number
      index }

/-- The number of configurations in all states. -/
def configurationCount (automaton : Automaton) : Nat :=
  automaton.states.foldl
    (fun count state => count + state.configurations.size) 0

end Automaton

end LRTables
