import LRTables.Automaton.Basic
import LRTables.FirstSets
import LRTables.Ordered
import LRTables.WorkQueue

/-!
# Closure and transitions of a state

Closing a state adds the rules of every scanned nonterminal.  An added
configuration inherits the terminals that can follow the nonterminal; when the
context of a configuration grows, it is expanded again.
-/

namespace LRTables

/-- A state in the course of being closed. -/
structure Closing where
  state : State
  /-- Configurations still to be expanded. -/
  queue : WorkQueue Nat
  /-- Whether a configuration was added or a context has grown. -/
  changed : Bool

namespace Closing

/-- Bring in the start of a rule on behalf of the configuration `origin`,
which passes on the lookaheads `generated`. -/
def addRule (origin : Nat) (generated : TerminalSet) (closing : Closing)
    (rule : Nat) : Closing :=
  let item : Item := { rule, dot := 0 }
  match closing.state.find? item with
  | none =>
    let added :=
      { Configuration.ofItem item generated with originators := [origin] }
    { state :=
        { closing.state with
          configurations := closing.state.configurations.push added }
      queue := closing.queue.push closing.state.configurations.size
      changed := true }
  | some index =>
    let grows :=
      !generated.isSubset (closing.state.configuration index).context
    { state := closing.state.modify index fun configuration =>
        { configuration with
          context := configuration.context ∪ generated
          originators := Ordered.insert configuration.originators origin }
      queue := if grows then closing.queue.push index else closing.queue
      changed := closing.changed || grows }

/-- The lookaheads that a configuration passes on to the rules of the
nonterminal in front of `tail`. -/
def generated (first : FirstSets) (contexts : Bool) (context : TerminalSet)
    (tail : List Symbol) : TerminalSet :=
  if contexts then
    match first.heads tail with
    | (heads, true) => heads ∪ context
    | (heads, false) => heads
  else ∅

/-- Bring in the rules of the nonterminal that a configuration scans. -/
def expand (grammar : Grammar) (first : FirstSets) (contexts : Bool)
    (closing : Closing) (index : Nat) : Closing :=
  let configuration := closing.state.configuration index
  match configuration.item.rest grammar with
  | .nonterminal scanned :: tail =>
    (grammar.rulesOf scanned).foldl
      (addRule index (generated first contexts configuration.context tail))
      closing
  | _ => closing

/-- Expand waiting configurations, at most `limit` times. -/
def run (grammar : Grammar) (first : FirstSets) (contexts : Bool) :
    (limit : Nat) → Closing → Closing
  | 0, closing => closing
  | limit + 1, closing =>
    match closing.queue.pop with
    | none => closing
    | some (index, queue) =>
      run grammar first contexts limit
        (expand grammar first contexts { closing with queue } index)

end Closing

namespace State

/-- One more than the largest terminal that can turn up in a context. -/
def contextWidth (grammar : Grammar) (state : State) : Nat :=
  state.configurations.foldl
    (fun width configuration => max width configuration.context.bound)
    grammar.terminals.size

/-- A configuration is expanded once, and once more for each terminal that
its context gains. -/
def closingLimit (grammar : Grammar) (state : State) : Nat :=
  (state.configurations.size + grammar.rules.size) *
    (state.contextWidth grammar + 1)

/-- Close a state.  Without `contexts` no lookaheads are passed on.  The second
component tells whether anything has changed. -/
def close (grammar : Grammar) (first : FirstSets) (contexts : Bool)
    (state : State) : State × Bool :=
  let closing := Closing.run grammar first contexts
    (state.closingLimit grammar)
    { state
      queue := .ofList (List.range state.configurations.size)
      changed := false }
  (closing.state, closing.changed)

/-- The symbols on which a state has a transition, in order of appearance. -/
def scannedSymbols (grammar : Grammar) (state : State) : List Symbol :=
  (state.configurations.toList.filterMap fun configuration =>
    configuration.item.scanned grammar).foldl Ordered.insert []

/-- The core configurations of the successor on a symbol. -/
def successorCores (grammar : Grammar) (contexts : Bool) (state : State)
    (symbol : Symbol) : List Configuration :=
  let scanning := state.configurations.toList.filter fun configuration =>
    configuration.item.scanned grammar == some symbol
  let advanced := scanning.map fun configuration =>
    Configuration.ofItem configuration.item.advance
      (if contexts then configuration.context else ∅)
  advanced.mergeSort fun left right => left.item.precedes right.item

end State

end LRTables
