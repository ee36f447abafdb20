import LRTables.Automaton.Merging
import LRTables.ConstructionError

/-!
# Propagation of lookaheads

Lookaheads are pushed along the transitions of a finished state graph until
no context grows any more.
-/

namespace LRTables

/-- A propagation in progress. -/
structure Propagating where
  automaton : Automaton
  queue : WorkQueue Nat
  /-- How often a state has grown. -/
  updates : Nat

namespace Propagating

/-- Add arriving contexts to the matching core configurations of a state. -/
def deliver (number : Nat) :
    State → List Configuration → Except ConstructionError State
  | state, [] => .ok state
  | state, arriving :: rest =>
    match state.findCore? arriving.item with
    | none =>
      .error (.missingCore number arriving.item.rule arriving.item.dot)
    | some index =>
      deliver number
        (state.modify index fun configuration =>
          { configuration with
            context := configuration.context ∪ arriving.context })
        rest

/-- Push the contexts of a state along one transition. -/
def pushAlong (grammar : Grammar) (first : FirstSets) (source : Nat)
    (propagating : Propagating) (edge : Symbol × Nat) :
    Except ConstructionError Propagating := do
  let (symbol, target) := edge
  let automaton := propagating.automaton
  let incoming :=
    (automaton.state source).successorCores grammar true symbol
  let before := automaton.state target
  let after ← deliver target before incoming
  if after.coreContexts == before.coreContexts then return propagating
  return {
    automaton := automaton.modify target fun _ =>
      (after.close grammar first true).1
    queue := propagating.queue.push target
    updates := propagating.updates + 1 }

/-- Push the contexts of waiting states, at most `limit` times. -/
def run (grammar : Grammar) (first : FirstSets) :
    (limit : Nat) → Propagating → Except ConstructionError Propagating
  | 0, _ => .error .unfinished
  | limit + 1, propagating =>
    match propagating.queue.pop with
    | none => .ok propagating
    | some (number, queue) => do
      let edges := (propagating.automaton.state number).successors
      let next ← edges.foldlM (pushAlong grammar first number)
        { propagating with queue }
      run grammar first limit next

end Propagating

namespace Automaton

/-- A state waits once at first and once more each time it has grown. -/
def propagationLimit (grammar : Grammar) (automaton : Automaton) : Nat :=
  let width := automaton.states.foldl
    (fun width state => max width (state.contextWidth grammar)) 0
  automaton.size + automaton.configurationCount * width + 1

/-- Push all contexts forward.  The second component counts the updates. -/
def propagate (grammar : Grammar) (first : FirstSets)
    (automaton : Automaton) : Except ConstructionError (Automaton × Nat) := do
  let done ← Propagating.run grammar first
    (automaton.propagationLimit grammar)
    { automaton
      queue := .ofList (List.range automaton.size)
      updates := 0 }
  return (done.automaton, done.updates)

end Automaton

end LRTables
