import LRTables.Automaton.Links
import LRTables.ConstructionError
import LRTables.Grammar.Text
import LRTables.Table.Basic

/-!
# Filling the table

The row of a state holds its transitions, then its reductions.  A reduction
that meets another action is a conflict, settled by precedence, by the order of
rules, or else in favour of the shift.
-/

namespace LRTables

/-- What precedence says about a shift and a reduction. -/
inductive Preference where
  | shift
  | reduce
  deriving DecidableEq

namespace Grammar

/-- Compare the precedence of a rule with that of the terminal to be shifted.
Without both there is no preference. -/
def preference? (grammar : Grammar) (terminal rule : Nat) :
    Option Preference := do
  let shifted ← grammar.terminalPrecedence terminal
  let reduced ← grammar.rulePrecedence rule
  if reduced.priority > shifted.priority then return .reduce
  if reduced.priority < shifted.priority then return .shift
  match shifted.associativity with
  | .left => return .reduce
  | .right => return .shift
  | .nonassoc => return .shift

end Grammar

/-- A row in the making, with the log of the whole table. -/
structure RowFilling where
  row : Array Action
  log : ConflictLog

namespace RowFilling

def cell (filling : RowFilling) (column : Nat) : Action :=
  filling.row.getD column .error

def set (filling : RowFilling) (column : Nat) (action : Action) :
    RowFilling :=
  { filling with row := filling.row.setIfInBounds column action }

/-- Enter a decision and log the conflict that led to it. -/
def decide (filling : RowFilling) (conflict : Conflict) : RowFilling :=
  { row := filling.row.setIfInBounds conflict.lookahead conflict.decision
    log := filling.log.record conflict }

/-- Enter a transition.  The goal symbol has no column. -/
def addTransition (grammar : Grammar) (filling : RowFilling)
    (edge : Symbol × Nat) : RowFilling :=
  match grammar.columnOf edge.1 with
  | none => filling
  | some column =>
    filling.set column
      (if column < grammar.terminals.size then .shift edge.2
      else .goto edge.2)

/-- Enter acceptance.  Only without lookaheads does it replace a reduction. -/
def addAccept (anyLookahead : Bool) (state : Nat) (filling : RowFilling) :
    Except ConstructionError RowFilling :=
  let column := Terminal.endOfInput
  match filling.cell column with
  | .reduce rule =>
    if anyLookahead then
      .ok (filling.decide
        { state
          lookahead := column
          reduce := rule
          other := .accept
          decision := .accept
          byPrecedence := false })
    else .error (.acceptReduceClash state rule)
  | _ => .ok (filling.set column .accept)

/-- Enter a reduction on one terminal. -/
def addReduce (grammar : Grammar) (anyLookahead : Bool) (state rule : Nat)
    (filling : RowFilling) (terminal : Nat) :
    Except ConstructionError RowFilling :=
  let current := filling.cell terminal
  let settle (decision : Action) (byPrecedence : Bool) :=
    filling.decide
      { state
        lookahead := terminal
        reduce := rule
        other := current
        decision
        byPrecedence }
  match current with
  | .error => .ok (filling.set terminal (.reduce rule))
  | .reduce other =>
    if other = rule then .ok filling
    else .ok (settle (.reduce (min other rule)) false)
  | .accept =>
    if anyLookahead then .ok (settle .accept false)
    else .error (.acceptReduceClash state rule)
  | .shift _ =>
    match grammar.preference? terminal rule with
    | some .reduce => .ok (settle (.reduce rule) true)
    | some .shift => .ok (settle current true)
    | none => .ok (settle current false)
  | .goto _ => .ok filling

/-- Enter the reduction of a final configuration. -/
def addFinal (grammar : Grammar) (anyLookahead : Bool) (state : Nat)
    (filling : RowFilling) (configuration : Configuration) :
    Except ConstructionError RowFilling :=
  let rule := configuration.item.rule
  if rule = goalRule then
    if anyLookahead || configuration.context.contains Terminal.endOfInput then
      filling.addAccept anyLookahead state
    else .ok filling
  else
    let lookaheads :=
      if anyLookahead then List.range grammar.terminals.size
      else configuration.context.toList
    lookaheads.foldlM (addReduce grammar anyLookahead state rule) filling

/-- The row of a state. -/
def ofState (grammar : Grammar) (anyLookahead : Bool) (number : Nat)
    (state : State) (log : ConflictLog) :
    Except ConstructionError RowFilling :=
  let blank : RowFilling :=
    { row := Array.replicate grammar.columnCount .error
      log }
  let transitions := state.successors.foldl (addTransition grammar) blank
  let finals := (state.finals grammar).map state.configuration
  finals.foldlM (addFinal grammar anyLookahead number) transitions

end RowFilling

namespace Table

/-- The rule of a row that does nothing but reduce by it. -/
def soleReduction? (terminalCount : Nat) (row : Array Action) : Option Nat :=
  let actions := row.toList
  if (actions.drop terminalCount).any (· != .error) then none
  else
    match (actions.take terminalCount).filter (· != .error) with
    | .reduce rule :: others =>
      if others.all (· == .reduce rule) then some rule else none
    | _ => none

/-- Fill the rows of the given states in order; a state that is not reachable
keeps an empty row. -/
def fillRows (grammar : Grammar) (anyLookahead : Bool)
    (automaton : Automaton) (reachable : Array Bool) :
    Except ConstructionError (Array (Array Action) × ConflictLog) :=
  (List.range automaton.size).foldlM
    (fun (rows, log) number =>
      if reachable.getD number false then do
        let filling ← RowFilling.ofState grammar anyLookahead number
          (automaton.state number) log
        return (rows.push filling.row, filling.log)
      else
        return (rows.push (Array.replicate grammar.columnCount .error), log))
    (#[], ConflictLog.empty)

/-- The table of an automaton.  With `anyLookahead`, reductions are entered
under every terminal, whatever the contexts say. -/
def ofAutomaton (grammar : Grammar) (automaton : Automaton)
    (anyLookahead : Bool) : Except ConstructionError Table := do
  let (rows, log) ← fillRows grammar anyLookahead automaton
    automaton.reachable
  return {
    columns := (grammar.columns.map grammar.symbolText).toArray
    terminalCount := grammar.terminals.size
    rules := grammar.rules.map fun rule =>
      { column := grammar.columnOf (.nonterminal rule.left)
        length := rule.right.length
        hasCode := rule.hasCode }
    rows
    finals := ((List.range rows.size).filterMap fun number =>
      (soleReduction? grammar.terminals.size (rows.getD number #[])).map
        fun rule => (number, rule)).toArray
    log }

end Table

end LRTables
