import LRTables.Grammar.Basic
import LRTables.Table.Basic

/-!
# Parsing with a table

A parser is a stack of states.  Each step looks at the next token and shifts
it, reduces by a rule, accepts, or fails.
-/

namespace LRTables

/-- What a table tells a parser to do. -/
inductive ParseAction where
  | shift (state : Nat)
  /-- Take `length` states off the stack, then go on under `column`. -/
  | reduce (rule column length : Nat)
  | accept
  | error
  deriving DecidableEq

namespace Table

/-- The action of a state on a lookahead; `none` is the end of input. -/
def action (table : Table) (state : Nat) (lookahead : Option Nat) :
    ParseAction :=
  let column := lookahead.getD Terminal.endOfInput
  if column < table.terminalCount then
    match table.cell state column with
    | .shift next => .shift next
    | .reduce rule =>
      match table.rules[rule]? with
      | some { column := some left, length, .. } => .reduce rule left length
      | _ => .error
    | .accept => .accept
    | .goto _ => .error
    | .error => .error
  else .error

/-- The state entered after a reduction to the symbol of a column. -/
def goto? (table : Table) (state column : Nat) : Option Nat :=
  match table.cell state column with
  | .goto next => some next
  | _ => none

end Table

/-- What a step has done. -/
inductive ParseEvent where
  /-- The lookahead was consumed. -/
  | shift (state : Nat)
  | reduce (rule : Nat)
  | accept
  deriving DecidableEq

inductive StepError where
  /-- There is no action on the lookahead. -/
  | unexpected
  | stackUnderflow (length depth : Nat)
  | missingGoto
  | alreadyAccepted
  deriving DecidableEq

namespace StepError

def message : StepError → String
  | .unexpected => "syntax error"
  | .stackUnderflow length depth =>
    "cannot pop " ++ toString length ++ " states from a stack of depth " ++
      toString depth
  | .missingGoto => "no goto entry after the reduction"
  | .alreadyAccepted => "the input has already been accepted"

end StepError

structure Parser where
  /-- The states, topmost first. -/
  stack : List Nat
  accepted : Bool
  deriving DecidableEq

namespace Parser

def begin : Parser :=
  { stack := [0]
    accepted := false }

/-- Replace `length` states by the state entered under `column`.  The lowest
state always stays.  When there is no state to enter, those taken off are not
put back. -/
def reduce (table : Table) (parser : Parser) (rule column length : Nat) :
    Except StepError ParseEvent × Parser :=
  let depth := parser.stack.length
  match parser.stack.drop length with
  | [] => (.error (.stackUnderflow length depth), parser)
  | top :: rest =>
    match table.goto? top column with
    | some next =>
      (.ok (.reduce rule), { parser with stack := next :: top :: rest })
    | none => (.error .missingGoto, { parser with stack := top :: rest })

/-- Take one action on a lookahead. -/
def step (table : Table) (parser : Parser) (lookahead : Option Nat) :
    Except StepError ParseEvent × Parser :=
  if parser.accepted then (.error .alreadyAccepted, parser)
  else
    match parser.stack with
    | [] => (.error (.stackUnderflow 1 0), parser)
    | current :: _ =>
      match table.action current lookahead with
      | .shift next =>
        (.ok (.shift next), { parser with stack := next :: parser.stack })
      | .reduce rule column length => parser.reduce table rule column length
      | .accept => (.ok .accept, { parser with accepted := true })
      | .error => (.error .unexpected, parser)

end Parser

/-- Why a token sequence is not parsed. -/
inductive ParseError where
  | lexer (message : String)
  | step (consumed : Nat) (error : StepError)
  deriving DecidableEq

namespace ParseError

def message : ParseError → String
  | .lexer message => "from lexer: " ++ message
  | .step consumed error =>
    "after " ++ toString consumed ++ " tokens: " ++ error.message

end ParseError

/-- A parse in progress. -/
structure Parse where
  parser : Parser
  /-- Tokens to come; a lexer error stands for the rest of the input. -/
  tokens : List (Except String Nat)
  consumed : Nat
  /-- The rules of the reductions so far, latest first. -/
  reductions : List Nat

namespace Parse

def begin (tokens : List (Except String Nat)) : Parse :=
  { parser := Parser.begin
    tokens
    consumed := 0
    reductions := [] }

/-- Parse until the input is accepted or an error is found, in at most `limit`
steps.  `none` tells that these did not suffice. -/
def run (table : Table) :
    (limit : Nat) → Parse → Option (Except ParseError (List Nat))
  | 0, _ => none
  | limit + 1, parse =>
    match parse.tokens with
    | .error message :: _ => some (.error (.lexer message))
    | tokens =>
      let lookahead :=
        match tokens with
        | .ok column :: _ => some column
        | _ => none
      let (event, parser) := parse.parser.step table lookahead
      match event with
      | .error error => some (.error (.step parse.consumed error))
      | .ok .accept => some (.ok parse.reductions.reverse)
      | .ok (.reduce rule) =>
        run table limit
          { parse with
            parser
            reductions := rule :: parse.reductions }
      | .ok (.shift _) =>
        run table limit
          { parse with
            parser
            tokens := tokens.tail
            consumed := parse.consumed + 1 }

end Parse

namespace Table

/-- The rules of the reductions of a token sequence, in the order in which
they are made. -/
def parseWithin (table : Table) (limit : Nat)
    (tokens : List (Except String Nat)) :
    Option (Except ParseError (List Nat)) :=
  Parse.run table limit (Parse.begin tokens)

end Table

end LRTables
