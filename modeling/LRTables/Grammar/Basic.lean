import LRTables.TerminalSet

/-!
# Context-free grammars

Terminals, nonterminals and rules are numbered from zero without gaps.  The
terminal `0` is the end of input and the terminal `1` the error token; the
nonterminal `0` is the goal symbol, whose only use is the goal rule `0`.
-/

namespace LRTables

/-- A grammar symbol, given by its number among the symbols of its kind. -/
inductive Symbol where
  | terminal (index : Nat)
  | nonterminal (index : Nat)
  deriving DecidableEq, Hashable

inductive Associativity where
  | left
  | right
  | nonassoc
  deriving DecidableEq

/-- A binding strength, and what to do between two operators of that strength.
A higher priority binds tighter. -/
structure Precedence where
  priority : Nat
  associativity : Associativity
  deriving DecidableEq

structure Terminal where
  name : String
  precedence : Option Precedence
  quoted : Bool
  deriving DecidableEq

namespace Terminal

/-- The number of the terminal that stands for the end of input. -/
def endOfInput : Nat := 0

/-- The number of the error token. -/
def errorToken : Nat := 1

/-- Terminal numbers lie below this bound. -/
def numberBound : Nat := 65536

end Terminal

/-- The number of the goal symbol among the nonterminals. -/
def goalSymbol : Nat := 0

/-- The number of the goal rule, which expands the goal symbol to the start
symbol. -/
def goalRule : Nat := 0

structure Rule where
  left : Nat
  right : List Symbol
  /-- The terminal whose precedence replaces the default one. -/
  override : Option Nat
  hasCode : Bool
  deriving DecidableEq

namespace Rule

/-- The terminal that gives the rule its precedence: the override, or else the
last terminal of the right-hand side. -/
def precedenceTerminal (rule : Rule) : Option Nat :=
  rule.override <|> rule.right.reverse.findSome? fun symbol =>
    match symbol with
    | .terminal index => some index
    | .nonterminal _ => none

end Rule

structure Grammar where
  terminals : Array Terminal
  nonterminals : Array String
  rules : Array Rule
  start : Nat
  /-- The number of shift/reduce conflicts that the author tolerates. -/
  expect : Option Nat
  deriving DecidableEq

namespace Grammar

/-- The nonterminal that a rule expands. -/
def left (grammar : Grammar) (rule : Nat) : Nat :=
  (grammar.rules[rule]?).elim goalSymbol Rule.left

/-- The symbols that a rule puts in place of its nonterminal. -/
def right (grammar : Grammar) (rule : Nat) : List Symbol :=
  (grammar.rules[rule]?).elim [] Rule.right

/-- The rules of a nonterminal, in order of declaration. -/
def rulesOf (grammar : Grammar) (nonterminal : Nat) : List Nat :=
  (List.range grammar.rules.size).filter fun rule =>
    grammar.left rule == nonterminal

def terminalPrecedence (grammar : Grammar) (terminal : Nat) :
    Option Precedence :=
  grammar.terminals[terminal]?.bind Terminal.precedence

def rulePrecedence (grammar : Grammar) (rule : Nat) : Option Precedence :=
  (grammar.rules[rule]?.bind Rule.precedenceTerminal).bind
    grammar.terminalPrecedence

/-- Whether a rule only renames a nonterminal: `A -> B` without an action. -/
def isUnit (grammar : Grammar) (rule : Nat) : Bool :=
  rule != goalRule && !(grammar.rules[rule]?).elim false Rule.hasCode &&
    match grammar.right rule with
    | [.nonterminal _] => true
    | _ => false

def terminalNamed? (grammar : Grammar) (name : String) : Option Nat :=
  grammar.terminals.findIdx? fun terminal => terminal.name == name

def nonterminalNamed? (grammar : Grammar) (name : String) : Option Nat :=
  grammar.nonterminals.findIdx? (· == name)

def terminalCount (grammar : Grammar) : Nat :=
  grammar.terminals.size

/-- Table columns: one per terminal, then one per nonterminal other than the
goal symbol. -/
def columnCount (grammar : Grammar) : Nat :=
  grammar.terminals.size + grammar.nonterminals.size - 1

/-- The symbols that head the table columns. -/
def columns (grammar : Grammar) : List Symbol :=
  (List.range grammar.terminals.size).map .terminal ++
    (List.range (grammar.nonterminals.size - 1)).map
      fun index => .nonterminal (index + 1)

/-- The column of a symbol.  The goal symbol has none. -/
def columnOf (grammar : Grammar) : Symbol → Option Nat
  | .terminal index => some index
  | .nonterminal 0 => none
  | .nonterminal (index + 1) => some (grammar.terminals.size + index)

end Grammar

end LRTables
