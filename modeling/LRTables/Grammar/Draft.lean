import LRTables.Grammar.Analysis
import LRTables.Grammar.Text
import LRTables.Name

/-!
# Declaring a grammar

A draft collects declarations one at a time.  A declaration that is refused
leaves the draft as it was, and `Draft.finish` checks the whole.
-/

namespace LRTables

/-- The kinds of things that are numbered. -/
inductive Numbered where
  | terminals
  | nonterminals
  | rules
  deriving DecidableEq

namespace Numbered

def text : Numbered → String
  | .terminals => "terminals"
  | .nonterminals => "nonterminals"
  | .rules => "rules"

end Numbered

/-- Why a declaration, or a whole grammar, is refused. -/
inductive GrammarError where
  | invalidName (name : String)
  | duplicateSymbol (name : String)
  | emptyQuotedToken
  | undeclaredPrecedence (name : String)
  | undefinedNonterminal (name : String)
  | duplicateRule (rule : String)
  | noNonterminals
  | unproductiveStart (name : String)
  | tooMany (kind : Numbered)
  deriving DecidableEq

namespace GrammarError

def message : GrammarError → String
  | .invalidName name => "invalid symbol name: `" ++ name ++ "'"
  | .duplicateSymbol name =>
    "the symbol `" ++ name ++ "' has already been declared"
  | .emptyQuotedToken => "empty quoted token"
  | .undeclaredPrecedence name =>
    "undeclared %prec symbol: `" ++ name ++ "'"
  | .undefinedNonterminal name =>
    "the nonterminal `" ++ name ++ "' is never defined as a left-hand side"
  | .duplicateRule rule => "duplicate production rule: `" ++ rule ++ "'"
  | .noNonterminals => "no nonterminal symbols are declared"
  | .unproductiveStart name =>
    "the start symbol `" ++ name ++ "' derives no terminal string"
  | .tooMany kind => "too many " ++ kind.text

end GrammarError

/-- A grammar under construction.  The declared rules are numbered from one,
because the goal rule takes the number zero. -/
structure Draft where
  terminals : Array Terminal
  nonterminals : Array String
  rules : Array Rule
  start : Option Nat
  expect : Option Nat
  nextPriority : Nat
  deriving DecidableEq

/-- One declaration.  Symbols are given by their numbers. -/
inductive Declaration where
  /-- A new precedence level above all earlier ones. -/
  | precedence (associativity : Associativity)
  | terminal (name : String) (precedence : Option Precedence)
  | quoted (literal : String) (precedence : Option Precedence)
  | nonterminal (name : String)
  | rule (left : Nat) (right : List Symbol) (override : Option String)
  /-- An action is attached to a rule. -/
  | code (rule : Nat)
  | start (nonterminal : Nat)
  | expect (count : Nat)
  deriving DecidableEq

/-- What a successful declaration yields. -/
inductive Declared where
  | level (precedence : Precedence)
  | number (index : Nat)
  | done
  deriving DecidableEq

namespace Draft

/-- Symbol and rule numbers stay below this bound. -/
def numberLimit : Nat := 65535

/-- The highest priority.  Levels allocated past it share it. -/
def maxPriority : Nat := 65535

def empty : Draft :=
  { terminals :=
      #[{ name := "$end", precedence := none, quoted := false },
        { name := "error", precedence := none, quoted := false }]
    nonterminals := #["$accept"]
    rules := #[]
    start := none
    expect := none
    nextPriority := 0 }

def isDeclared (draft : Draft) (name : String) : Bool :=
  draft.terminals.any (fun terminal => terminal.name == name) ||
    draft.nonterminals.any (· == name)

def terminalNamed? (draft : Draft) (name : String) : Option Nat :=
  draft.terminals.findIdx? fun terminal => terminal.name == name

def nonterminalNamed? (draft : Draft) (name : String) : Option Nat :=
  draft.nonterminals.findIdx? (· == name)

/-- The symbol declared under a name. -/
def symbolNamed? (draft : Draft) (name : String) : Option Symbol :=
  (draft.terminalNamed? name).map .terminal <|>
    (draft.nonterminalNamed? name).map .nonterminal

def symbolText (draft : Draft) : Symbol → String
  | .terminal index => (draft.terminals[index]?).elim "" Terminal.text
  | .nonterminal index => draft.nonterminals.getD index ""

/-- Allocate a precedence level. -/
def addLevel (draft : Draft) (associativity : Associativity) :
    Precedence × Draft :=
  ({ priority := draft.nextPriority, associativity },
    { draft with nextPriority := min (draft.nextPriority + 1) maxPriority })

def addTerminal (draft : Draft) (name : String)
    (precedence : Option Precedence) (quoted : Bool) :
    Except GrammarError (Nat × Draft) :=
  if draft.isDeclared name then .error (.duplicateSymbol name)
  else if draft.terminals.size ≥ numberLimit then .error (.tooMany .terminals)
  else
    .ok (draft.terminals.size,
      { draft with
        terminals := draft.terminals.push { name, precedence, quoted } })

/-- Declare a terminal under a name. -/
def addNamed [Alphabet] (draft : Draft) (name : String)
    (precedence : Option Precedence) : Except GrammarError (Nat × Draft) :=
  if Name.isName name then draft.addTerminal name precedence false
  else .error (.invalidName name)

/-- Declare a terminal that stands for a literal. -/
def addQuoted (draft : Draft) (literal : String)
    (precedence : Option Precedence) : Except GrammarError (Nat × Draft) :=
  if literal.isEmpty then .error .emptyQuotedToken
  else draft.addTerminal literal precedence true

def addNonterminal [Alphabet] (draft : Draft) (name : String) :
    Except GrammarError (Nat × Draft) :=
  if !Name.isName name then .error (.invalidName name)
  else if draft.isDeclared name then .error (.duplicateSymbol name)
  else if draft.nonterminals.size ≥ numberLimit then
    .error (.tooMany .nonterminals)
  else
    .ok (draft.nonterminals.size,
      { draft with nonterminals := draft.nonterminals.push name })

/-- The terminal named by the precedence override of a rule. -/
def resolveOverride (draft : Draft) :
    Option String → Except GrammarError (Option Nat)
  | none => .ok none
  | some name =>
    match draft.terminalNamed? name with
    | some terminal => .ok (some terminal)
    | none => .error (.undeclaredPrecedence name)

def addRule (draft : Draft) (left : Nat) (right : List Symbol)
    (override : Option String) : Except GrammarError (Nat × Draft) := do
  let override ← draft.resolveOverride override
  if draft.rules.any fun rule => rule.left == left && rule.right == right then
    let sides := draft.symbolText (.nonterminal left) ::
      right.map draft.symbolText
    throw (.duplicateRule (" ".intercalate sides))
  let number := draft.rules.size + 1
  if number ≥ numberLimit then throw (.tooMany .rules)
  let rule := { left, right, override, hasCode := false }
  return (number, { draft with rules := draft.rules.push rule })

/-- Note that a rule has an action.  An unknown rule is left out. -/
def markCode (draft : Draft) (rule : Nat) : Draft :=
  match rule with
  | 0 => draft
  | index + 1 =>
    { draft with
      rules := draft.rules.modify index fun rule =>
        { rule with hasCode := true } }

/-- Carry out one declaration. -/
def declare [Alphabet] (draft : Draft) :
    Declaration → Except GrammarError (Declared × Draft)
  | .precedence associativity =>
    let (level, draft) := draft.addLevel associativity
    .ok (.level level, draft)
  | .terminal name precedence =>
    numbered (draft.addNamed name precedence)
  | .quoted literal precedence =>
    numbered (draft.addQuoted literal precedence)
  | .nonterminal name => numbered (draft.addNonterminal name)
  | .rule left right override => numbered (draft.addRule left right override)
  | .code rule => .ok (.done, draft.markCode rule)
  | .start nonterminal =>
    .ok (.done, { draft with start := some nonterminal })
  | .expect count => .ok (.done, { draft with expect := some count })
where
  numbered : Except GrammarError (Nat × Draft) →
      Except GrammarError (Declared × Draft)
    | .ok (index, draft) => .ok (.number index, draft)
    | .error error => .error error

/-- Carry out declarations until one is refused. -/
def declareAll [Alphabet] (draft : Draft) (declarations : List Declaration) :
    Except GrammarError Draft :=
  declarations.foldlM
    (fun draft declaration => (draft.declare declaration).map Prod.snd) draft

/-- The start symbol: the declared one, or else the first nonterminal. -/
def startSymbol? (draft : Draft) : Option Nat :=
  draft.start <|> if draft.nonterminals.size > 1 then some 1 else none

/-- The grammar of a draft, before it is checked. -/
def toGrammar (draft : Draft) (start : Nat) : Grammar :=
  { terminals := draft.terminals
    nonterminals := draft.nonterminals
    rules :=
      #[{ left := goalSymbol
          right := [.nonterminal start]
          override := none
          hasCode := false }] ++ draft.rules
    start
    expect := draft.expect }

end Draft

namespace Grammar

def isDefined (grammar : Grammar) (nonterminal : Nat) : Bool :=
  grammar.rules.any fun rule => rule.left == nonterminal

/-- The first nonterminal, in order of rules, that is used but has no rule. -/
def firstUndefined? (grammar : Grammar) : Option Nat :=
  (grammar.rules.toList.flatMap Rule.right).findSome? fun symbol =>
    match symbol with
    | .terminal _ => none
    | .nonterminal index => if grammar.isDefined index then none else some index

end Grammar

/-- Check a finished draft and close it. -/
def Draft.finish (draft : Draft) : Except GrammarError Grammar :=
  match draft.startSymbol? with
  | none => .error .noNonterminals
  | some start =>
    let grammar := draft.toGrammar start
    match grammar.firstUndefined? with
    | some nonterminal =>
      .error (.undefinedNonterminal (grammar.nonterminalText nonterminal))
    | none =>
      if grammar.productives.getD start false then .ok grammar
      else .error (.unproductiveStart (grammar.nonterminalText start))

end LRTables
