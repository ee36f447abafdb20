import LRTables.Grammar.Basic

/-!
# The text of grammars

How symbols, rules, sets of terminals and whole grammars are written.
-/

namespace LRTables

namespace Associativity

def text : Associativity → String
  | .left => "left"
  | .right => "right"
  | .nonassoc => "nonassoc"

end Associativity

namespace Terminal

/-- A quoted terminal stands between apostrophes. -/
def text (terminal : Terminal) : String :=
  if terminal.quoted then "'" ++ terminal.name ++ "'" else terminal.name

theorem text_of_not_quoted {terminal : Terminal}
    (plain : terminal.quoted = false) : terminal.text = terminal.name := by
  rw [text, plain]
  rfl

theorem toList_text_of_quoted {terminal : Terminal}
    (quoted : terminal.quoted = true) :
    terminal.text.toList = '\'' :: (terminal.name.toList ++ ['\'']) := by
  rw [text, quoted]
  simp

end Terminal

namespace Grammar

def terminalText (grammar : Grammar) (terminal : Nat) : String :=
  (grammar.terminals[terminal]?).elim "" Terminal.text

def nonterminalText (grammar : Grammar) (nonterminal : Nat) : String :=
  grammar.nonterminals.getD nonterminal ""

def symbolText (grammar : Grammar) : Symbol → String
  | .terminal index => grammar.terminalText index
  | .nonterminal index => grammar.nonterminalText index

/-- A rule as `A := x y`, or `A := %empty` for the empty right-hand side. -/
def ruleText (grammar : Grammar) (rule : Nat) : String :=
  let symbols := grammar.right rule
  let body :=
    if symbols.isEmpty then " %empty"
    else
      String.join (symbols.map fun symbol => " " ++ grammar.symbolText symbol)
  grammar.nonterminalText (grammar.left rule) ++ " :=" ++ body

/-- The names of the members between square brackets. -/
def setText (grammar : Grammar) (set : TerminalSet) : String :=
  "[" ++ " ".intercalate (set.toList.map grammar.terminalText) ++ "]"

def terminalLine (terminal : Terminal) : String :=
  let strength :=
    match terminal.precedence with
    | none => ""
    | some precedence =>
      " (priority=" ++ toString precedence.priority ++ ", assoc=" ++
        precedence.associativity.text ++ ")"
  terminal.text ++ strength ++ "\n"

def nonterminalLine (grammar : Grammar) (nullable : Array Bool)
    (nonterminal : Nat) : String :=
  grammar.nonterminalText nonterminal ++
    (if nonterminal == grammar.start then " (start)" else "") ++
    (if nullable.getD nonterminal false then " (nullable)" else "") ++ "\n"

def ruleLine (grammar : Grammar) (rule : Nat) : String :=
  let override :=
    match grammar.rules[rule]?.bind Rule.override with
    | none => ""
    | some terminal => " %prec " ++ grammar.terminalText terminal
  toString rule ++ ": " ++ grammar.ruleText rule ++ override ++ "\n"

/-- The listing of a grammar whose nullable nonterminals are given. -/
def text (grammar : Grammar) (nullable : Array Bool) : String :=
  "## terminals:\n" ++
    String.join (grammar.terminals.toList.map terminalLine) ++
    "\n## nonterminals:\n" ++
    String.join ((List.range grammar.nonterminals.size).map
      (grammar.nonterminalLine nullable)) ++
    "\n## rules:\n" ++
    String.join ((List.range grammar.rules.size).map grammar.ruleLine) ++
    match grammar.expect with
    | none => ""
    | some count => "\n%expect " ++ toString count ++ "\n"

end Grammar

end LRTables
