import LRTables.Grammar.Draft
import LRTables.Name.Unicode

/-!
# Sample grammars

Small grammars that show what the constructions do, and the grammar of a small
functional language.
-/

namespace LRTables

/-- A grammar written with names.  The first nonterminal is the start
symbol. -/
structure Sample where
  terminals : List Terminal
  nonterminals : List String
  rules : List (String × List String)
  expect : Option Nat

namespace Sample

def plain (names : List String) : List Terminal :=
  names.map fun name => { name, precedence := none, quoted := false }

/-- The declarations of all symbols. -/
def symbolDeclarations (sample : Sample) : List Declaration :=
  sample.terminals.map (fun terminal =>
    if terminal.quoted then .quoted terminal.name terminal.precedence
    else .terminal terminal.name terminal.precedence) ++
    sample.nonterminals.map .nonterminal

/-- The declaration of a rule in a draft that has its symbols. -/
def ruleDeclaration (draft : Draft) (rule : String × List String) :
    Declaration :=
  .rule ((draft.nonterminalNamed? rule.1).getD goalSymbol)
    (rule.2.filterMap draft.symbolNamed?) none

def grammar [Alphabet] (sample : Sample) : Except GrammarError Grammar := do
  let symbols ← Draft.empty.declareAll sample.symbolDeclarations
  let rules := sample.rules.map (ruleDeclaration symbols)
  let expect := sample.expect.toList.map Declaration.expect
  let draft ← symbols.declareAll (rules ++ expect)
  draft.finish

/-- Two sums with an equals sign between them, or one identifier. -/
def equation : Sample :=
  { terminals := plain ["EQUAL", "PLUS", "ID", "NUM"]
    nonterminals := ["A", "E", "T"]
    rules :=
      [("A", ["E", "EQUAL", "E"]),
       ("A", ["ID"]),
       ("E", ["E", "PLUS", "T"]),
       ("E", ["T"]),
       ("T", ["NUM"]),
       ("T", ["ID"])]
    expect := none }

/-- Arithmetic with two levels of left-associative operators. -/
def arithmetic : Sample :=
  { terminals := plain
      ["LPAREN", "RPAREN", "PLUS", "MINUS", "STAR", "SLASH", "NUM"]
    nonterminals := ["EXPR", "FACTOR", "TERM"]
    rules :=
      [("EXPR", ["EXPR", "PLUS", "FACTOR"]),
       ("EXPR", ["EXPR", "MINUS", "FACTOR"]),
       ("EXPR", ["FACTOR"]),
       ("FACTOR", ["FACTOR", "STAR", "TERM"]),
       ("FACTOR", ["FACTOR", "SLASH", "TERM"]),
       ("FACTOR", ["TERM"]),
       ("TERM", ["NUM"]),
       ("TERM", ["LPAREN", "EXPR", "RPAREN"])]
    expect := none }

/-- Sums of products. -/
def sumOfProducts : Sample :=
  { terminals := plain ["PLUS", "STAR", "A"]
    nonterminals := ["E", "T"]
    rules :=
      [("E", ["E", "PLUS", "T"]),
       ("E", ["T"]),
       ("T", ["T", "STAR", "A"]),
       ("T", ["A"])]
    expect := none }

/-- A grammar that is LR(1) but not LALR(1): an identifier is a type or a
name, depending on what is being read. -/
def definition : Sample :=
  { terminals := plain ["COMMA", "COLON", "ID"]
    nonterminals :=
      ["DEF", "PARAM_SPEC", "RETURN_SPEC", "TYPE", "NAME", "NAME_LIST"]
    rules :=
      [("DEF", ["PARAM_SPEC", "RETURN_SPEC", "COMMA"]),
       ("PARAM_SPEC", ["TYPE"]),
       ("PARAM_SPEC", ["NAME_LIST", "COLON", "TYPE"]),
       ("RETURN_SPEC", ["TYPE"]),
       ("RETURN_SPEC", ["NAME", "COLON", "TYPE"]),
       ("TYPE", ["ID"]),
       ("NAME", ["ID"]),
       ("NAME_LIST", ["NAME"]),
       ("NAME_LIST", ["NAME", "COMMA", "NAME_LIST"])]
    expect := none }

/-- Sums with parentheses. -/
def nestedSum : Sample :=
  { terminals := plain ["PLUS", "LPAREN", "RPAREN", "NUM"]
    nonterminals := ["E", "T"]
    rules :=
      [("E", ["E", "PLUS", "T"]),
       ("E", ["T"]),
       ("T", ["LPAREN", "E", "RPAREN"]),
       ("T", ["NUM"])]
    expect := none }

/-- Sums and products told apart by precedence alone. -/
def precedenceArithmetic : Sample :=
  { terminals :=
      [{ name := "+", precedence := some ⟨0, .left⟩, quoted := true },
       { name := "*", precedence := some ⟨1, .left⟩, quoted := true },
       { name := "id", precedence := none, quoted := false }]
    nonterminals := ["E"]
    rules :=
      [("E", ["E", "+", "E"]),
       ("E", ["E", "*", "E"]),
       ("E", ["id"])]
    expect := none }

/-- Conditionals whose `else` may belong to either of two, with the number of
conflicts that are expected. -/
def danglingElse (expect : Option Nat) : Sample :=
  { terminals := plain ["IF", "THEN", "ELSE", "COND", "OTHER"]
    nonterminals := ["Stmt", "IfStmt"]
    rules :=
      [("Stmt", ["IfStmt"]),
       ("Stmt", ["OTHER"]),
       ("IfStmt", ["IF", "COND", "THEN", "Stmt"]),
       ("IfStmt", ["IF", "COND", "THEN", "Stmt", "ELSE", "Stmt"])]
    expect }

/-- Two nonterminals that only derive each other. -/
def vanishingCycle : Sample :=
  { terminals := plain ["x"]
    nonterminals := ["S", "A", "B"]
    rules :=
      [("S", ["A"]),
       ("S", ["x"]),
       ("A", ["B"]),
       ("B", ["A"])]
    expect := none }

/-- A token that is reduced one way or the other, depending on the lane by
which it was reached.  Merging all states with the same items confuses the
lanes. -/
def crossedLanes : Sample :=
  { terminals := plain ["a", "b", "c", "d", "e"]
    nonterminals := ["S", "E", "F"]
    rules :=
      [("S", ["a", "E", "c"]),
       ("S", ["a", "F", "d"]),
       ("S", ["b", "F", "c"]),
       ("S", ["b", "E", "d"]),
       ("E", ["e"]),
       ("F", ["e"])]
    expect := none }

/-- The same lanes with a symbol in front of them that can vanish. -/
def crossedNullableLanes : Sample :=
  { terminals := plain ["a", "b", "c", "d", "e", "z"]
    nonterminals := ["S", "E", "F", "Opt"]
    rules :=
      [("S", ["a", "Opt", "E", "c"]),
       ("S", ["a", "Opt", "F", "d"]),
       ("S", ["b", "Opt", "F", "c"]),
       ("S", ["b", "Opt", "E", "d"]),
       ("E", ["e"]),
       ("F", ["e"]),
       ("Opt", []),
       ("Opt", ["z"])]
    expect := none }

/-- A small functional language. -/
def functionalLanguage : Sample :=
  { terminals := plain
      ["LPAREN", "RPAREN", "TRUE", "FALSE", "INTEGER", "FLOAT", "IDENT", "NOT",
       "PLUS", "PLUS_DOT", "MINUS", "MINUS_DOT", "STAR_DOT", "SLASH_DOT",
       "EQUAL", "LESS_GREATER", "LESS", "GREATER", "LESS_EQUAL",
       "GREATER_EQUAL", "LESS_MINUS", "COMMA", "SEMICOLON", "IF", "THEN",
       "ELSE", "LET", "REC", "IN", "ARRAY_MAKE", "DOT"]
    nonterminals :=
      ["EXPR", "SIMPLE_EXP", "APP_EXP", "NEG_EXP", "MULT_EXP", "ADD_EXP",
       "REL_EXP", "TUPLE_EXP", "PUT_EXP", "IF_EXP", "LET_EXP", "FORMAL_ARGS",
       "ACTUAL_ARGS", "TUPLE_EXP_REST", "FUNDEF", "PAT"]
    rules :=
      [("SIMPLE_EXP", ["LPAREN", "EXPR", "RPAREN"]),
       ("SIMPLE_EXP", ["LPAREN", "RPAREN"]),
       ("SIMPLE_EXP", ["TRUE"]),
       ("SIMPLE_EXP", ["FALSE"]),
       ("SIMPLE_EXP", ["INTEGER"]),
       ("SIMPLE_EXP", ["FLOAT"]),
       ("SIMPLE_EXP", ["IDENT"]),
       ("SIMPLE_EXP", ["SIMPLE_EXP", "DOT", "LPAREN", "EXPR", "RPAREN"]),
       ("APP_EXP", ["SIMPLE_EXP"]),
       ("APP_EXP", ["SIMPLE_EXP", "ACTUAL_ARGS"]),
       ("APP_EXP", ["ARRAY_MAKE", "SIMPLE_EXP", "SIMPLE_EXP"]),
       ("APP_EXP", ["NOT", "APP_EXP"]),
       ("NEG_EXP", ["APP_EXP"]),
       ("NEG_EXP", ["MINUS", "NEG_EXP"]),
       ("NEG_EXP", ["MINUS_DOT", "NEG_EXP"]),
       ("MULT_EXP", ["NEG_EXP"]),
       ("MULT_EXP", ["MULT_EXP", "STAR_DOT", "NEG_EXP"]),
       ("MULT_EXP", ["MULT_EXP", "SLASH_DOT", "NEG_EXP"]),
       ("ADD_EXP", ["MULT_EXP"]),
       ("ADD_EXP", ["ADD_EXP", "PLUS", "MULT_EXP"]),
       ("ADD_EXP", ["ADD_EXP", "MINUS", "MULT_EXP"]),
       ("ADD_EXP", ["ADD_EXP", "PLUS_DOT", "MULT_EXP"]),
       ("ADD_EXP", ["ADD_EXP", "MINUS_DOT", "MULT_EXP"]),
       ("REL_EXP", ["ADD_EXP"]),
       ("REL_EXP", ["REL_EXP", "EQUAL", "ADD_EXP"]),
       ("REL_EXP", ["REL_EXP", "LESS_GREATER", "ADD_EXP"]),
       ("REL_EXP", ["REL_EXP", "LESS", "ADD_EXP"]),
       ("REL_EXP", ["REL_EXP", "GREATER", "ADD_EXP"]),
       ("REL_EXP", ["REL_EXP", "LESS_EQUAL", "ADD_EXP"]),
       ("REL_EXP", ["REL_EXP", "GREATER_EQUAL", "ADD_EXP"]),
       ("TUPLE_EXP", ["REL_EXP"]),
       ("TUPLE_EXP", ["REL_EXP", "COMMA", "TUPLE_EXP_REST"]),
       ("TUPLE_EXP_REST", ["REL_EXP"]),
       ("TUPLE_EXP_REST", ["REL_EXP", "COMMA", "TUPLE_EXP_REST"]),
       ("PUT_EXP", ["TUPLE_EXP"]),
       ("PUT_EXP",
         ["SIMPLE_EXP", "DOT", "LPAREN", "EXPR", "RPAREN", "LESS_MINUS",
          "EXPR"]),
       ("IF_EXP", ["PUT_EXP"]),
       ("IF_EXP", ["IF", "EXPR", "THEN", "EXPR", "ELSE", "EXPR"]),
       ("LET_EXP", ["LET", "IDENT", "EQUAL", "EXPR", "IN", "EXPR"]),
       ("LET_EXP", ["LET", "REC", "FUNDEF", "IN", "EXPR"]),
       ("LET_EXP",
         ["LET", "LPAREN", "PAT", "RPAREN", "EQUAL", "EXPR", "IN", "EXPR"]),
       ("FUNDEF", ["IDENT", "FORMAL_ARGS", "EQUAL", "EXPR"]),
       ("FORMAL_ARGS", ["IDENT", "FORMAL_ARGS"]),
       ("FORMAL_ARGS", ["IDENT"]),
       ("ACTUAL_ARGS", ["ACTUAL_ARGS", "SIMPLE_EXP"]),
       ("ACTUAL_ARGS", ["SIMPLE_EXP"]),
       ("PAT", ["PAT", "COMMA", "IDENT"]),
       ("PAT", ["IDENT", "COMMA", "IDENT"]),
       ("EXPR", ["IF_EXP"]),
       ("EXPR", ["IF_EXP", "SEMICOLON", "EXPR"]),
       ("EXPR", ["LET_EXP"])]
    expect := none }

end Sample

end LRTables
