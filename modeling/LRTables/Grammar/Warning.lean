import LRTables.Grammar.Analysis
import LRTables.Grammar.Text

/-!
# Warnings about a grammar

Symbols that an accepted grammar declares in vain.
-/

namespace LRTables

inductive GrammarWarning where
  /-- The nonterminal has rules but derives no string of terminals. -/
  | unproductive (nonterminal : Nat)
  | unusedTerminal (terminal : Nat)
  | unreachable (nonterminal : Nat)
  deriving DecidableEq

namespace GrammarWarning

def message (grammar : Grammar) : GrammarWarning → String
  | .unproductive nonterminal =>
    "the nonterminal `" ++ grammar.nonterminalText nonterminal ++
      "' derives no terminal string"
  | .unusedTerminal terminal =>
    "the terminal `" ++ grammar.terminalText terminal ++ "' is not used"
  | .unreachable nonterminal =>
    "the nonterminal `" ++ grammar.nonterminalText nonterminal ++
      "' is not reachable"

end GrammarWarning

namespace Grammar

def unproductiveNonterminals (grammar : Grammar) : List Nat :=
  let productive := grammar.productives
  (List.range grammar.nonterminals.size).filter fun nonterminal =>
    !(grammar.rulesOf nonterminal).isEmpty &&
      !productive.getD nonterminal false

def unusedTerminals (grammar : Grammar) : List Nat :=
  let used := grammar.usedSymbols
  (List.range grammar.terminals.size).filter fun terminal =>
    terminal != Terminal.endOfInput && terminal != Terminal.errorToken &&
      !used.contains (.terminal terminal)

def unreachableNonterminals (grammar : Grammar) : List Nat :=
  let reachable := grammar.reachableNonterminals
  (List.range grammar.nonterminals.size).filter fun nonterminal =>
    !reachable.contains nonterminal

/-- All warnings, in the order in which they are given. -/
def warnings (grammar : Grammar) : List GrammarWarning :=
  grammar.unproductiveNonterminals.map .unproductive ++
    grammar.unusedTerminals.map .unusedTerminal ++
    grammar.unreachableNonterminals.map .unreachable

end Grammar

end LRTables
