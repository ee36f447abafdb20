import LRTables.Discovery
import LRTables.Grammar.Basic

/-!
# Properties of nonterminals

Which nonterminals derive the empty string, which derive some string of
terminals, and which can be reached from the goal symbol.
-/

namespace LRTables.Grammar

/-- Whether every symbol is settled: a nonterminal when it is marked, a
terminal according to `terminals`. -/
def allSettled (terminals : Bool) (marked : Array Bool)
    (symbols : List Symbol) : Bool :=
  symbols.all fun symbol =>
    match symbol with
    | .terminal _ => terminals
    | .nonterminal index => marked.getD index false

/-- Mark the left-hand side of every rule whose right-hand side is settled. -/
def markRound (grammar : Grammar) (terminals : Bool) (marked : Array Bool) :
    Array Bool :=
  grammar.rules.foldl
    (fun marked rule =>
      if allSettled terminals marked rule.right then
        marked.setIfInBounds rule.left true
      else marked)
    marked

/-- Repeat rounds until nothing new is marked, at most `rounds` times. -/
def markRounds (grammar : Grammar) (terminals : Bool) :
    (rounds : Nat) → Array Bool → Array Bool
  | 0, marked => marked
  | rounds + 1, marked =>
    let next := grammar.markRound terminals marked
    if next == marked then marked
    else grammar.markRounds terminals rounds next

/-- The nonterminals that derive a string of settled symbols.  Every round but
the last marks one more nonterminal, so their number bounds the rounds. -/
def settled (grammar : Grammar) (terminals : Bool) : Array Bool :=
  grammar.markRounds terminals grammar.nonterminals.size
    (Array.replicate grammar.nonterminals.size false)

/-- For each nonterminal, whether it derives the empty string. -/
def nullables (grammar : Grammar) : Array Bool :=
  grammar.settled false

/-- For each nonterminal, whether it derives some string of terminals. -/
def productives (grammar : Grammar) : Array Bool :=
  grammar.settled true

/-- The symbols on the right-hand sides of the rules of a nonterminal. -/
def symbolsBelow (grammar : Grammar) (nonterminal : Nat) : List Symbol :=
  (grammar.rulesOf nonterminal).flatMap grammar.right

/-- The nonterminals on the right-hand sides of the rules of a nonterminal. -/
def nonterminalsBelow (grammar : Grammar) (nonterminal : Nat) : List Nat :=
  (grammar.symbolsBelow nonterminal).filterMap fun symbol =>
    match symbol with
    | .terminal _ => none
    | .nonterminal index => some index

/-- The nonterminals that occur in strings derived from the goal symbol. -/
def reachableNonterminals (grammar : Grammar) : Array Nat :=
  discover grammar.nonterminalsBelow grammar.nonterminals.size [goalSymbol]

/-- The symbols in the rules of reachable nonterminals. -/
def usedSymbols (grammar : Grammar) : List Symbol :=
  grammar.reachableNonterminals.toList.flatMap grammar.symbolsBelow

end LRTables.Grammar
