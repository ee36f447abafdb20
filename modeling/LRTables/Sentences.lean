import LRTables.Discovery
import LRTables.Grammar.Analysis

/-!
# Short sentences

The sentences of a grammar up to a given length, and all token strings up to a
given length.
-/

namespace LRTables.Grammar

/-- The leftmost nonterminal, with the symbols before and after it. -/
def splitLeftmost : List Symbol → Option (List Symbol × Nat × List Symbol)
  | [] => none
  | .nonterminal index :: rest => some ([], index, rest)
  | .terminal index :: rest =>
    (splitLeftmost rest).map fun (before, nonterminal, after) =>
      (.terminal index :: before, nonterminal, after)

/-- The number of tokens that a sentential form yields at least: all symbols
count but the nullable ones. -/
def weight (nullable : Array Bool) (form : List Symbol) : Nat :=
  form.countP fun symbol =>
    match symbol with
    | .terminal _ => true
    | .nonterminal index => !nullable.getD index false

/-- The longest sentential form that is considered. -/
def formLimit (length : Nat) : Nat :=
  2 * length + 2

/-- The sentential forms made by expanding the leftmost nonterminal, without
those that are too heavy or too long. -/
def leftmostSteps (grammar : Grammar) (nullable : Array Bool)
    (length : Nat) (form : List Symbol) : List (List Symbol) :=
  match splitLeftmost form with
  | none => []
  | some (before, nonterminal, after) =>
    let forms := (grammar.rulesOf nonterminal).map fun rule =>
      before ++ grammar.right rule ++ after
    forms.filter fun next =>
      decide (weight nullable next ≤ length) &&
        decide (next.length ≤ formLimit length)

/-- The tokens of a sentential form without nonterminals. -/
def tokens? (form : List Symbol) : Option (List Nat) :=
  form.mapM fun symbol =>
    match symbol with
    | .terminal index => some index
    | .nonterminal _ => none

/-- Whether a token list comes before another in dictionary order, or is the
same. -/
def inOrder : List Nat → List Nat → Bool
  | [], _ => true
  | _ :: _, [] => false
  | left :: lefts, right :: rights =>
    decide (left < right) || left == right && inOrder lefts rights

/-- With this many bits every sentential form considered has a number of its
own: each place of a form holds a symbol or is left empty. -/
def formBits (grammar : Grammar) (length : Nat) : Nat :=
  let symbols := grammar.terminals.size + grammar.nonterminals.size
  formLimit length * (symbols.log2 + 1)

/-- The sentences of at most `length` tokens, in dictionary order. -/
def sentences (grammar : Grammar) (length : Nat) : List (List Nat) :=
  let steps := grammar.leftmostSteps grammar.nullables length
  let forms := discover steps (grammar.formBits length)
    [[.nonterminal grammar.start]]
  (forms.toList.filterMap tokens?).mergeSort inOrder

/-- The declared terminals. -/
def alphabet (grammar : Grammar) : List Nat :=
  (List.range grammar.terminals.size).filter fun terminal =>
    terminal != Terminal.endOfInput && terminal != Terminal.errorToken

/-- The strings over an alphabet that extend given ones by up to `more`
tokens, shorter ones first. -/
def extensions (alphabet : List Nat) :
    (more : Nat) → List (List Nat) → List (List Nat)
  | _, [] => []
  | 0, strings => strings
  | more + 1, strings =>
    strings ++ extensions alphabet more
      (strings.flatMap fun string =>
        alphabet.map fun token => string ++ [token])

/-- All strings of at most `length` declared terminals. -/
def tokenStrings (grammar : Grammar) (length : Nat) : List (List Nat) :=
  extensions grammar.alphabet length [[]]

end LRTables.Grammar
