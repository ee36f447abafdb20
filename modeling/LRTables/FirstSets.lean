import LRTables.Digraph
import LRTables.Grammar.Analysis

/-!
# First sets

The terminals that can begin a string derived from a list of symbols, and
whether the whole list can vanish.
-/

namespace LRTables

/-- For each nonterminal, the terminals that can begin a string derived from
it, and whether it derives the empty string. -/
structure FirstSets where
  first : Array TerminalSet
  nullable : Array Bool

namespace FirstSets

/-- The symbols that stand first once the nullable ones before them have
vanished. -/
def leading (nullable : Array Bool) : List Symbol → List Symbol
  | [] => []
  | .terminal index :: _ => [.terminal index]
  | .nonterminal index :: rest =>
    .nonterminal index ::
      if nullable.getD index false then leading nullable rest else []

/-- The leading symbols of all rules of a nonterminal. -/
def leadingOf (grammar : Grammar) (nullable : Array Bool)
    (nonterminal : Nat) : List Symbol :=
  (grammar.rulesOf nonterminal).flatMap fun rule =>
    leading nullable (grammar.right rule)

def terminalsOf (symbols : List Symbol) : TerminalSet :=
  .ofList (symbols.filterMap fun symbol =>
    match symbol with
    | .terminal index => some index
    | .nonterminal _ => none)

/-- The nonterminals among the symbols, of `count` that there are. -/
def nonterminalsOf (count : Nat) (symbols : List Symbol) : List (Fin count) :=
  symbols.filterMap fun symbol =>
    match symbol with
    | .terminal _ => none
    | .nonterminal index =>
      if declared : index < count then some ⟨index, declared⟩ else none

/-- A nonterminal begins with its own leading terminals and with whatever its
leading nonterminals begin with. -/
def ofGrammar (grammar : Grammar) : FirstSets :=
  let nullable := grammar.nullables
  let count := grammar.nonterminals.size
  let leadingSymbols := fun nonterminal : Fin count =>
    leadingOf grammar nullable nonterminal
  let first := Digraph.unions TerminalSet.union
    (fun nonterminal => nonterminalsOf count (leadingSymbols nonterminal))
    (.ofFn fun nonterminal => terminalsOf (leadingSymbols nonterminal))
  { first := first.toArray
    nullable }

/-- The terminals that can begin a string derived from `symbols`, and whether
`symbols` derives the empty string. -/
def heads (sets : FirstSets) : List Symbol → TerminalSet × Bool
  | [] => (∅, true)
  | .terminal index :: _ => (.singleton index, false)
  | .nonterminal index :: rest =>
    let own := sets.first.getD index ∅
    if sets.nullable.getD index false then
      let (others, vanishes) := sets.heads rest
      (own ∪ others, vanishes)
    else (own, false)

end FirstSets

end LRTables
