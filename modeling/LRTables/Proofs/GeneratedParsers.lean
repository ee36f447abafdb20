import LRTables.Proofs.Acceptance
import LRTables.Proofs.Constructions
import Mathlib.Data.List.Permutation

/-!
# Generated parsers

Without conflicts, a parser over a generated table accepts the language of the
grammar and finds rightmost derivations.  With conflicts, what it accepts is
still derived, and it never runs out of states.
-/

namespace LRTables

variable {grammar : Grammar} {options : Options} {limit : Nat}
  {output : Output}

/-- A parser over a table without conflicts accepts exactly the sentences, and
the reductions it makes are the only rightmost derivation. -/
theorem generated_recognizes (accepted : grammar.Accepted)
    (unused : grammar.GoalUnused) (endUnused : grammar.EndUnused)
    (result : grammar.generateWithin limit options = .ok output)
    (clean : output.table.log.conflicts = #[]) (tokens : List Nat)
    (noEnd : ∀ token ∈ tokens, token ≠ Terminal.endOfInput) :
    ((∃ steps rules, output.table.parseWithin steps (tokens.map .ok) =
        some (.ok rules)) ↔
      grammar.Derives [.nonterminal grammar.start]
        (tokens.map .terminal)) ∧
    ∀ steps rules, output.table.parseWithin steps (tokens.map .ok) =
        some (.ok rules) →
      grammar.Rightmost rules.reverse [.nonterminal grammar.start]
          (tokens.map .terminal) ∧
        ∀ other, grammar.Rightmost other [.nonterminal grammar.start]
          (tokens.map .terminal) → other = rules.reverse := by
  have wellFormed := accepted.wellFormed
  obtain ⟨anyLookahead, automaton, adequate, filled⟩ :=
    Grammar.adequate_generateWithin wellFormed unused result
  have decides := adequate.decides wellFormed filled clean
  exact decides.recognizes wellFormed unused endUnused tokens noEnd

theorem exists_output_chain : ∃ output,
    Grammar.chain.generateWithin 0 .standard = .ok output ∧
      output.table.log.conflicts = #[] := by
  apply exists_ok_of_any
  cbv

theorem generated_recognizes_chain : ∃ output,
    Grammar.chain.generateWithin 0 .standard = .ok output ∧
      output.table.log.conflicts = #[] ∧
      (((∃ steps rules, output.table.parseWithin steps
          (([2, 3] : List Nat).map .ok) = some (.ok rules)) ↔
        Grammar.chain.Derives [.nonterminal Grammar.chain.start]
          (([2, 3] : List Nat).map .terminal)) ∧
      ∀ steps rules, output.table.parseWithin steps
          (([2, 3] : List Nat).map .ok) = some (.ok rules) →
        Grammar.chain.Rightmost rules.reverse
            [.nonterminal Grammar.chain.start]
            (([2, 3] : List Nat).map .terminal) ∧
          ∀ other, Grammar.chain.Rightmost other
            [.nonterminal Grammar.chain.start]
            (([2, 3] : List Nat).map .terminal) →
              other = rules.reverse) := by
  obtain ⟨output, result, clean⟩ := exists_output_chain
  exact ⟨output, result, clean, generated_recognizes accepted_chain
    goalUnused_chain endUnused_chain result clean [2, 3] (by decide)⟩

/-- Whatever conflicts there are, no step of a parser runs out of states or
misses a transition, and the reductions of an accepted input are a rightmost
derivation. -/
theorem generated_sound (accepted : grammar.Accepted)
    (unused : grammar.GoalUnused) (endUnused : grammar.EndUnused)
    (result : grammar.generateWithin limit options = .ok output) :
    (∀ (lookaheads : List (Option Nat)) (lookahead : Option Nat),
      (∀ length depth,
        ((Parser.after output.table lookaheads).step output.table
          lookahead).1 ≠ .error (.stackUnderflow length depth)) ∧
      ((Parser.after output.table lookaheads).step output.table
        lookahead).1 ≠ .error .missingGoto) ∧
    ∀ tokens : List Nat, (∀ token ∈ tokens, token ≠ Terminal.endOfInput) →
      ∀ steps rules, output.table.parseWithin steps (tokens.map .ok) =
          some (.ok rules) →
        grammar.Rightmost rules.reverse [.nonterminal grammar.start]
          (tokens.map .terminal) := by
  have wellFormed := accepted.wellFormed
  obtain ⟨anyLookahead, automaton, adequate, filled⟩ :=
    Grammar.adequate_generateWithin wellFormed unused result
  have represents := adequate.represents wellFormed filled
  constructor
  · exact represents.step_safe wellFormed unused
  · intro tokens noEnd steps rules parsed
    exact represents.rightmost_of_run wellFormed unused endUnused noEnd
      (Table.Represents.underway_begin tokens) parsed

/-- After `a` the rule for `D` beats the shift of `t`, and the empty rule, which
does not, comes first among the rules. -/
def Sample.overtaken : Sample :=
  { terminals :=
      [{ name := "a", precedence := some ⟨1, .left⟩, quoted := false },
       { name := "t", precedence := some ⟨0, .left⟩, quoted := false }]
    nonterminals := ["S", "C", "D"]
    rules :=
      [("C", []),
       ("S", ["a", "C", "t"]),
       ("S", ["D", "t"]),
       ("D", ["a"]),
       ("S", ["a", "t"])]
    expect := none }

def Grammar.overtaken : Grammar :=
  { terminals :=
      #[{ name := "$end", precedence := none, quoted := false },
        { name := "error", precedence := none, quoted := false },
        { name := "a", precedence := some ⟨1, .left⟩, quoted := false },
        { name := "t", precedence := some ⟨0, .left⟩, quoted := false }]
    nonterminals := #["$accept", "S", "C", "D"]
    rules :=
      #[{ left := goalSymbol
          right := [.nonterminal 1]
          override := none
          hasCode := false },
        { left := 2
          right := []
          override := none
          hasCode := false },
        { left := 1
          right := [.terminal 2, .nonterminal 2, .terminal 3]
          override := none
          hasCode := false },
        { left := 1
          right := [.nonterminal 3, .terminal 3]
          override := none
          hasCode := false },
        { left := 3
          right := [.terminal 2]
          override := none
          hasCode := false },
        { left := 1
          right := [.terminal 2, .terminal 3]
          override := none
          hasCode := false }]
    start := 1
    expect := none }

theorem accepted_overtaken : Grammar.overtaken.Accepted := by
  apply Sample.accepted
  show Sample.overtaken.grammar = .ok Grammar.overtaken
  decide +kernel

theorem endUnused_overtaken : Grammar.overtaken.EndUnused := by
  unfold Grammar.EndUnused
  decide

theorem goalUnused_overtaken : Grammar.overtaken.GoalUnused := by
  constructor
  · decide
  · decide

/-- After `a` the token `t` may be shifted, and two rules may be reduced before
it.  The second of them has the cell, and by it `a t` is parsed. -/
theorem exists_output_overtaken : ∃ output,
    Grammar.overtaken.generateWithin 0 .standard = .ok output ∧
      output.automaton.Leads [.terminal 2] 2 ∧
      (output.automaton.state 2).successor? (.terminal 3) = some 5 ∧
      output.table.cell 2 3 = .reduce 1 ∧
      output.table.log.conflicts.map
          (fun conflict => (conflict.state, conflict.lookahead)) =
        #[(2, 3), (2, 3)] ∧
      output.table.parseWithin 9 (([2, 3] : List Nat).map .ok) =
        some (.ok [1, 2]) := by
  obtain ⟨output, result, leads, edge, empty, conflicts, terminals, hollow,
    longer, shiftsFirst, gotoEmpty, shiftsLast, whole, gotoStart, accepts⟩ :
      ∃ output,
        Grammar.overtaken.generateWithin 0 .standard = .ok output ∧
          output.automaton.Leads [.terminal 2] 2 ∧
          (output.automaton.state 2).successor? (.terminal 3) = some 5 ∧
          output.table.cell 2 3 = .reduce 1 ∧
          output.table.log.conflicts.map
              (fun conflict => (conflict.state, conflict.lookahead)) =
            #[(2, 3), (2, 3)] ∧
          output.table.terminalCount = 4 ∧
          output.table.rules[1]? =
            some { column := some 5, length := 0, hasCode := false } ∧
          output.table.rules[2]? =
            some { column := some 4, length := 3, hasCode := false } ∧
          output.table.cell 0 2 = .shift 2 ∧
          output.table.cell 2 5 = .goto 4 ∧
          output.table.cell 4 3 = .shift 7 ∧
          output.table.cell 7 0 = .reduce 2 ∧
          output.table.cell 0 4 = .goto 1 ∧
          output.table.cell 1 0 = .accept := by
    apply exists_ok_of_any
    cbv
  refine ⟨output, result, leads, edge, empty, conflicts, ?_⟩
  simp [Table.parseWithin, Parse.run, Parse.begin, Parser.begin, Parser.step,
    Parser.reduce, Table.action, Table.goto?, Terminal.endOfInput, terminals,
    empty, hollow, longer, shiftsFirst, gotoEmpty, shiftsLast, whole, gotoStart,
    accepts]

theorem generated_sound_overtaken : ∃ output,
    Grammar.overtaken.generateWithin 0 .standard = .ok output ∧
      output.table.log.conflicts ≠ #[] ∧
      (∀ (lookaheads : List (Option Nat)) (lookahead : Option Nat),
        (∀ length depth,
          ((Parser.after output.table lookaheads).step output.table
            lookahead).1 ≠ .error (.stackUnderflow length depth)) ∧
        ((Parser.after output.table lookaheads).step output.table
          lookahead).1 ≠ .error .missingGoto) ∧
      output.table.parseWithin 9 (([2, 3] : List Nat).map .ok) =
        some (.ok [1, 2]) ∧
      Grammar.overtaken.Rightmost [2, 1]
        [.nonterminal Grammar.overtaken.start]
        (([2, 3] : List Nat).map .terminal) := by
  obtain ⟨output, result, -, -, -, conflicts, parsed⟩ :=
    exists_output_overtaken
  obtain ⟨safe, rightmost⟩ := generated_sound accepted_overtaken
    goalUnused_overtaken endUnused_overtaken result
  refine ⟨output, result, ?_, safe, parsed,
    rightmost [2, 3] (by decide) 9 [1, 2] parsed⟩
  intro none
  rw [none, Array.map_empty] at conflicts
  cases conflicts

end LRTables
