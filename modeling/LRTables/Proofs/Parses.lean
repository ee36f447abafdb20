import LRTables.Proofs.Stacks

/-!
# Parses

A parser over the table of a framed automaton never runs out of states and
never misses a transition.  The reductions of an accepted input, read backward,
are a rightmost derivation of it.
-/

namespace LRTables

/-- The parser after a sequence of steps with the given lookaheads. -/
def Parser.after (table : Table) (lookaheads : List (Option Nat)) : Parser :=
  lookaheads.foldl (fun parser lookahead => (parser.step table lookahead).2)
    Parser.begin

namespace Parse

/-- The lookahead of a parse with these tokens to come; `none` when the lexer
has failed. -/
def lookahead? : List (Except String Nat) → Option (Option Nat)
  | [] => some none
  | .ok column :: _ => some (some column)
  | .error _ :: _ => none

theorem lookahead?_eq_none {tokens : List (Except String Nat)} :
    lookahead? tokens = none ↔
      ∃ message rest, tokens = .error message :: rest := by
  rcases tokens with _ | ⟨message | token, rest⟩
  · simp [lookahead?]
  · simp [lookahead?]
  · simp [lookahead?]

/-- One step of a run, when the lexer has not failed. -/
theorem run_of_lookahead? {table : Table} (limit : Nat) {parse : Parse}
    {lookahead : Option Nat}
    (found : lookahead? parse.tokens = some lookahead) :
    Parse.run table (limit + 1) parse =
      match parse.parser.step table lookahead with
      | (.error error, _) => some (.error (.step parse.consumed error))
      | (.ok .accept, _) => some (.ok parse.reductions.reverse)
      | (.ok (.reduce rule), parser) =>
        Parse.run table limit
          { parse with
            parser
            reductions := rule :: parse.reductions }
      | (.ok (.shift _), parser) =>
        Parse.run table limit
          { parse with
            parser
            tokens := parse.tokens.tail
            consumed := parse.consumed + 1 } := by
  obtain ⟨parser, tokens, consumed, reductions⟩ := parse
  rcases tokens with _ | ⟨message | token, rest⟩
  · cases found
    simp only [run]
    generalize parser.step table none = outcome
    obtain ⟨error | ⟨state | rule⟩, after⟩ := outcome
    all_goals rfl
  · cases found
  · cases found
    simp only [run]
    generalize parser.step table (some token) = outcome
    obtain ⟨error | ⟨state | rule⟩, after⟩ := outcome
    all_goals rfl

end Parse

namespace Table.Represents

variable {grammar : Grammar} {anyLookahead : Bool} {automaton : Automaton}
  {table : Table} {stack : List Nat} {word : List Symbol}
  (wellFormed : grammar.WellFormed) (unused : grammar.GoalUnused)

theorem Moves.stacked {lookahead : Option Nat}
    {result : Except StepError ParseEvent × Parser}
    (moves : Moves grammar automaton stack word lookahead result)
    (stacked : automaton.Stacked stack word) :
    ∃ after, automaton.Stacked result.2.stack after := by
  cases moves with
  | fail => exact ⟨word, stacked⟩
  | accept => exact ⟨word, stacked⟩
  | shift terminal next _ further => exact ⟨_, further⟩
  | reduce rule next front _ _ further => exact ⟨_, further⟩

include wellFormed unused in
theorem exists_stacked_step
    (represents : table.Represents grammar anyLookahead automaton)
    {parser : Parser} (stacked : automaton.Stacked parser.stack word)
    (lookahead : Option Nat) :
    ∃ after,
      automaton.Stacked (parser.step table lookahead).2.stack after := by
  obtain ⟨stack, accepted⟩ := parser
  cases accepted with
  | true => exact ⟨word, stacked⟩
  | false =>
      exact (step_moves wellFormed unused represents stacked
        lookahead).stacked stacked

include wellFormed unused in
theorem exists_stacked_after
    (represents : table.Represents grammar anyLookahead automaton)
    (lookaheads : List (Option Nat)) :
    ∃ word, automaton.Stacked (Parser.after table lookaheads).stack word := by
  induction lookaheads using List.reverseRecOn with
  | nil => exact ⟨[], .bottom⟩
  | append_singleton earlier lookahead ih =>
      obtain ⟨word, stacked⟩ := ih
      rw [Parser.after, List.foldl_append]
      exact exists_stacked_step wellFormed unused represents stacked lookahead

theorem Moves.safe {lookahead : Option Nat}
    {result : Except StepError ParseEvent × Parser}
    (moves : Moves grammar automaton stack word lookahead result) :
    (∀ length depth, result.1 ≠ .error (.stackUnderflow length depth)) ∧
      result.1 ≠ .error .missingGoto := by
  cases moves with
  | fail => simp
  | accept => simp
  | shift => simp
  | reduce => simp

include wellFormed unused in
/-- No step underflows the stack or misses a goto. -/
theorem step_safe
    (represents : table.Represents grammar anyLookahead automaton)
    (lookaheads : List (Option Nat)) (lookahead : Option Nat) :
    (∀ length depth,
        ((Parser.after table lookaheads).step table lookahead).1 ≠
          .error (.stackUnderflow length depth)) ∧
      ((Parser.after table lookaheads).step table lookahead).1 ≠
        .error .missingGoto := by
  obtain ⟨word, stacked⟩ :=
    exists_stacked_after wellFormed unused represents lookaheads
  generalize Parser.after table lookaheads = parser at stacked ⊢
  obtain ⟨stack, accepted⟩ := parser
  cases accepted with
  | true =>
      constructor
      · intro length depth same
        cases same
      · intro same
        cases same
  | false =>
      have moves :=
        step_moves wellFormed unused represents stacked lookahead
      exact moves.safe

/-- A parse in progress: the word of the stack derives the tokens consumed by
the reductions made so far, latest first. -/
structure Underway (grammar : Grammar) (automaton : Automaton)
    (tokens : List Nat) (parse : Parse) : Prop where
  running : parse.parser.accepted = false
  split : ∃ consumed left word, tokens = consumed ++ left ∧
    parse.tokens = left.map .ok ∧
    automaton.Stacked parse.parser.stack word ∧
    grammar.Rightmost parse.reductions word (consumed.map .terminal)

theorem underway_begin (tokens : List Nat) :
    Underway grammar automaton tokens
      (Parse.begin (tokens.map .ok)) := by
  constructor
  · rfl
  · exact ⟨[], tokens, [], rfl, rfl, .bottom, .done []⟩

/-- The lookahead of a parse. -/
def lookaheadOf : List Nat → Option Nat
  | [] => none
  | token :: _ => some token

/-- One step of a run, when no lexer error is met. -/
theorem run_succ (limit : Nat) {parse : Parse} {left : List Nat}
    (tokens : parse.tokens = left.map .ok) :
    Parse.run table (limit + 1) parse =
      match parse.parser.step table (lookaheadOf left) with
      | (.error error, _) => some (.error (.step parse.consumed error))
      | (.ok .accept, _) => some (.ok parse.reductions.reverse)
      | (.ok (.reduce rule), parser) =>
        Parse.run table limit
          { parse with
            parser
            reductions := rule :: parse.reductions }
      | (.ok (.shift _), parser) =>
        Parse.run table limit
          { parse with
            parser
            tokens := parse.tokens.tail
            consumed := parse.consumed + 1 } := by
  apply Parse.run_of_lookahead?
  rw [tokens]
  cases left with
  | nil => rfl
  | cons token rest => rfl

theorem shifted_ne_endOfInput
    (represents : table.Represents grammar anyLookahead automaton)
    (endUnused : grammar.EndUnused) {terminal : Nat}
    (stacked : automaton.Stacked stack (word ++ [.terminal terminal])) :
    terminal ≠ Terminal.endOfInput := by
  obtain ⟨top, rest, -, leads⟩ := stacked.exists_top
  obtain ⟨source, -, edge⟩ := Automaton.leads_append.mp leads
  have scans := represents.framed.scanned source _ top edge
  obtain ⟨item, -, scanned⟩ := State.mem_scannedSymbols.mp scans
  intro same
  subst same
  exact endUnused.not_mem_right item.rule (Item.scanned_mem_right scanned)

include wellFormed unused in
/-- An accepted input is derived by the reductions, read backward. -/
theorem rightmost_of_run
    (represents : table.Represents grammar anyLookahead automaton)
    (endUnused : grammar.EndUnused)
    {tokens : List Nat}
    (noEnd : ∀ token ∈ tokens, token ≠ Terminal.endOfInput)
    {limit : Nat} {parse : Parse} {rules : List Nat}
    (underway : Underway grammar automaton tokens parse)
    (result : Parse.run table limit parse = some (.ok rules)) :
    grammar.Rightmost rules.reverse [.nonterminal grammar.start]
      (tokens.map .terminal) := by
  induction limit generalizing parse with
  | zero => cases result
  | succ limit ih =>
      obtain ⟨running, consumed, left, word, split, isLeft, stacked,
        rightmost⟩ := underway
      rw [run_succ limit isLeft] at result
      obtain ⟨⟨stack, accepted⟩, parseTokens, count, reductions⟩ := parse
      dsimp only at running isLeft stacked rightmost result
      subst running
      have moves := step_moves wellFormed unused represents stacked
        (lookaheadOf left)
      generalize Parser.step table { stack, accepted := false }
        (lookaheadOf left) = outcome at moves result
      cases moves with
      | fail => cases result
      | accept isEnd isStart =>
          cases result
          have finished : left = [] := by
            cases left with
            | nil => rfl
            | cons token rest =>
                refine absurd isEnd (noEnd token ?_)
                rw [split]
                exact List.mem_append_right _ List.mem_cons_self
          subst finished
          rw [List.append_nil] at split
          rw [List.reverse_reverse, split, ← isStart]
          exact rightmost
      | shift terminal next isColumn further =>
          apply ih _ result
          cases left with
          | nil =>
              exact absurd isColumn.symm
                (shifted_ne_endOfInput represents endUnused further)
          | cons token rest =>
              have same : terminal = token := isColumn.symm
              subst same
              constructor
              · rfl
              · refine ⟨consumed ++ [terminal], rest, _, ?_, ?_, further, ?_⟩
                · rw [split, List.append_assoc]
                  rfl
                · rw [isLeft]
                  rfl
                · rw [List.map_append]
                  exact rightmost.appendTokens [terminal]
      | reduce rule next front inside isWord further =>
          apply ih _ result
          constructor
          · rfl
          · refine ⟨consumed, left, _, split, isLeft, further, ?_⟩
            apply Grammar.Rightmost.replace front [] inside
            rw [List.map_nil, List.append_nil, ← isWord]
            exact rightmost

end Table.Represents

end LRTables
