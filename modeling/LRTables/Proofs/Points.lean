import LRTables.Proofs.Acceptance

/-!
# Points of a parse

Where a parse stands is given by the word that its stack spells and by the
tokens that are left.  What a parser does above a base of its stack does not
depend on how it got to the base, and it is determined.
-/

namespace LRTables

/-- Where a parse stands above a base of its stack. -/
structure Point where
  /-- The symbols above the base. -/
  above : List Symbol
  /-- The tokens that are left. -/
  left : List Nat

namespace Table

variable {grammar : Grammar} {automaton : Automaton} {table : Table}
  {base front : List Symbol} {here there other : Point}

/-- A shift, or a reduction that leaves the base alone. -/
inductive Proceeds (grammar : Grammar) (automaton : Automaton) (table : Table)
    (base : List Symbol) (here : Point) : Point → Prop where
  | shift {top token target : Nat} {left : List Nat} :
      automaton.Leads (base ++ here.above) top →
      here.left = token :: left →
      table.cell top token = .shift target →
      Proceeds grammar automaton table base here
        { above := here.above ++ [.terminal token]
          left }
  | reduce {top rule : Nat} {front : List Symbol} :
      automaton.Leads (base ++ here.above) top →
      here.above = front ++ grammar.right rule →
      Grammar.lookahead here.left < grammar.terminals.size →
      table.cell top (Grammar.lookahead here.left) = .reduce rule →
      Proceeds grammar automaton table base here
        { above := front ++ [.nonterminal (grammar.left rule)]
          left := here.left }

/-- Several shifts and reductions. -/
abbrev Reads (grammar : Grammar) (automaton : Automaton) (table : Table)
    (base : List Symbol) : Point → Point → Prop :=
  Relation.ReflTransGen (table.Proceeds grammar automaton base)

namespace Proceeds

theorem unique (one : table.Proceeds grammar automaton base here there)
    (two : table.Proceeds grammar automaton base here other) :
    there = other := by
  cases one with
  | shift leads split cell =>
      cases two with
      | shift leads' split' cell' =>
          cases split.symm.trans split'
          rfl
      | reduce leads' _ _ cell' =>
          cases leads.unique leads'
          rw [split] at cell'
          cases cell.symm.trans cell'
  | reduce leads split _ cell =>
      cases two with
      | shift leads' split' cell' =>
          cases leads.unique leads'
          rw [split'] at cell
          cases cell.symm.trans cell'
      | reduce leads' split' _ cell' =>
          cases leads.unique leads'
          cases cell.symm.trans cell'
          rw [List.append_cancel_right (split.symm.trans split')]

/-- Part of what lies above the base can be counted to the base. -/
theorem lower {above more : List Symbol} {left after : List Nat}
    (proceeds : table.Proceeds grammar automaton (base ++ front)
      { above, left } { above := more, left := after }) :
    table.Proceeds grammar automaton base
      { above := front ++ above, left }
      { above := front ++ more, left := after } := by
  generalize start : Point.mk above left = here at proceeds
  generalize finish : Point.mk more after = there at proceeds
  cases proceeds with
  | shift leads split cell =>
      cases start
      cases finish
      rw [← List.append_assoc]
      refine .shift ?_ split cell
      rwa [← List.append_assoc]
  | @reduce _ _ before leads split isTerminal cell =>
      cases start
      cases finish
      rw [← List.append_assoc]
      refine .reduce ?_ ?_ isTerminal cell
      · rwa [← List.append_assoc]
      · dsimp only at split ⊢
        rw [split, List.append_assoc]

theorem length_le (proceeds : table.Proceeds grammar automaton base here there) :
    there.left.length ≤ here.left.length := by
  cases proceeds with
  | shift _ split _ =>
      rw [split]
      exact Nat.le_succ _
  | reduce => exact Nat.le_refl _

end Proceeds

namespace Reads

theorem lower {above more : List Symbol} {left after : List Nat}
    (reads : table.Reads grammar automaton (base ++ front) { above, left }
      { above := more, left := after }) :
    table.Reads grammar automaton base { above := front ++ above, left }
      { above := front ++ more, left := after } :=
  reads.lift (fun point => { point with above := front ++ point.above })
    fun _ _ proceeds => proceeds.lower

theorem extend {more : List Symbol} {left after last : List Nat}
    (reads : table.Reads grammar automaton base { above := [], left }
      { above := front, left := after })
    (later : table.Reads grammar automaton (base ++ front)
      { above := [], left := after } { above := more, left := last }) :
    table.Reads grammar automaton base { above := [], left }
      { above := front ++ more, left := last } := by
  have lowered := later.lower
  rw [List.append_nil] at lowered
  exact reads.trans lowered

theorem length_le (reads : table.Reads grammar automaton base here there) :
    there.left.length ≤ here.left.length := by
  induction reads with
  | refl => exact Nat.le_refl _
  | tail _ proceeds ih => exact proceeds.length_le.trans ih

theorem comparable (reads : table.Reads grammar automaton base here there)
    (again : table.Reads grammar automaton base here other)
    (stuck : ∀ next, ¬ table.Proceeds grammar automaton base there next) :
    table.Reads grammar automaton base other there := by
  induction again with
  | refl => exact reads
  | tail _ proceeds ih =>
      rcases ih.cases_head with rfl | ⟨next, first, rest⟩
      · exact absurd proceeds (stuck _)
      · rw [proceeds.unique first]
        exact rest

end Reads

/-- The parse stands at the point, after some of the tokens. -/
structure Stands (automaton : Automaton) (count : Nat) (point : Point)
    (parse : Parse) : Prop where
  running : parse.parser.accepted = false
  stacked : automaton.Stacked parse.parser.stack point.above
  tokens : parse.tokens = point.left.map .ok
  consumed : parse.consumed + point.left.length = count

open Represents Decides

theorem stands_begin (tokens : List Nat) :
    Stands automaton tokens.length { above := [], left := tokens }
      (Parse.begin (tokens.map .ok)) :=
  ⟨rfl, .bottom, rfl, Nat.zero_add _⟩

theorem lookaheadOf_getD (left : List Nat) :
    (lookaheadOf left).getD Terminal.endOfInput = Grammar.lookahead left := by
  cases left <;> rfl

section Steps

variable {count : Nat} {point next : Point} {parse : Parse}
  (wellFormed : grammar.WellFormed) (unused : grammar.GoalUnused)
  (represents : table.Represents grammar false automaton)

include wellFormed unused represents in
theorem handle_of_cell {word : List Symbol} {top rule column : Nat}
    (leads : automaton.Leads word top)
    (cell : table.cell top column = .reduce rule) :
    Handle grammar automaton word rule := by
  obtain ⟨item, offers, final, rfl, notGoal⟩ :=
    (represents.reflects.justified word top leads).reduce column rule cell
  have valid := (represents.framed.mem_items wellFormed unused leads).mp
    (Offers.mem_items offers)
  exact handle_of_final wellFormed unused valid final notGoal

include wellFormed unused represents in
/-- The parser goes from point to point. -/
theorem Stands.proceed (stands : Stands automaton count point parse)
    (proceeds : table.Proceeds grammar automaton [] point next) :
    ∃ later, Reaches table parse later ∧
      Stands automaton count next later := by
  obtain ⟨running, stacked, tokens, consumed⟩ := stands
  obtain ⟨⟨stack, accepted⟩, parseTokens, counted, done⟩ := parse
  dsimp only at running stacked tokens consumed
  subst running
  obtain ⟨top, rest, split, before⟩ := stacked.exists_top
  cases proceeds with
  | @shift top' token target left leads isLeft cell =>
      cases leads.unique before
      obtain ⟨isTerminal, edge⟩ :=
        (represents.reflects.justified _ top before).shift token target cell
      subst split
      have step := @step_of_shift grammar false automaton table represents
        top target rest (some token) isTerminal cell
      refine ⟨{
          parser := { stack := target :: top :: rest, accepted := false }
          tokens := parseTokens.tail
          consumed := counted + 1
          reductions := done }, .of_step ?_, ?_⟩
      · intro limit
        rw [run_succ limit tokens, isLeft]
        simp only [lookaheadOf, step]
      · constructor
        · rfl
        · exact .push stacked edge
        · rw [tokens, isLeft]
          rfl
        · rw [isLeft, List.length_cons] at consumed
          dsimp only
          omega
  | @reduce top' rule front leads isWord isTerminal cell =>
      cases leads.unique before
      have handle := handle_of_cell wellFormed unused represents before cell
      rw [← lookaheadOf_getD] at isTerminal cell
      obtain ⟨next, other, isOther, step, further⟩ :=
        step_of_reduce wellFormed unused represents stacked split handle
          isTerminal cell
      obtain rfl : front = other :=
        List.append_cancel_right (isWord.symm.trans isOther)
      refine ⟨{
          parser :=
            { stack := next :: stack.drop (grammar.right rule).length
              accepted := false }
          tokens := parseTokens
          consumed := counted
          reductions := rule :: done }, .of_step ?_, ?_⟩
      · intro limit
        rw [run_succ limit tokens]
        simp only [step]
      · exact ⟨rfl, further, tokens, consumed⟩

include wellFormed unused represents in
theorem Stands.read (stands : Stands automaton count point parse)
    (reads : table.Reads grammar automaton [] point next) :
    ∃ later, Reaches table parse later ∧
      Stands automaton count next later := by
  induction reads with
  | refl => exact ⟨parse, .refl parse, stands⟩
  | tail _ proceeds ih =>
      obtain ⟨middle, earlier, stands⟩ := ih
      obtain ⟨later, step, stands⟩ :=
        stands.proceed wellFormed unused represents proceeds
      exact ⟨later, earlier.trans step, stands⟩

include wellFormed unused represents in
/-- A parse goes on, or ends at once. -/
theorem Stands.cases (endUnused : grammar.EndUnused)
    (stands : Stands automaton count point parse) :
    (∃ next, table.Proceeds grammar automaton [] point next) ∨
      Parse.run table 1 parse = some (.ok parse.reductions.reverse) ∨
      Parse.run table 1 parse =
        some (.error (.step parse.consumed .unexpected)) := by
  obtain ⟨running, stacked, tokens, consumed⟩ := stands
  obtain ⟨⟨stack, accepted⟩, parseTokens, counted, done⟩ := parse
  dsimp only at running stacked tokens consumed
  subst running
  obtain ⟨top, rest, rfl, before⟩ := stacked.exists_top
  have justified := represents.reflects.justified _ top before
  have fails (idle : table.action top (lookaheadOf point.left) = .error) :
      Parse.run table 1
          { parser := { stack := top :: rest, accepted := false }
            tokens := parseTokens
            consumed := counted
            reductions := done } =
        some (.error (.step counted .unexpected)) := by
    rw [run_succ 0 tokens]
    simp only [step_of_error idle]
  by_cases isTerminal : Grammar.lookahead point.left < grammar.terminals.size
  · cases cell : table.cell top (Grammar.lookahead point.left) with
    | error =>
        refine Or.inr (Or.inr (fails ?_))
        rw [← lookaheadOf_getD] at isTerminal cell
        simp only [action, represents.reflects.terminalCount,
          if_pos isTerminal, cell]
    | goto target =>
        refine Or.inr (Or.inr (fails ?_))
        rw [← lookaheadOf_getD] at isTerminal cell
        simp only [action, represents.reflects.terminalCount,
          if_pos isTerminal, cell]
    | accept =>
        rw [← lookaheadOf_getD] at isTerminal cell
        have step := @step_of_accept grammar false automaton table represents
          top rest _ isTerminal cell
        refine Or.inr (Or.inl ?_)
        rw [run_succ 0 tokens]
        simp only [step]
    | reduce rule =>
        have handle := handle_of_cell wellFormed unused represents before cell
        obtain ⟨front, isWord, -⟩ := handle.split
        exact Or.inl ⟨_, .reduce before isWord isTerminal cell⟩
    | shift target =>
        cases isLeft : point.left with
        | nil =>
            rw [isLeft] at cell
            obtain ⟨-, edge⟩ := justified.shift _ target cell
            exact absurd rfl (shifted_ne_endOfInput represents endUnused
              (.push stacked edge))
        | cons token left =>
            rw [isLeft] at cell
            exact Or.inl ⟨_, .shift before isLeft cell⟩
  · refine Or.inr (Or.inr (fails ?_))
    rw [← lookaheadOf_getD] at isTerminal
    simp only [action, represents.reflects.terminalCount, if_neg isTerminal]

end Steps

end Table

end LRTables
