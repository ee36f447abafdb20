import LRTables.Proofs.BuiltTables
import LRTables.Proofs.GeneratedParsers

/-!
# Shifts that yield

A shift keeps its cell until a rule arrives that precedence prefers to it.
From then on the cell belongs to the reductions, and of the rules that have
arrived since then the least one counts, whether or not it would have beaten
the shift.
-/

namespace LRTables

/-- Precedence prefers the rule to a shift of the terminal. -/
def Grammar.Beats (grammar : Grammar) (terminal rule : Nat) : Prop :=
  grammar.preference? terminal rule = some .reduce

instance {grammar : Grammar} {terminal rule : Nat} :
    Decidable (grammar.Beats terminal rule) := by
  unfold Grammar.Beats
  infer_instance

namespace Action

variable {grammar : Grammar} {terminal target first : Nat} {rules : List Nat}

/-- What a reduction by the rule makes of a cell. -/
def settle (grammar : Grammar) (terminal : Nat) : Action → Nat → Action
  | .error, rule => .reduce rule
  | .reduce other, rule => .reduce (min other rule)
  | .shift target, rule =>
    if grammar.Beats terminal rule then .reduce rule else .shift target
  | .accept, _ => .accept
  | .goto target, _ => .goto target

theorem settle_of_beats {rule : Nat} (beats : grammar.Beats terminal rule) :
    settle grammar terminal (.shift target) rule = .reduce rule := by
  simp [settle, beats]

theorem settle_of_not_beats {rule : Nat}
    (weaker : ¬ grammar.Beats terminal rule) :
    settle grammar terminal (.shift target) rule = .shift target := by
  simp [settle, weaker]

theorem foldl_settle_shift
    (weaker : ∀ rule ∈ rules, ¬ grammar.Beats terminal rule) :
    rules.foldl (settle grammar terminal) (.shift target) =
      .shift target := by
  induction rules with
  | nil => rfl
  | cons rule rest ih =>
      rw [List.foldl_cons, settle_of_not_beats (weaker rule List.mem_cons_self)]
      exact ih fun other member =>
        weaker other (List.mem_cons_of_mem _ member)

theorem foldl_settle_reduce (rule : Nat) :
    rules.foldl (settle grammar terminal) (.reduce rule) =
      .reduce (rules.foldl min rule) := by
  induction rules generalizing rule with
  | nil => rfl
  | cons other rest ih => exact ih (min rule other)

theorem foldl_settle_beaten {weaker later : List Nat}
    (none : ∀ rule ∈ weaker, ¬ grammar.Beats terminal rule)
    (beats : grammar.Beats terminal first) :
    (weaker ++ first :: later).foldl (settle grammar terminal)
        (.shift target) = .reduce (later.foldl min first) := by
  rw [List.foldl_append, foldl_settle_shift none, List.foldl_cons,
    settle_of_beats beats, foldl_settle_reduce]

end Action

namespace Grammar

variable {grammar : Grammar} {terminal : Nat} {rules : List Nat}

/-- Either no rule beats the shift, or one is the first to do so. -/
theorem exists_first_beats (grammar : Grammar) (terminal : Nat)
    (rules : List Nat) :
    (∀ rule ∈ rules, ¬ grammar.Beats terminal rule) ∨
      ∃ weaker first later, rules = weaker ++ first :: later ∧
        (∀ rule ∈ weaker, ¬ grammar.Beats terminal rule) ∧
        grammar.Beats terminal first := by
  cases found : rules.find? fun rule =>
      decide (grammar.Beats terminal rule) with
  | none =>
      left
      simpa using found
  | some first =>
      right
      obtain ⟨beats, weaker, later, split, none⟩ :=
        List.find?_eq_some_iff_append.mp found
      exact ⟨weaker, first, later, split, by simpa using none,
        by simpa using beats⟩

end Grammar

namespace RowFilling

variable {grammar : Grammar} {anyLookahead : Bool} {number terminal : Nat}
  {state : State} {filling next final : RowFilling} {entry : Entry}
  {entries : List Entry}

/-- A reduction settles its cell. -/
theorem cell_addReduce {rule : Nat} (inside : terminal < filling.row.size)
    (reduced : filling.addReduce grammar anyLookahead number rule terminal =
      .ok next) :
    next.cell terminal =
      (filling.cell terminal).settle grammar terminal rule := by
  have own (action : Action) :
      (filling.set terminal action).cell terminal = action := by
    rw [cell_set inside, if_pos rfl]
  simp only [addReduce] at reduced
  cases current : filling.cell terminal with
  | error =>
      rw [current] at reduced
      cases reduced
      exact own _
  | goto target =>
      rw [current] at reduced
      cases reduced
      exact current
  | accept =>
      rw [current] at reduced
      dsimp only at reduced
      split at reduced
      · cases reduced
        exact own _
      · cases reduced
  | reduce other =>
      rw [current] at reduced
      dsimp only at reduced
      split at reduced
      · rename_i same
        cases reduced
        rw [current, same, Action.settle, Nat.min_self]
      · cases reduced
        exact own _
  | shift target =>
      rw [current] at reduced
      dsimp only at reduced
      split at reduced
      · rename_i beats
        cases reduced
        rw [Action.settle_of_beats beats]
        exact own _
      · rename_i weaker
        cases reduced
        rw [Action.settle_of_not_beats (by simp [Grammar.Beats, weaker])]
        exact own _
      · rename_i weaker
        cases reduced
        rw [Action.settle_of_not_beats (by simp [Grammar.Beats, weaker])]
        exact own _

/-- The rules of the entries settle a cell one after the other. -/
theorem cell_enter (notEnd : terminal ≠ Terminal.endOfInput)
    (inside : entry.column < filling.row.size)
    (entered : filling.enter grammar anyLookahead number entry = .ok next) :
    next.cell terminal = (entry.ruleOn? terminal).toList.foldl
      (Action.settle grammar terminal) (filling.cell terminal) := by
  by_cases own : entry.column = terminal
  · cases entry with
    | accept => exact absurd own.symm notEnd
    | reduce rule column =>
        subst own
        rw [cell_addReduce inside entered]
        simp [Entry.ruleOn?, Entry.column]
  · have none : entry.ruleOn? terminal = none := by
      cases entry with
      | accept => rfl
      | reduce rule column => exact if_neg own
    rw [none]
    rcases (enters_of_enter inside entered).cell inside terminal with
      same | ⟨isColumn, -⟩
    · exact same
    · exact absurd isColumn.symm own

theorem cell_foldlM_enter (notEnd : terminal ≠ Terminal.endOfInput)
    (inside : ∀ entry ∈ entries, entry.column < filling.row.size)
    (result : entries.foldlM (enter grammar anyLookahead number) filling =
      .ok final) :
    final.cell terminal = (entries.filterMap (Entry.ruleOn? terminal)).foldl
      (Action.settle grammar terminal) (filling.cell terminal) := by
  induction entries generalizing filling with
  | nil =>
      cases result
      rfl
  | cons entry rest ih =>
      rw [List.foldlM_cons] at result
      obtain ⟨middle, entered, result⟩ := ok_of_bind result
      have own := inside entry List.mem_cons_self
      have size := (enters_of_enter own entered).size
      rw [ih (fun other later =>
          size.symm ▸ inside other (List.mem_cons_of_mem _ later)) result,
        cell_enter notEnd own entered, ← List.foldl_append]
      congr 1
      cases found : entry.ruleOn? terminal with
      | none => rw [List.filterMap_cons_none found]; rfl
      | some rule => rw [List.filterMap_cons_some found]; rfl

/-- The rules of a state settle the cell that a transition has taken. -/
theorem cell_ofState (wellFormed : grammar.WellFormed)
    (edged : Edged grammar state) (terminated : state.Terminated grammar)
    (notEnd : terminal ≠ Terminal.endOfInput)
    (isTerminal : terminal < grammar.terminals.size) {target : Nat}
    (edge : state.successor? (.terminal terminal) = some target)
    {log : ConflictLog}
    (result : ofState grammar anyLookahead number state log = .ok final) :
    final.cell terminal =
      (state.reducers grammar anyLookahead terminal).foldl
        (Action.settle grammar terminal) (.shift target) := by
  have shift : (transitions grammar state log).cell terminal =
      .shift target := by
    rw [@cell_transitions grammar state wellFormed edged log
      (.terminal terminal) terminal isTerminal rfl, edge]
    exact if_pos isTerminal
  have inside : ∀ entry ∈ Entry.ofState grammar anyLookahead state,
      entry.column < (transitions grammar state log).row.size := by
    intro entry member
    have column := (entry_spec wellFormed.hasEnd terminated member).1
    rw [size_transitions]
    exact Nat.lt_of_lt_of_le column (terminals_le_columnCount wellFormed)
  rw [ofState_eq] at result
  rw [cell_foldlM_enter notEnd inside result,
    Entry.filterMap_ofState isTerminal, shift]

end RowFilling

namespace Automaton

variable {grammar : Grammar} {automaton : Automaton} {number : Nat}

theorem Proper.edged (wellFormed : grammar.WellFormed)
    (proper : automaton.Proper grammar) (number : Nat) :
    RowFilling.Edged grammar (automaton.state number) := by
  constructor
  · exact proper.keyed number
  · intro edge member
    obtain ⟨rule, mentioned⟩ := proper.held number edge member
    exact wellFormed.right_declared rule _ mentioned

theorem Proper.bounded (proper : automaton.Proper grammar) :
    automaton.Bounded := by
  intro number symbol target edge
  exact (proper.targets number _ (proper.keyed.mem_successors.mpr edge)).2

theorem Proper.lt_size (proper : automaton.Proper grammar)
    {word : List Symbol} (leads : automaton.Leads word number) :
    number < automaton.size :=
  leads.lt_size proper.positive proper.bounded

theorem Proper.shiftable (wellFormed : grammar.WellFormed)
    (endUnused : grammar.EndUnused) (proper : automaton.Proper grammar)
    {terminal target : Nat}
    (edge : (automaton.state number).successor? (.terminal terminal) =
      some target) :
    terminal < grammar.terminals.size ∧ terminal ≠ Terminal.endOfInput := by
  obtain ⟨rule, mentioned⟩ :=
    proper.held number _ (proper.keyed.mem_successors.mpr edge)
  refine ⟨wellFormed.right_declared rule _ mentioned, ?_⟩
  rintro rfl
  exact endUnused.not_mem_right rule mentioned

end Automaton

namespace Table

variable {grammar : Grammar} {automaton : Automaton} {anyLookahead : Bool}
  {number terminal target : Nat} {table : Table}

theorem exists_row_of_fillRow {count : Nat} {rows : Array (Array Action)}
    {log : ConflictLog} {filled : Array (Array Action) × ConflictLog}
    (result : fillRow grammar anyLookahead automaton (rows, log) count =
      .ok filled) :
    ∃ row after, filled = (rows.push row, after) ∧
      (automaton.reachable.getD count false = true →
        RowFilling.ofState grammar anyLookahead count (automaton.state count)
          log = .ok { row, log := after }) := by
  simp only [fillRow] at result
  split at result
  · obtain ⟨final, entered, isFilled⟩ := ok_of_bind result
    cases isFilled
    exact ⟨final.row, final.log, rfl, fun _ => entered⟩
  · rename_i unreachable
    cases result
    exact ⟨_, log, rfl, fun reachable => absurd reachable unreachable⟩

/-- The row of every reachable state has been filled. -/
theorem exists_row {count : Nat}
    {filled : Array (Array Action) × ConflictLog}
    (result : fillFirst grammar anyLookahead automaton count = .ok filled) :
    filled.1.size = count ∧ ∀ number < count,
      automaton.reachable.getD number false = true → ∃ before after,
        RowFilling.ofState grammar anyLookahead number
            (automaton.state number) before =
          .ok { row := filled.1.getD number #[]
                log := after } := by
  induction count generalizing filled with
  | zero =>
      cases result
      exact ⟨rfl, fun number none => absurd none (Nat.not_lt_zero number)⟩
  | succ count ih =>
      rw [fillFirst_succ] at result
      obtain ⟨⟨rows, log⟩, before, last⟩ := ok_of_bind result
      obtain ⟨size, earlier⟩ := ih before
      obtain ⟨row, after, rfl, entered⟩ := exists_row_of_fillRow last
      dsimp only at size earlier ⊢
      refine ⟨by rw [Array.size_push, size], ?_⟩
      intro number inside reachable
      rcases Nat.lt_succ_iff_lt_or_eq.mp inside with isOld | rfl
      · rw [getD_push, size, if_neg (Nat.ne_of_lt isOld)]
        exact earlier number isOld reachable
      · rw [getD_push, size, if_pos rfl]
        exact ⟨log, after, entered reachable⟩

/-- The cell of a transition is the work of the rules that reduce there. -/
theorem cell_of_transition (wellFormed : grammar.WellFormed)
    (endUnused : grammar.EndUnused) (proper : automaton.Proper grammar)
    (filled : ofAutomaton grammar automaton anyLookahead = .ok table)
    {word : List Symbol} (leads : automaton.Leads word number)
    (edge : (automaton.state number).successor? (.terminal terminal) =
      some target) :
    table.cell number terminal =
      ((automaton.state number).reducers grammar anyLookahead
        terminal).foldl (Action.settle grammar terminal) (.shift target) := by
  have inside := proper.lt_size leads
  have reachable := (Automaton.reachable_iff proper.positive proper.keyed
    proper.bounded).mpr ⟨word, leads⟩
  obtain ⟨isTerminal, notEnd⟩ := proper.shiftable wellFormed endUnused edge
  obtain ⟨before, after, entered⟩ :=
    (exists_row (ofAutomaton_eq_ok filled).1).2 number inside reachable
  exact RowFilling.cell_ofState wellFormed (proper.edged wellFormed number)
    (proper.terminated number inside) notEnd isTerminal edge entered

/-- The cell of a transition holds the shift if no rule beats it, and else the
least rule from the first one that does so onward. -/
theorem settled_of_transition (wellFormed : grammar.WellFormed)
    (endUnused : grammar.EndUnused) (proper : automaton.Proper grammar)
    (filled : ofAutomaton grammar automaton anyLookahead = .ok table)
    {word : List Symbol} (leads : automaton.Leads word number)
    (edge : (automaton.state number).successor? (.terminal terminal) =
      some target) :
    (table.cell number terminal = .shift target ↔
      ∀ rule ∈ (automaton.state number).reducers grammar anyLookahead terminal,
        ¬ grammar.Beats terminal rule) ∧
    ∀ rule, table.cell number terminal = .reduce rule ↔
      ∃ weaker first later,
        (automaton.state number).reducers grammar anyLookahead terminal =
          weaker ++ first :: later ∧
        (∀ other ∈ weaker, ¬ grammar.Beats terminal other) ∧
        grammar.Beats terminal first ∧
        (first :: later).min? = some rule := by
  have cell :=
    cell_of_transition wellFormed endUnused proper filled leads edge
  have beaten {weaker later : List Nat} {first : Nat}
      (split : (automaton.state number).reducers grammar anyLookahead
        terminal = weaker ++ first :: later)
      (none : ∀ other ∈ weaker, ¬ grammar.Beats terminal other)
      (beats : grammar.Beats terminal first) :
      table.cell number terminal = .reduce (later.foldl min first) := by
    rw [cell, split, Action.foldl_settle_beaten none beats]
  constructor
  · constructor
    · intro shift rule member beats
      rcases grammar.exists_first_beats terminal
          ((automaton.state number).reducers grammar anyLookahead terminal) with
        none | ⟨weaker, first, later, split, none, isFirst⟩
      · exact none rule member beats
      · rw [beaten split none isFirst] at shift
        cases shift
    · intro none
      rw [cell, Action.foldl_settle_shift none]
  · intro rule
    constructor
    · intro reduce
      rcases grammar.exists_first_beats terminal
          ((automaton.state number).reducers grammar anyLookahead terminal) with
        none | ⟨weaker, first, later, split, none, isFirst⟩
      · rw [cell, Action.foldl_settle_shift none] at reduce
        cases reduce
      · rw [beaten split none isFirst] at reduce
        cases reduce
        exact ⟨weaker, first, later, split, none, isFirst, List.min?_cons'⟩
    · rintro ⟨weaker, first, later, split, none, isFirst, least⟩
      rw [beaten split none isFirst]
      rw [List.min?_cons'] at least
      rw [Option.some.inj least]

end Table

theorem exists_reducers_overtaken : ∃ output,
    Grammar.overtaken.generateWithin 0 .standard = .ok output ∧
      (output.automaton.state 2).reducers .overtaken false 3 = [4, 1] := by
  apply exists_ok_of_any
  cbv

/-- The empty rule takes the cell of a shift that it does not beat. -/
theorem shift_yields_to_weaker_overtaken :
    Grammar.overtaken.Accepted ∧ Grammar.overtaken.GoalUnused ∧
      Grammar.overtaken.EndUnused ∧ ∃ output target,
        Grammar.overtaken.generateWithin 0 .standard = .ok output ∧
        output.automaton.Leads [.terminal 2] 2 ∧
        (output.automaton.state 2).successor? (.terminal 3) = some target ∧
        output.table.cell 2 3 = .reduce 1 ∧
        ¬ Grammar.overtaken.Beats 3 1 := by
  obtain ⟨output, result, leads, edge, cell, -⟩ := exists_output_overtaken
  exact ⟨accepted_overtaken, goalUnused_overtaken, endUnused_overtaken, output,
    5, result, leads, edge, cell, by decide⟩

/-- In every table of a constructed automaton, a cell with a transition holds
the shift exactly if no reduction that the state admits on the terminal beats
it.  It holds a reduction exactly if one of those beats the shift, and then the
least rule from the first such one onward.  Every generated table is one of
these. -/
theorem shift_yields_when_beaten {grammar : Grammar}
    (accepted : grammar.Accepted) (endUnused : grammar.EndUnused) :
    (∀ automaton anyLookahead table, automaton.Constructed grammar →
      Table.ofAutomaton grammar automaton anyLookahead = .ok table →
      ∀ word number, automaton.Leads word number →
      ∀ terminal target,
        (automaton.state number).successor? (.terminal terminal) =
          some target →
        (table.cell number terminal = .shift target ↔
          ∀ rule ∈ (automaton.state number).reducers grammar anyLookahead
              terminal, ¬ grammar.Beats terminal rule) ∧
        ∀ rule, table.cell number terminal = .reduce rule ↔
          ∃ weaker first later,
            (automaton.state number).reducers grammar anyLookahead terminal =
              weaker ++ first :: later ∧
            (∀ other ∈ weaker, ¬ grammar.Beats terminal other) ∧
            grammar.Beats terminal first ∧
            (first :: later).min? = some rule) ∧
    ∀ limit options output, grammar.generateWithin limit options = .ok output →
      ∃ automaton anyLookahead, automaton.Constructed grammar ∧
        Table.ofAutomaton grammar automaton anyLookahead =
          .ok output.table := by
  have wellFormed := accepted.wellFormed
  constructor
  · intro automaton anyLookahead table constructed filled word number leads
      terminal target edge
    exact Table.settled_of_transition wellFormed endUnused
      (constructed.proper wellFormed) filled leads edge
  · intro limit options output result
    exact (Grammar.constructed_constructWithin
      (Grammar.built_of_generateWithin result)).2

/-- After `a` the shift yields to the rule for `D`, and the empty rule takes the
cell. -/
theorem shift_yields_when_beaten_overtaken : ∃ automaton table target,
    automaton.Constructed .overtaken ∧
      Table.ofAutomaton .overtaken automaton false = .ok table ∧
      automaton.Leads [.terminal 2] 2 ∧
      (automaton.state 2).successor? (.terminal 3) = some target ∧
      table.cell 2 3 ≠ .shift target ∧
      table.cell 2 3 = .reduce 1 := by
  obtain ⟨output, result, leads, edge, -⟩ := exists_output_overtaken
  obtain ⟨_, again, reducers⟩ := exists_reducers_overtaken
  cases result.symm.trans again
  obtain ⟨found, filled⟩ := Construction.collect?_of_withLookaheads
    (Grammar.built_of_generateWithin result)
  have constructed := Automaton.Constructed.collected found
  obtain ⟨shift, reduce⟩ := (shift_yields_when_beaten accepted_overtaken
    endUnused_overtaken).1 output.automaton false output.table constructed
      filled _ _ leads _ _ edge
  rw [reducers] at shift reduce
  refine ⟨output.automaton, output.table, 5, constructed, filled, leads, edge,
    ?_, ?_⟩
  · rw [Ne, shift]
    decide
  · exact (reduce 1).mpr ⟨[], 4, [1], rfl, by decide, by decide, by decide⟩

end LRTables
