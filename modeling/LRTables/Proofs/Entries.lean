import LRTables.Proofs.Rows

/-!
# Entries of a row

What one entry does to a row, and what all entries of a state do.  An entry
that logs no conflict is found in its cell, and stays there.
-/

namespace LRTables

namespace ConflictLog

theorem conflicts_record (log : ConflictLog) (conflict : Conflict) :
    (log.record conflict).conflicts = log.conflicts.push conflict := by
  rfl

theorem conflicts_record_ne (log : ConflictLog) (conflict : Conflict) :
    (log.record conflict).conflicts ≠ #[] := by
  rw [conflicts_record]
  exact Array.push_ne_empty

end ConflictLog

namespace RowFilling

variable {grammar : Grammar} {anyLookahead : Bool} {number : Nat}
  {state : State} {filling next : RowFilling} {entry : Entry}

/-- What an entry does to a row. -/
inductive Enters (filling : RowFilling) (entry : Entry) : RowFilling → Prop where
  /-- The cell holds the action already, or a goto, which stays. -/
  | idle : (filling.cell entry.column = entry.action ∨
        ∃ target, filling.cell entry.column = .goto target) →
      Enters filling entry filling
  /-- The action is put into a blank cell, or acceptance over a shift. -/
  | put : filling.cell entry.column ≠ entry.action →
      (filling.cell entry.column = .error ∨
        entry = .accept ∧
          ∀ rule, filling.cell entry.column ≠ .reduce rule) →
      Enters filling entry (filling.set entry.column entry.action)
  /-- A conflict is logged in favour of either action. -/
  | clash (conflict : Conflict) (decision : Action) :
      (decision = filling.cell entry.column ∨ decision = entry.action) →
      Enters filling entry
        { row := filling.row.setIfInBounds entry.column decision
          log := filling.log.record conflict }

theorem set_self {column : Nat} (inside : column < filling.row.size) :
    filling.set column (filling.cell column) = filling := by
  cases filling with
  | mk row log =>
      simp only [set, cell, RowFilling.mk.injEq, and_true]
      apply Array.ext
      · simp
      · intro index left right
        rw [Array.getElem_setIfInBounds right]
        split
        · rename_i same
          subst same
          simp
        · rfl

theorem enters_of_enter (inside : entry.column < filling.row.size)
    (entered : filling.enter grammar anyLookahead number entry = .ok next) :
    filling.Enters entry next := by
  cases entry with
  | accept =>
      simp only [enter, addAccept] at entered
      split at entered
      · rename_i rule current
        split at entered
        · cases entered
          exact .clash _ .accept (Or.inr rfl)
        · cases entered
      · rename_i current
        cases entered
        by_cases same : filling.cell Terminal.endOfInput = .accept
        · have idle : filling.Enters .accept filling := .idle (Or.inl same)
          have unchanged := set_self inside
          rw [Entry.column, same] at unchanged
          rwa [unchanged]
        · exact .put same (Or.inr ⟨rfl, current⟩)
  | reduce rule terminal =>
      simp only [enter, addReduce] at entered
      cases current : filling.cell terminal with
      | error =>
          rw [current] at entered
          cases entered
          refine .put ?_ (Or.inl current)
          rw [Entry.column, current]
          intro same
          cases same
      | reduce other =>
          rw [current] at entered
          dsimp only at entered
          split at entered
          · rename_i same
            subst same
            cases entered
            exact .idle (Or.inl current)
          · cases entered
            refine .clash _ (.reduce (min other rule)) ?_
            rw [Entry.column, current]
            rcases Nat.le_total other rule with before | after
            · exact Or.inl (by rw [Nat.min_eq_left before])
            · exact Or.inr (by rw [Nat.min_eq_right after]; rfl)
      | accept =>
          rw [current] at entered
          dsimp only at entered
          split at entered
          · cases entered
            exact .clash _ .accept (Or.inl current.symm)
          · cases entered
      | shift target =>
          rw [current] at entered
          dsimp only at entered
          split at entered
          · cases entered
            exact .clash _ (.reduce rule) (Or.inr rfl)
          · cases entered
            exact .clash _ (.shift target) (Or.inl current.symm)
          · cases entered
            exact .clash _ (.shift target) (Or.inl current.symm)
      | goto target =>
          rw [current] at entered
          cases entered
          exact .idle (Or.inr ⟨target, current⟩)

theorem Enters.size (enters : filling.Enters entry next) :
    next.row.size = filling.row.size := by
  cases enters with
  | idle => rfl
  | put => exact size_set
  | clash => simp

theorem Enters.cell (inside : entry.column < filling.row.size)
    (enters : filling.Enters entry next) (column : Nat) :
    next.cell column = filling.cell column ∨
      column = entry.column ∧ next.cell column = entry.action := by
  cases enters with
  | idle => exact Or.inl rfl
  | put =>
      rw [cell_set inside]
      split
      · rename_i same
        exact Or.inr ⟨same, rfl⟩
      · exact Or.inl rfl
  | clash conflict decision chosen =>
      have value := @cell_set filling entry.column column decision inside
      change ({ row := filling.row.setIfInBounds entry.column decision
                log := filling.log.record conflict } : RowFilling).cell
                  column = _ at value
      rw [value]
      split
      · rename_i same
        subst same
        rcases chosen with rfl | rfl
        · exact Or.inl rfl
        · exact Or.inr ⟨rfl, rfl⟩
      · exact Or.inl rfl

/-- What an entry does when no conflict is logged. -/
theorem Enters.clean (inside : entry.column < filling.row.size)
    (enters : filling.Enters entry next)
    (clean : next.log.conflicts = #[])
    (noGoto : ∀ target, filling.cell entry.column ≠ .goto target) :
    next.log = filling.log ∧ next.cell entry.column = entry.action ∧
      ∀ column, filling.cell column ≠ .error →
        next.cell column = filling.cell column ∨
          column = entry.column ∧ entry = .accept ∧
            ∀ rule, filling.cell column ≠ .reduce rule := by
  cases enters with
  | idle holds =>
      rcases holds with same | ⟨target, goto⟩
      · exact ⟨rfl, same, fun _ _ => Or.inl rfl⟩
      · exact absurd goto (noGoto target)
  | put _ free =>
      refine ⟨rfl, ?_, ?_⟩
      · rw [cell_set inside, if_pos rfl]
      · intro column taken
        rw [cell_set inside]
        split
        · rename_i same
          subst same
          rcases free with blank | accepting
          · exact absurd blank taken
          · exact Or.inr ⟨rfl, accepting⟩
        · exact Or.inl rfl
  | clash conflict =>
      exact absurd clean (ConflictLog.conflicts_record_ne _ conflict)

/-- A property that every entry keeps. -/
theorem foldlM_enter_induction (property : RowFilling → Prop)
    {entries : List Entry} {filling final : RowFilling}
    (result : entries.foldlM (enter grammar anyLookahead number) filling =
      .ok final)
    (holds : property filling)
    (step : ∀ (middle next : RowFilling), property middle →
      ∀ entry ∈ entries,
        middle.enter grammar anyLookahead number entry = .ok next →
          property next) :
    property final := by
  induction entries generalizing filling with
  | nil =>
      cases result
      exact holds
  | cons entry rest ih =>
      rw [List.foldlM_cons] at result
      obtain ⟨middle, entered, result⟩ := ok_of_bind result
      apply ih result
      · exact step filling middle holds entry List.mem_cons_self entered
      · intro before after property other member
        exact step before after property other
          (List.mem_cons_of_mem _ member)

/-- Every action of the row is justified by the state. -/
structure Justified (grammar : Grammar) (anyLookahead : Bool) (state : State)
    (filling : RowFilling) : Prop where
  size : filling.row.size = grammar.columnCount
  shift : ∀ column target, filling.cell column = .shift target →
    column < grammar.terminals.size ∧
      state.successor? (.terminal column) = some target
  goto : ∀ column target, filling.cell column = .goto target →
    grammar.terminals.size ≤ column
  reduce : ∀ column rule, filling.cell column = .reduce rule →
    state.Reduces grammar anyLookahead rule column
  accept : ∀ column, filling.cell column = .accept →
    column = Terminal.endOfInput ∧ state.Accepts grammar anyLookahead
  nonterminal : ∀ nonterminal column,
    grammar.Declares (.nonterminal nonterminal) →
    grammar.columnOf (.nonterminal nonterminal) = some column →
      filling.cell column =
        match state.successor? (.nonterminal nonterminal) with
        | some target => .goto target
        | none => .error

theorem exists_symbol_of_column {column : Nat}
    (inside : column < grammar.columnCount) :
    ∃ symbol, grammar.Declares symbol ∧
      grammar.columnOf symbol = some column := by
  by_cases terminal : column < grammar.terminals.size
  · exact ⟨.terminal column, terminal, rfl⟩
  · refine ⟨.nonterminal (column - grammar.terminals.size + 1), ?_, ?_⟩
    · show column - grammar.terminals.size + 1 < grammar.nonterminals.size
      rw [Grammar.columnCount] at inside
      omega
    · show some (grammar.terminals.size +
        (column - grammar.terminals.size)) = some column
      rw [Nat.add_sub_cancel' (Nat.le_of_not_lt terminal)]

theorem cell_of_size_le {column : Nat} (outside : filling.row.size ≤ column) :
    filling.cell column = .error := by
  rw [cell, Array.getD_eq_getD_getElem?, Array.getElem?_eq_none outside]
  rfl

theorem transitionAction_eq_shift {column target next : Nat} :
    transitionAction grammar column target = .shift next ↔
      column < grammar.terminals.size ∧ target = next := by
  rw [transitionAction]
  split
  · rename_i inside
    simp [inside]
  · rename_i outside
    simp [outside]

theorem transitionAction_eq_goto {column target next : Nat} :
    transitionAction grammar column target = .goto next ↔
      grammar.terminals.size ≤ column ∧ target = next := by
  rw [transitionAction]
  split
  · rename_i inside
    simp [Nat.not_le.mpr inside]
  · rename_i outside
    simp [Nat.le_of_not_lt outside]

theorem le_columnOf_nonterminal {nonterminal column : Nat}
    (isColumn : grammar.columnOf (.nonterminal nonterminal) = some column) :
    grammar.terminals.size ≤ column := by
  cases nonterminal with
  | zero => cases isColumn
  | succ index =>
      cases isColumn
      exact Nat.le_add_right _ _

/-- Before any entry is made, a cell is blank or holds a transition. -/
theorem cell_transitions_cases (wellFormed : grammar.WellFormed)
    (edged : Edged grammar state) (log : ConflictLog) (column : Nat) :
    (transitions grammar state log).cell column = .error ∨
      ∃ symbol target, grammar.Declares symbol ∧
        grammar.columnOf symbol = some column ∧
        state.successor? symbol = some target ∧
        (transitions grammar state log).cell column =
          transitionAction grammar column target := by
  by_cases inside : column < grammar.columnCount
  · obtain ⟨symbol, declared, isColumn⟩ := exists_symbol_of_column inside
    have value := @cell_transitions grammar state wellFormed edged log
      symbol column declared isColumn
    cases found : state.successor? symbol with
    | none =>
        rw [found] at value
        exact Or.inl value
    | some target =>
        rw [found] at value
        exact Or.inr ⟨symbol, target, declared, isColumn, found, value⟩
  · left
    apply cell_of_size_le
    rw [size_transitions]
    exact Nat.le_of_not_lt inside

theorem cell_transitions_ne_reduce (wellFormed : grammar.WellFormed)
    (edged : Edged grammar state) (log : ConflictLog) (column rule : Nat) :
    (transitions grammar state log).cell column ≠ .reduce rule := by
  intro holds
  rcases cell_transitions_cases wellFormed edged log column with
    blank | ⟨symbol, next, -, -, -, value⟩
  · rw [blank] at holds
    cases holds
  · rw [value, transitionAction] at holds
    split at holds <;> cases holds

theorem justified_transitions (wellFormed : grammar.WellFormed)
    (edged : Edged grammar state) (log : ConflictLog) :
    Justified grammar anyLookahead state (transitions grammar state log) := by
  have cases := cell_transitions_cases wellFormed edged log
  constructor
  · exact size_transitions
  · intro column target holds
    rcases cases column with blank | ⟨symbol, next, declared, isColumn, edge, value⟩
    · rw [blank] at holds
      cases holds
    · rw [value, transitionAction_eq_shift] at holds
      obtain ⟨inside, rfl⟩ := holds
      have isTerminal : symbol = .terminal column :=
        columnOf_injective declared inside isColumn rfl
      rw [← isTerminal]
      exact ⟨inside, edge⟩
  · intro column target holds
    rcases cases column with blank | ⟨symbol, next, -, -, -, value⟩
    · rw [blank] at holds
      cases holds
    · rw [value, transitionAction_eq_goto] at holds
      exact holds.1
  · intro column rule holds
    exact absurd holds
      (cell_transitions_ne_reduce wellFormed edged log column rule)
  · intro column holds
    rcases cases column with blank | ⟨symbol, next, -, -, -, value⟩
    · rw [blank] at holds
      cases holds
    · rw [value, transitionAction] at holds
      split at holds <;> cases holds
  · intro nonterminal column declared isColumn
    rw [cell_transitions wellFormed edged declared isColumn]
    have past := le_columnOf_nonterminal isColumn
    cases state.successor? (.nonterminal nonterminal) with
    | none => rfl
    | some target =>
        simp [transitionAction, Nat.not_lt.mpr past]

theorem entry_spec (hasEnd : Terminal.endOfInput < grammar.terminals.size)
    (terminated : state.Terminated grammar)
    (member : entry ∈ Entry.ofState grammar anyLookahead state) :
    entry.column < grammar.terminals.size ∧
      ((entry = .accept ∧ state.Accepts grammar anyLookahead) ∨
        ∃ rule terminal, entry = .reduce rule terminal ∧
          state.Reduces grammar anyLookahead rule terminal) := by
  cases entry with
  | accept =>
      rw [State.accept_mem_entries hasEnd] at member
      exact ⟨hasEnd, Or.inl ⟨rfl, member⟩⟩
  | reduce rule terminal =>
      rw [State.reduce_mem_entries] at member
      refine ⟨?_, Or.inr ⟨rule, terminal, rfl, member⟩⟩
      obtain ⟨item, offers, -⟩ := member
      exact offers.lt terminated

theorem terminals_le_columnCount (wellFormed : grammar.WellFormed) :
    grammar.terminals.size ≤ grammar.columnCount := by
  have goal := wellFormed.left_declared goalRule
  rw [Grammar.columnCount]
  omega

theorem Justified.enter (wellFormed : grammar.WellFormed)
    (terminated : state.Terminated grammar)
    (justified : Justified grammar anyLookahead state filling)
    (member : entry ∈ Entry.ofState grammar anyLookahead state)
    (entered : filling.enter grammar anyLookahead number entry = .ok next) :
    Justified grammar anyLookahead state next := by
  obtain ⟨isTerminal, meaning⟩ :=
    entry_spec wellFormed.hasEnd terminated member
  have inside : entry.column < filling.row.size := by
    rw [justified.size]
    exact Nat.lt_of_lt_of_le isTerminal (terminals_le_columnCount wellFormed)
  have enters := enters_of_enter inside entered
  have cell := enters.cell inside
  constructor
  · rw [enters.size]
    exact justified.size
  · intro column target holds
    rcases cell column with same | ⟨-, own⟩
    · rw [same] at holds
      exact justified.shift column target holds
    · rw [own] at holds
      cases entry <;> cases holds
  · intro column target holds
    rcases cell column with same | ⟨-, own⟩
    · rw [same] at holds
      exact justified.goto column target holds
    · rw [own] at holds
      cases entry <;> cases holds
  · intro column rule holds
    rcases cell column with same | ⟨isColumn, own⟩
    · rw [same] at holds
      exact justified.reduce column rule holds
    · rw [own] at holds
      rcases meaning with ⟨rfl, -⟩ | ⟨other, terminal, rfl, reduces⟩
      · cases holds
      · cases holds
        rw [isColumn]
        exact reduces
  · intro column holds
    rcases cell column with same | ⟨isColumn, own⟩
    · rw [same] at holds
      exact justified.accept column holds
    · rw [own] at holds
      rcases meaning with ⟨rfl, accepts⟩ | ⟨other, terminal, rfl, -⟩
      · exact ⟨isColumn, accepts⟩
      · cases holds
  · intro nonterminal column declared isColumn
    have past := le_columnOf_nonterminal isColumn
    rcases cell column with same | ⟨equal, -⟩
    · rw [same]
      exact justified.nonterminal nonterminal column declared isColumn
    · omega

theorem justified_ofState (wellFormed : grammar.WellFormed)
    (edged : Edged grammar state) (terminated : state.Terminated grammar)
    {log : ConflictLog} {final : RowFilling}
    (result : ofState grammar anyLookahead number state log = .ok final) :
    Justified grammar anyLookahead state final := by
  rw [ofState_eq] at result
  apply foldlM_enter_induction (Justified grammar anyLookahead state) result
  · exact justified_transitions wellFormed edged log
  · intro middle next justified entry member entered
    exact justified.enter wellFormed terminated member entered

theorem Justified.column_lt (wellFormed : grammar.WellFormed)
    (justified : Justified grammar anyLookahead state filling) {column : Nat}
    (isTerminal : column < grammar.terminals.size) :
    column < filling.row.size := by
  rw [justified.size]
  exact Nat.lt_of_lt_of_le isTerminal (terminals_le_columnCount wellFormed)

theorem Justified.ne_goto
    (justified : Justified grammar anyLookahead state filling) {column : Nat}
    (isTerminal : column < grammar.terminals.size) (target : Nat) :
    filling.cell column ≠ .goto target := by
  intro holds
  have past := justified.goto column target holds
  omega

/-- Entries that log nothing are all found in the end, and what stood in a cell
is still there unless acceptance took its place. -/
theorem foldlM_enter_clean (wellFormed : grammar.WellFormed)
    (terminated : state.Terminated grammar) {entries : List Entry}
    {final : RowFilling}
    (members : ∀ entry ∈ entries,
      entry ∈ Entry.ofState grammar anyLookahead state)
    (justified : Justified grammar anyLookahead state filling)
    (result : entries.foldlM (enter grammar anyLookahead number) filling =
      .ok final)
    (clean : final.log.conflicts = #[]) :
    final.log = filling.log ∧
      (∀ entry ∈ entries, final.cell entry.column = entry.action) ∧
      ∀ column, filling.cell column ≠ .error →
        final.cell column = filling.cell column ∨
          column = Terminal.endOfInput ∧ .accept ∈ entries ∧
            ∀ rule, filling.cell column ≠ .reduce rule := by
  induction entries generalizing filling with
  | nil =>
      cases result
      refine ⟨rfl, ?_, fun _ _ => Or.inl rfl⟩
      intro entry member
      cases member
  | cons entry rest ih =>
      have member := members entry List.mem_cons_self
      have isTerminal :=
        (entry_spec wellFormed.hasEnd terminated member).1
      have inside := justified.column_lt wellFormed isTerminal
      rw [List.foldlM_cons] at result
      obtain ⟨middle, entered, result⟩ := ok_of_bind result
      obtain ⟨log, found, kept⟩ := ih
        (fun other later => members other (List.mem_cons_of_mem _ later))
        (justified.enter wellFormed terminated member entered) result
      have enters := enters_of_enter inside entered
      obtain ⟨sameLog, own, stays⟩ := enters.clean inside
        (by rw [← log]; exact clean) (justified.ne_goto isTerminal)
      refine ⟨log.trans sameLog, ?_, ?_⟩
      · intro other otherMember
        rcases List.mem_cons.mp otherMember with rfl | later
        · have taken : middle.cell other.column ≠ .error := by
            rw [own]
            cases other <;> exact fun same => nomatch same
          rcases kept _ taken with same | ⟨_, accepting, notReduce⟩
          · rw [same, own]
          · cases other with
            | accept => exact found _ accepting
            | reduce rule terminal => exact absurd own (notReduce rule)
        · exact found other later
      · intro column taken
        rcases stays column taken with same | ⟨isColumn, rfl, notReduce⟩
        · rw [← same] at taken ⊢
          rcases kept column taken with still | ⟨isEnd, accepting, no⟩
          · exact Or.inl still
          · exact Or.inr ⟨isEnd, List.mem_cons_of_mem _ accepting, no⟩
        · exact Or.inr ⟨isColumn, List.mem_cons_self, notReduce⟩

/-- The row holds all that the state offers. -/
structure Complete (grammar : Grammar) (anyLookahead : Bool) (state : State)
    (filling : RowFilling) : Prop where
  reduce : ∀ rule terminal,
    state.Reduces grammar anyLookahead rule terminal →
      filling.cell terminal = .reduce rule
  accept : state.Accepts grammar anyLookahead →
    filling.cell Terminal.endOfInput = .accept
  shift : ∀ terminal target, terminal < grammar.terminals.size →
    state.successor? (.terminal terminal) = some target →
      filling.cell terminal = .shift target ∨
        terminal = Terminal.endOfInput ∧
          state.Accepts grammar anyLookahead

/-- A row without logged conflicts is complete. -/
theorem complete_ofState (wellFormed : grammar.WellFormed)
    (edged : Edged grammar state) (terminated : state.Terminated grammar)
    {log : ConflictLog} {final : RowFilling}
    (result : ofState grammar anyLookahead number state log = .ok final)
    (clean : final.log.conflicts = #[]) :
    final.log = log ∧ Complete grammar anyLookahead state final := by
  rw [ofState_eq] at result
  obtain ⟨sameLog, found, kept⟩ := foldlM_enter_clean wellFormed terminated
    (fun _ member => member) (justified_transitions wellFormed edged log)
    result clean
  refine ⟨sameLog.trans log_transitions, ?_⟩
  constructor
  · intro rule terminal reduces
    exact found _ (State.reduce_mem_entries.mpr reduces)
  · intro accepts
    exact found _ ((State.accept_mem_entries wellFormed.hasEnd).mpr accepts)
  · intro terminal target isTerminal edge
    have value : (transitions grammar state log).cell terminal =
        .shift target := by
      rw [@cell_transitions grammar state wellFormed edged log
        (.terminal terminal) terminal isTerminal rfl, edge]
      simp [transitionAction, isTerminal]
    have taken : (transitions grammar state log).cell terminal ≠ .error := by
      rw [value]
      exact fun same => nomatch same
    rcases kept terminal taken with same | ⟨isEnd, accepting, -⟩
    · exact Or.inl (same.trans value)
    · right
      rw [State.accept_mem_entries wellFormed.hasEnd] at accepting
      exact ⟨isEnd, accepting⟩

end RowFilling

end LRTables
