import LRTables.Proofs.FaithfulAutomata
import LRTables.Proofs.Tables

/-!
# Clashes with acceptance

Filling a row fails only where a reduction meets acceptance and lookaheads
count.  One state accepts, after the start symbol, and its lookaheads are those
that this word admits, so that every faithful automaton is refused for the same
rule or not at all.
-/

namespace LRTables

/-- Acceptance meets no reduction, or lookaheads do not count. -/
def State.Clashless (grammar : Grammar) (anyLookahead : Bool) (state : State) :
    Prop :=
  anyLookahead = true ∨ (state.Accepts grammar anyLookahead → ∀ rule,
    ¬ state.Reduces grammar anyLookahead rule Terminal.endOfInput)

namespace RowFilling

variable {grammar : Grammar} {anyLookahead : Bool} {number rule terminal : Nat}
  {state : State} {filling : RowFilling} {entries : List Entry}

theorem addAccept_of_free
    (free : ∀ rule, filling.cell Terminal.endOfInput ≠ .reduce rule) :
    filling.addAccept anyLookahead number =
      .ok (filling.set Terminal.endOfInput .accept) := by
  unfold addAccept
  dsimp only
  split
  · rename_i rule current
    exact absurd current (free rule)
  · rfl

theorem exists_addAccept (free : anyLookahead = true ∨
      ∀ rule, filling.cell Terminal.endOfInput ≠ .reduce rule) :
    ∃ next, filling.addAccept anyLookahead number = .ok next := by
  unfold addAccept
  dsimp only
  split
  · rename_i rule current
    rw [if_pos (free.resolve_right fun none => none rule current)]
    exact ⟨_, rfl⟩
  · exact ⟨_, rfl⟩

theorem exists_addReduce (free : anyLookahead = true ∨
      filling.cell terminal ≠ .accept) :
    ∃ next, filling.addReduce grammar anyLookahead number rule terminal =
      .ok next := by
  unfold addReduce
  dsimp only
  split
  · exact ⟨_, rfl⟩
  · split <;> exact ⟨_, rfl⟩
  · rename_i current
    rw [if_pos (free.resolve_right fun none => none current)]
    exact ⟨_, rfl⟩
  · split <;> exact ⟨_, rfl⟩
  · exact ⟨_, rfl⟩

theorem exists_enter (wellFormed : grammar.WellFormed)
    (terminated : state.Terminated grammar)
    (clashless : state.Clashless grammar anyLookahead)
    (justified : Justified grammar anyLookahead state filling) {entry : Entry}
    (member : entry ∈ Entry.ofState grammar anyLookahead state) :
    ∃ next, filling.enter grammar anyLookahead number entry = .ok next := by
  obtain ⟨-, ⟨rfl, accepts⟩ | ⟨rule, terminal, rfl, reduces⟩⟩ :=
    entry_spec wellFormed.hasEnd terminated member
  · apply exists_addAccept
    refine clashless.imp_right fun apart rule current => ?_
    exact apart accepts rule (justified.reduce _ rule current)
  · apply exists_addReduce
    refine clashless.imp_right fun apart current => ?_
    obtain ⟨rfl, accepts⟩ := justified.accept _ current
    exact apart accepts rule reduces

theorem exists_foldlM_of_clashless (wellFormed : grammar.WellFormed)
    (terminated : state.Terminated grammar)
    (clashless : state.Clashless grammar anyLookahead)
    (members : ∀ entry ∈ entries,
      entry ∈ Entry.ofState grammar anyLookahead state)
    (justified : Justified grammar anyLookahead state filling) :
    ∃ final, entries.foldlM (enter grammar anyLookahead number) filling =
      .ok final := by
  induction entries generalizing filling with
  | nil => exact ⟨filling, rfl⟩
  | cons entry rest ih =>
      have member := members entry List.mem_cons_self
      obtain ⟨middle, entered⟩ := exists_enter wellFormed terminated clashless
        justified member
      rw [List.foldlM_cons, entered]
      exact ih (fun other later => members other (List.mem_cons_of_mem _ later))
        (justified.enter wellFormed terminated member entered)

theorem exists_ofState (wellFormed : grammar.WellFormed)
    (edged : Edged grammar state) (terminated : state.Terminated grammar)
    (clashless : state.Clashless grammar anyLookahead) (number : Nat)
    (log : ConflictLog) :
    ∃ final, ofState grammar anyLookahead number state log = .ok final := by
  rw [ofState_eq]
  exact exists_foldlM_of_clashless wellFormed terminated clashless
    (fun _ member => member) (justified_transitions wellFormed edged log)

/-- The row accepts at the end of input and nowhere else. -/
structure AcceptsAtEnd (filling : RowFilling) : Prop where
  accepts : filling.cell Terminal.endOfInput = .accept
  alone : ∀ column, filling.cell column = .accept →
    column = Terminal.endOfInput

theorem acceptsAtEnd_set (inside : Terminal.endOfInput < filling.row.size)
    (others : ∀ column, filling.cell column = .accept →
      column = Terminal.endOfInput) :
    (filling.set Terminal.endOfInput .accept).AcceptsAtEnd := by
  constructor
  · rw [cell_set inside, if_pos rfl]
  · intro column holds
    rw [cell_set inside] at holds
    split at holds
    · assumption
    · exact others column holds

/-- An entry that is no reduction at the end of input leaves acceptance
alone. -/
theorem AcceptsAtEnd.enter {entry : Entry} (accepting : filling.AcceptsAtEnd)
    (inside : entry.column < filling.row.size)
    (apart : entry.ruleOn? Terminal.endOfInput = none) :
    ∃ next, filling.enter grammar false number entry = .ok next ∧
      next.AcceptsAtEnd ∧ next.row.size = filling.row.size := by
  cases entry with
  | accept =>
      have free (rule : Nat) :
          filling.cell Terminal.endOfInput ≠ .reduce rule := by
        rw [accepting.accepts]
        exact nofun
      refine ⟨_, addAccept_of_free free, acceptsAtEnd_set inside ?_, size_set⟩
      exact accepting.alone
  | reduce rule terminal =>
      have notEnd : terminal ≠ Terminal.endOfInput := by
        rintro rfl
        rw [Entry.ruleOn?, if_pos rfl] at apart
        cases apart
      obtain ⟨next, entered⟩ := @exists_addReduce grammar false number rule
        terminal filling
        (Or.inr fun holds => notEnd (accepting.alone terminal holds))
      have enters := enters_of_enter inside entered
      refine ⟨next, entered, ⟨?_, ?_⟩, enters.size⟩
      · rcases enters.cell inside Terminal.endOfInput with
          same | ⟨isColumn, -⟩
        · exact same.trans accepting.accepts
        · exact absurd isColumn.symm notEnd
      · intro column holds
        rcases enters.cell inside column with same | ⟨-, action⟩
        · exact accepting.alone column (same ▸ holds)
        · rw [action] at holds
          cases holds

/-- Once the row accepts, the first reduction at the end of input is refused. -/
theorem AcceptsAtEnd.foldlM_eq_error (accepting : filling.AcceptsAtEnd)
    (inside : ∀ entry ∈ entries, entry.column < filling.row.size)
    (first : (entries.filterMap
      (Entry.ruleOn? Terminal.endOfInput)).head? = some rule) :
    entries.foldlM (RowFilling.enter grammar false number) filling =
      .error (.acceptReduceClash number rule) := by
  induction entries generalizing filling with
  | nil => cases first
  | cons entry rest ih =>
      cases found : entry.ruleOn? Terminal.endOfInput with
      | none =>
          obtain ⟨next, entered, still, size⟩ := @AcceptsAtEnd.enter grammar
            number filling entry accepting (inside entry List.mem_cons_self)
            found
          rw [List.filterMap_cons_none found] at first
          rw [List.foldlM_cons, entered]
          exact ih still (fun other member =>
            size ▸ inside other (List.mem_cons_of_mem _ member)) first
      | some other =>
          rw [List.filterMap_cons_some found] at first
          cases first
          cases entry with
          | accept => cases found
          | reduce own terminal =>
              rw [Entry.ruleOn?, Option.ite_none_right_eq_some] at found
              obtain ⟨rfl, same⟩ := found
              cases same
              rw [List.foldlM_cons]
              simp only [RowFilling.enter, addReduce, accepting.accepts]
              rfl

/-- A state whose first final configuration accepts is refused for its first
reduction at the end of input. -/
theorem ofState_eq_error (wellFormed : grammar.WellFormed)
    (edged : Edged grammar state) (terminated : state.Terminated grammar)
    {rest : List Entry}
    (accepts : Entry.ofState grammar false state = .accept :: rest)
    (first : (state.reducers grammar false Terminal.endOfInput).head? =
      some rule) (number : Nat) (log : ConflictLog) :
    ofState grammar false number state log =
      .error (.acceptReduceClash number rule) := by
  have inside : ∀ entry ∈ Entry.accept :: rest,
      entry.column < (transitions grammar state log).row.size := by
    intro entry member
    rw [← accepts] at member
    have column := (entry_spec wellFormed.hasEnd terminated member).1
    rw [size_transitions]
    exact Nat.lt_of_lt_of_le column (terminals_le_columnCount wellFormed)
  have own := inside .accept List.mem_cons_self
  have justified : Justified grammar false state
      (transitions grammar state log) :=
    justified_transitions wellFormed edged log
  have accepting := acceptsAtEnd_set own fun column holds =>
    (justified.accept column holds).1
  rw [← Entry.filterMap_ofState wellFormed.hasEnd, accepts,
    List.filterMap_cons_none rfl] at first
  rw [ofState_eq, accepts, List.foldlM_cons, enter, addAccept_of_free
    (cell_transitions_ne_reduce wellFormed edged log Terminal.endOfInput)]
  refine accepting.foldlM_eq_error ?_ first
  intro entry member
  rw [size_set]
  exact inside entry (List.mem_cons_of_mem _ member)

end RowFilling

namespace Table

variable {grammar : Grammar} {automaton : Automaton} {anyLookahead : Bool}
  {number count : Nat}

/-- The first rows can be filled unless one of them is refused. -/
theorem exists_fillFirst
    (each : ∀ number < count, automaton.reachable.getD number false = true →
      ∀ log, ∃ final, RowFilling.ofState grammar anyLookahead number
        (automaton.state number) log = .ok final) :
    ∃ filled, fillFirst grammar anyLookahead automaton count = .ok filled := by
  induction count with
  | zero => exact ⟨_, rfl⟩
  | succ count ih =>
      obtain ⟨⟨rows, log⟩, before⟩ := ih fun number inside =>
        each number (Nat.lt_succ_of_lt inside)
      rw [fillFirst_succ, before]
      simp only [Except.bind, fillRow]
      split
      · rename_i reachable
        obtain ⟨final, entered⟩ :=
          each count (Nat.lt_succ_self count) reachable log
        rw [entered]
        exact ⟨_, rfl⟩
      · exact ⟨_, rfl⟩

/-- A row that is refused stops the filling. -/
theorem fillFirst_eq_error {error : ConstructionError}
    (inside : number < count)
    (reachable : automaton.reachable.getD number false = true)
    (before : ∃ filled,
      fillFirst grammar anyLookahead automaton number = .ok filled)
    (refused : ∀ log, RowFilling.ofState grammar anyLookahead number
      (automaton.state number) log = .error error) :
    fillFirst grammar anyLookahead automaton count = .error error := by
  induction count with
  | zero => exact absurd inside (Nat.not_lt_zero number)
  | succ count ih =>
      rw [fillFirst_succ]
      rcases Nat.lt_succ_iff_lt_or_eq.mp inside with earlier | rfl
      · rw [ih earlier]
        rfl
      · obtain ⟨⟨rows, log⟩, filled⟩ := before
        rw [filled]
        simp only [Except.bind, fillRow]
        rw [if_pos reachable, refused]
        rfl

variable (wellFormed : grammar.WellFormed)
  (framed : automaton.Framed grammar)
  (terminated : automaton.Terminated grammar)

include wellFormed framed terminated in
theorem exists_ofState (clashless : (automaton.state number).Clashless grammar
      anyLookahead) (inside : number < automaton.size) (log : ConflictLog) :
    ∃ final, RowFilling.ofState grammar anyLookahead number
      (automaton.state number) log = .ok final :=
  RowFilling.exists_ofState wellFormed (framed.edged wellFormed number)
    (terminated number inside) clashless number log

include wellFormed framed terminated in
theorem exists_ofAutomaton
    (clashless : ∀ word number, automaton.Leads word number →
      (automaton.state number).Clashless grammar anyLookahead) :
    ∃ table, ofAutomaton grammar automaton anyLookahead = .ok table := by
  obtain ⟨filled, rows⟩ := @exists_fillFirst grammar automaton anyLookahead
    automaton.size fun number inside reachable log => by
      obtain ⟨word, leads⟩ := framed.reachable_iff.mp reachable
      exact exists_ofState wellFormed framed terminated
        (clashless word number leads) inside log
  rw [ofAutomaton, fillRows_eq, rows]
  exact ⟨_, rfl⟩

include wellFormed framed terminated in
/-- A state that is refused is named if it is the only one. -/
theorem ofAutomaton_eq_error {error : ConstructionError} {word : List Symbol}
    (leads : automaton.Leads word number)
    (refused : ∀ log, RowFilling.ofState grammar anyLookahead number
      (automaton.state number) log = .error error)
    (others : ∀ front other, automaton.Leads front other → other ≠ number →
      (automaton.state other).Clashless grammar anyLookahead) :
    ofAutomaton grammar automaton anyLookahead = .error error := by
  have inside := framed.lt_size leads
  have before := @exists_fillFirst grammar automaton anyLookahead number
    fun other earlier reachable log => by
      obtain ⟨front, frontLeads⟩ := framed.reachable_iff.mp reachable
      exact exists_ofState wellFormed framed terminated
        (others front other frontLeads (Nat.ne_of_lt earlier))
        (Nat.lt_trans earlier inside) log
  have rows := fillFirst_eq_error inside
    (framed.reachable_iff.mpr ⟨word, leads⟩) before refused
  rw [ofAutomaton, fillRows_eq, rows]
  rfl

end Table

/-- At the end of input, when the start symbol has been read, a rule can be
reduced. -/
def Grammar.ReducesAtEnd (grammar : Grammar) : Prop :=
  ∃ item : Item, grammar.Admits [.nonterminal grammar.start] item
      Terminal.endOfInput ∧
    item.isFinal grammar = true ∧ item.rule ≠ goalRule

/-- States with the same items and lookaheads reduce by the same rules. -/
theorem State.reducers_congr {grammar : Grammar} {one other : State}
    {terminal : Nat} (items : other.items = one.items)
    (contexts : ∀ index < one.configurations.size,
      (terminal ∈ (other.configuration index).context ↔
        terminal ∈ (one.configuration index).context)) :
    other.reducers grammar false terminal =
      one.reducers grammar false terminal := by
  have size : other.configurations.size = one.configurations.size := by
    simpa [State.items] using congrArg List.length items
  have item {index : Nat} (inside : index < one.configurations.size) :
      (other.configuration index).item = (one.configuration index).item :=
    (State.item_of_items_eq items inside).2
  have finals : other.finals grammar = one.finals grammar := by
    rw [State.finals, State.finals, size]
    apply List.filter_congr
    intro index listed
    rw [item (List.mem_range.mp listed)]
  rw [reducers, reducers, finals, List.filter_map, List.filter_map,
    List.map_map, List.map_map]
  have inside {index : Nat} (listed : index ∈ one.finals grammar) :
      index < one.configurations.size :=
    (State.mem_finals.mp listed).1
  have kept : (one.finals grammar).filter
      (reducesOn false terminal ∘ other.configuration) =
        (one.finals grammar).filter
          (reducesOn false terminal ∘ one.configuration) := by
    apply List.filter_congr
    intro index listed
    have same := contexts index (inside listed)
    rw [TerminalSet.mem_iff_contains, TerminalSet.mem_iff_contains,
      ← Bool.eq_iff_iff] at same
    simp only [Function.comp_apply, reducesOn, item (inside listed), same]
  rw [kept]
  apply List.map_congr_left
  intro index listed
  exact congrArg Item.rule (item (inside (List.mem_filter.mp listed).1))

theorem State.entries_eq_accept {grammar : Grammar} {state : State}
    (inside : 0 < state.configurations.size)
    (final : (state.configuration 0).item.isFinal grammar = true)
    (isGoal : (state.configuration 0).item.rule = goalRule)
    (atEnd : Terminal.endOfInput ∈ (state.configuration 0).context) :
    ∃ rest, Entry.ofState grammar false state = .accept :: rest := by
  obtain ⟨count, size⟩ := Nat.exists_eq_add_one_of_ne_zero (Nat.ne_of_gt inside)
  have first : Entry.ofFinal grammar false (state.configuration 0) =
      [.accept] := by
    rw [Entry.ofFinal, if_pos isGoal, if_pos]
    simpa [TerminalSet.mem_iff_contains] using atEnd
  rw [Entry.ofState, finals, size, List.range_succ_eq_map,
    List.filter_cons_of_pos (by simpa using final), List.map_cons,
    List.flatMap_cons, first]
  exact ⟨_, rfl⟩

namespace Automaton

variable {grammar : Grammar} {first : FirstSets} {automaton : Automaton}
  {number : Nat} (wellFormed : grammar.WellFormed)
  (unused : grammar.GoalUnused) (exact : first.Exact grammar)

include wellFormed unused in
theorem Framed.clashless_of_ne (framed : automaton.Framed grammar)
    (leads : automaton.Leads [.nonterminal grammar.start] number)
    {word : List Symbol} {other : Nat} (otherLeads : automaton.Leads word other)
    (different : other ≠ number) :
    (automaton.state other).Clashless grammar false := by
  right
  rintro ⟨item, offers, final, isGoal⟩
  have valid := (framed.mem_items wellFormed unused otherLeads).mp
    (State.HasContext.mem_items offers)
  rw [valid.eq_start wellFormed unused isGoal final] at otherLeads
  exact absurd (otherLeads.unique leads) different

theorem isFinal_goal (wellFormed : grammar.WellFormed) :
    Item.goal.advance.isFinal grammar = true := by
  simp [Item.isFinal, Item.rest, Item.advance, Item.goal,
    wellFormed.right_goalRule]

include wellFormed unused exact in
/-- The lookaheads of the accepting state are those after the start symbol. -/
theorem Faithful.hasContext_accepting
    (faithful : automaton.Faithful grammar first)
    (leads : automaton.Leads [.nonterminal grammar.start] number) {item : Item}
    {terminal : Nat} :
    (automaton.state number).HasContext item terminal ↔
      grammar.Admits [.nonterminal grammar.start] item terminal := by
  have framed := faithful.framed
  constructor
  · intro has
    obtain ⟨word, kernel, admits⟩ := (faithful.evident number
      (framed.lt_size leads)).attested.context item terminal has
    have goal : grammar.Kernel [.nonterminal grammar.start]
        Item.goal.advance :=
      ⟨(Grammar.admits_start wellFormed).valid, Item.inKernel_advance _⟩
    have member := (framed.hasKernel wellFormed unused leads _).mpr goal
    rwa [((kernel _).mp member).1.eq_start wellFormed unused rfl
      (isFinal_goal wellFormed)] at admits
  · exact faithful.saturated.hasContext wellFormed unused exact framed leads

include wellFormed unused in
/-- Of the kernel after the start symbol the finished goal comes first. -/
theorem goal_first {item : Item}
    (kernel : grammar.Kernel [.nonterminal grammar.start] item)
    (precedes : item.precedes Item.goal.advance = true) :
    item = Item.goal.advance := by
  obtain ⟨valid, moved⟩ := kernel
  have bound := Item.precedes_iff.mp precedes
  have notGoal : item ≠ .goal := by
    rintro rfl
    cases valid.eq_nil_of_goal wellFormed unused
  have positive := moved.resolve_left notGoal
  simp only [Item.advance, Item.goal, goalRule] at bound
  cases item with
  | mk rule dot =>
      obtain ⟨rfl, rfl⟩ : rule = 0 ∧ dot = 1 := by
        dsimp only at bound positive
        omega
      rfl

include wellFormed unused in
/-- The finished goal is the first item of the accepting state. -/
theorem Framed.item_accepting (framed : automaton.Framed grammar)
    (leads : automaton.Leads [.nonterminal grammar.start] number) :
    0 < (automaton.state number).configurations.size ∧
      ((automaton.state number).configuration 0).item = Item.goal.advance := by
  have regular := framed.regular number (framed.lt_size leads)
  have kernel (item : Item) :
      item ∈ (automaton.state number).coreItems ↔
        grammar.Kernel [.nonterminal grammar.start] item :=
    framed.hasKernel wellFormed unused leads item
  have sorted := (framed.ascending_coreItems leads).sorted
  obtain ⟨index, inCore, isGoal⟩ := (State.mem_coreItems
    regular.coreCount_le).mp ((kernel Item.goal.advance).mpr
      ⟨(Grammar.admits_start wellFormed).valid, Item.inKernel_advance _⟩)
  have positive : 0 < (automaton.state number).coreCount :=
    Nat.zero_lt_of_lt inCore
  refine ⟨Nat.lt_of_lt_of_le positive regular.coreCount_le, ?_⟩
  rcases Nat.eq_zero_or_pos index with rfl | later
  · exact isGoal
  · apply goal_first wellFormed unused
    · exact (kernel _).mp ((State.mem_coreItems regular.coreCount_le).mpr
        ⟨0, positive, rfl⟩)
    · rw [State.coreItems_eq regular.coreCount_le, List.pairwise_map] at sorted
      have ordered := List.pairwise_iff_getElem.mp sorted 0 index
        (by simpa using positive) (by simpa using inCore) later
      simpa [isGoal] using ordered

/-- The state that accepts, and the first rule by which it reduces at the end
of input too. -/
def clash? (grammar : Grammar) (automaton : Automaton) : Option (Nat × Nat) :=
  ((automaton.state start).successor? (.nonterminal grammar.start)).bind
    fun number => ((automaton.state number).reducers grammar false
      Terminal.endOfInput).head?.map fun rule => (number, rule)

theorem clash?_of_leads
    (leads : automaton.Leads [.nonterminal grammar.start] number) :
    automaton.clash? grammar = ((automaton.state number).reducers grammar false
      Terminal.endOfInput).head?.map fun rule => (number, rule) := by
  obtain ⟨source, begins, edge⟩ :=
    (@leads_append automaton [] (.nonterminal grammar.start) number).mp leads
  rw [leads_nil.mp begins] at edge
  rw [clash?, edge]
  rfl

end Automaton

/-- The result is a failure by the clash if there is one, and none if there is
not. -/
def DecidedBy {Value : Type} (clash? : Option (Nat × Nat))
    (result : Except ConstructionError Value) : Prop :=
  match clash? with
  | none => ∃ value, result = .ok value
  | some (state, rule) => result = .error (.acceptReduceClash state rule)

namespace Automaton

variable {grammar : Grammar} {first : FirstSets} {automaton other : Automaton}
  (wellFormed : grammar.WellFormed) (unused : grammar.GoalUnused)
  (exact : first.Exact grammar)

include wellFormed unused in
theorem Faithful.exists_accepting
    (faithful : automaton.Faithful grammar first) :
    ∃ number, automaton.Leads [.nonterminal grammar.start] number :=
  faithful.framed.exists_leads wellFormed unused faithful.total
    (Grammar.admits_start wellFormed).valid

include wellFormed unused exact in
/-- Whether a faithful automaton has a table is decided by its clash. -/
theorem Faithful.decided (faithful : automaton.Faithful grammar first) :
    DecidedBy (automaton.clash? grammar)
      (Table.ofAutomaton grammar automaton false) := by
  obtain ⟨number, leads⟩ := faithful.exists_accepting wellFormed unused
  have framed := faithful.framed
  have inside := framed.lt_size leads
  have terminated := faithful.evident.terminated wellFormed
  have others (word : List Symbol) (other : Nat)
      (otherLeads : automaton.Leads word other) (different : other ≠ number) :=
    framed.clashless_of_ne wellFormed unused leads otherLeads different
  rw [clash?_of_leads leads]
  cases found : ((automaton.state number).reducers grammar false
      Terminal.endOfInput).head? with
  | none =>
      apply Table.exists_ofAutomaton wellFormed framed terminated
      intro word other otherLeads
      by_cases same : other = number
      · subst same
        refine Or.inr fun _ rule reduces => ?_
        have member := (State.mem_reducers wellFormed.hasEnd).mpr reduces
        rw [List.head?_eq_none_iff.mp found] at member
        cases member
      · exact others word other otherLeads same
  | some rule =>
      obtain ⟨positive, isGoal⟩ :=
        framed.item_accepting wellFormed unused leads
      have regular := framed.regular number inside
      have atEnd : Terminal.endOfInput ∈
          ((automaton.state number).configuration 0).context := by
        rw [← regular.hasContext_iff positive, isGoal,
          faithful.hasContext_accepting wellFormed unused exact leads]
        exact Grammar.admits_start wellFormed
      obtain ⟨rest, accepts⟩ := @State.entries_eq_accept grammar
        (automaton.state number) positive
        (by rw [isGoal]; exact isFinal_goal wellFormed)
        (congrArg Item.rule isGoal) atEnd
      refine Table.ofAutomaton_eq_error wellFormed framed terminated leads
        (fun log => ?_) fun word other otherLeads different =>
          others word other otherLeads different
      exact RowFilling.ofState_eq_error wellFormed
        (framed.edged wellFormed number) (terminated number inside) accepts
        found number log

include wellFormed unused exact in
/-- Accepting states reduce by the same rules at the end of input. -/
theorem Faithful.reducers_accepting
    (faithful : automaton.Faithful grammar first)
    (otherFaithful : other.Faithful grammar first) {number place : Nat}
    (leads : automaton.Leads [.nonterminal grammar.start] number)
    (otherLeads : other.Leads [.nonterminal grammar.start] place) :
    (other.state place).reducers grammar false Terminal.endOfInput =
      (automaton.state number).reducers grammar false Terminal.endOfInput := by
  have items := faithful.items_eq wellFormed unused otherFaithful leads
    otherLeads
  apply State.reducers_congr items
  intro index inside
  obtain ⟨otherInside, item⟩ := State.item_of_items_eq items inside
  have regular := faithful.framed.regular number
    (faithful.framed.lt_size leads)
  have otherRegular := otherFaithful.framed.regular place
    (otherFaithful.framed.lt_size otherLeads)
  rw [← regular.hasContext_iff inside,
    ← otherRegular.hasContext_iff otherInside, item,
    faithful.hasContext_accepting wellFormed unused exact leads,
    otherFaithful.hasContext_accepting wellFormed unused exact otherLeads]

include wellFormed unused exact in
theorem Faithful.clash?_eq_none_iff
    (faithful : automaton.Faithful grammar first) :
    automaton.clash? grammar = none ↔ ¬ grammar.ReducesAtEnd := by
  obtain ⟨number, leads⟩ := faithful.exists_accepting wellFormed unused
  rw [clash?_of_leads leads, Option.map_eq_none_iff, List.head?_eq_none_iff,
    List.eq_nil_iff_forall_not_mem]
  simp only [State.mem_reducers wellFormed.hasEnd]
  constructor
  · rintro none ⟨item, admits, final, notGoal⟩
    have has :=
      (faithful.hasContext_accepting wellFormed unused exact leads).mpr admits
    exact none item.rule ⟨item, has, final, rfl, notGoal⟩
  · rintro none rule ⟨item, has, final, rfl, notGoal⟩
    have admits :=
      (faithful.hasContext_accepting wellFormed unused exact leads).mp has
    exact none ⟨item, admits, final, notGoal⟩

include wellFormed unused exact in
/-- Where the accepting state has the same number, the clash is the same. -/
theorem Faithful.clash?_eq (faithful : automaton.Faithful grammar first)
    (otherFaithful : other.Faithful grammar first)
    (same : (other.state start).successor? (.nonterminal grammar.start) =
      (automaton.state start).successor? (.nonterminal grammar.start)) :
    other.clash? grammar = automaton.clash? grammar := by
  obtain ⟨number, leads⟩ := faithful.exists_accepting wellFormed unused
  have otherLeads : other.Leads [.nonterminal grammar.start] number := by
    obtain ⟨source, begins, edge⟩ := (@leads_append automaton []
      (.nonterminal grammar.start) number).mp leads
    rw [leads_nil.mp begins, ← same] at edge
    exact .step .start edge
  rw [clash?_of_leads leads, clash?_of_leads otherLeads,
    faithful.reducers_accepting wellFormed unused exact otherFaithful leads
      otherLeads]

end Automaton

end LRTables
