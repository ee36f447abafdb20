import LRTables.Proofs.Compactions
import Mathlib.Data.Finset.Card
import Mathlib.Data.Finset.Dedup

/-!
# Contests for cells

The actions that a state offers on a terminal compete for one cell.  One of
them gets it, and each one but the first to arrive is logged once.
-/

namespace LRTables

/-- The cell holds one of the contenders, and all but the first one have been
logged. -/
structure Contest (contenders : Finset Action) (cell : Action) (logged : Nat) :
    Prop where
  blank : cell = .error ↔ contenders = ∅
  member : contenders ≠ ∅ → cell ∈ contenders
  logged : logged = contenders.card - 1
  accept : .accept ∈ contenders → cell = .accept
  least : (∀ action ∈ contenders, ∃ rule, action = .reduce rule) →
    ∀ rule, .reduce rule ∈ contenders →
      ∃ winner ≤ rule, cell = .reduce winner

namespace Contest

variable {contenders : Finset Action} {cell action decision : Action}
  {logged : Nat}

theorem none : Contest ∅ .error 0 := by
  constructor
  · simp
  · simp
  · simp
  · simp
  · simp

theorem single (real : action ≠ .error) : Contest {action} action 0 := by
  constructor
  · simp [real]
  · simp
  · simp
  · simp [eq_comm]
  · intro _ rule member
    exact ⟨rule, Nat.le_refl rule, (Finset.mem_singleton.mp member).symm⟩

/-- One more action arrives where there is one already. -/
theorem arrive (contest : Contest contenders cell logged)
    (taken : cell ≠ .error) (real : action ≠ .error)
    (new : action ∉ contenders) (decided : decision = cell ∨ decision = action)
    (accept : cell = .accept ∨ action = .accept → decision = .accept)
    (least : ∀ other rule, cell = .reduce other → action = .reduce rule →
      decision = .reduce (min other rule)) :
    Contest (insert action contenders) decision (logged + 1) := by
  have occupied : contenders ≠ ∅ := fun none => taken (contest.blank.mpr none)
  have member := contest.member occupied
  constructor
  · constructor
    · intro isError
      rcases decided with same | same
      · exact absurd (same.symm.trans isError) taken
      · exact absurd (same.symm.trans isError) real
    · intro none
      exact absurd none (Finset.insert_ne_empty action contenders)
  · intro _
    rcases decided with same | same
    · exact same ▸ Finset.mem_insert_of_mem member
    · exact same ▸ Finset.mem_insert_self action contenders
  · have positive := Finset.card_pos.mpr ⟨cell, member⟩
    rw [Finset.card_insert_of_notMem new, contest.logged]
    omega
  · intro accepting
    apply accept
    rcases Finset.mem_insert.mp accepting with same | old
    · exact Or.inr same.symm
    · exact Or.inl (contest.accept old)
  · intro reductions rule arrived
    obtain ⟨other, isOther⟩ :=
      reductions cell (Finset.mem_insert_of_mem member)
    obtain ⟨own, isOwn⟩ :=
      reductions action (Finset.mem_insert_self action contenders)
    refine ⟨min other own, ?_, least other own isOther isOwn⟩
    rcases Finset.mem_insert.mp arrived with same | old
    · cases same.trans isOwn
      exact Nat.min_le_right _ _
    · obtain ⟨winner, below, isWinner⟩ := contest.least
        (fun action inside => reductions action
          (Finset.mem_insert_of_mem inside)) rule old
      cases isOther.symm.trans isWinner
      exact (Nat.min_le_left _ _).trans below

end Contest

namespace ConflictLog

variable {log : ConflictLog}

/-- The number of conflicts logged for a cell. -/
def loggedAt (log : ConflictLog) (state terminal : Nat) : Nat :=
  log.conflicts.countP fun conflict =>
    decide (conflict.state = state ∧ conflict.lookahead = terminal)

theorem loggedAt_record (log : ConflictLog) (conflict : Conflict)
    (state terminal : Nat) :
    (log.record conflict).loggedAt state terminal =
      log.loggedAt state terminal +
        if conflict.state = state ∧ conflict.lookahead = terminal then 1
        else 0 := by
  simp only [loggedAt, conflicts_record, Array.countP_push,
    decide_eq_true_eq]

/-- The conflicts that precedence did not settle, of one kind. -/
def unsettled (log : ConflictLog) (kind : ConflictKind) : Nat :=
  log.conflicts.countP fun conflict =>
    !conflict.byPrecedence && decide (conflict.kind = kind)

/-- The counts and the inadequate states are those of the conflicts. -/
structure Recounted (log : ConflictLog) : Prop where
  shiftReduce : log.shiftReduce = log.unsettled .shiftReduce
  reduceReduce : log.reduceReduce = log.unsettled .reduceReduce
  shiftShift : log.shiftShift = 0
  distinct : log.inadequate.Nodup
  inadequate : ∀ state, state ∈ log.inadequate ↔
    ∃ conflict ∈ log.conflicts, conflict.byPrecedence = false ∧
      conflict.state = state

theorem recounted_empty : empty.Recounted := by
  constructor
  · rfl
  · rfl
  · rfl
  · exact List.nodup_nil
  · simp [empty]

theorem unsettled_record (log : ConflictLog) (conflict : Conflict)
    (kind : ConflictKind) :
    (log.record conflict).unsettled kind = log.unsettled kind +
      if conflict.byPrecedence = false ∧ conflict.kind = kind then 1
      else 0 := by
  simp [unsettled, conflicts_record, Array.countP_push]

theorem record_of_byPrecedence {conflict : Conflict}
    (settled : conflict.byPrecedence = true) :
    log.record conflict =
      { log with conflicts := log.conflicts.push conflict } := by
  simp [record, settled]

theorem record_of_not_byPrecedence {conflict : Conflict}
    (unsettled : conflict.byPrecedence = false) :
    (log.record conflict).shiftReduce = log.shiftReduce +
        (if conflict.kind = .shiftReduce then 1 else 0) ∧
      (log.record conflict).reduceReduce = log.reduceReduce +
        (if conflict.kind = .reduceReduce then 1 else 0) ∧
      (log.record conflict).inadequate =
        Ordered.insert log.inadequate conflict.state := by
  unfold record count
  rw [unsettled]
  cases conflict.kind with
  | shiftReduce => simp
  | reduceReduce => simp
  | acceptReduce => simp

theorem Recounted.record (recounted : log.Recounted) (conflict : Conflict) :
    (log.record conflict).Recounted := by
  have listed {state : Nat} (holds : ∀ state, state ∈ log.inadequate ↔
      ∃ conflict ∈ log.conflicts, conflict.byPrecedence = false ∧
        conflict.state = state) :
      (∃ other ∈ (log.record conflict).conflicts,
        other.byPrecedence = false ∧ other.state = state) ↔
      state ∈ log.inadequate ∨
        conflict.byPrecedence = false ∧ conflict.state = state := by
    rw [holds, conflicts_record]
    simp only [Array.mem_push, or_and_right, exists_or, exists_eq_left]
  have inadequate := recounted.inadequate
  cases settled : conflict.byPrecedence with
  | true =>
      have same := @record_of_byPrecedence log conflict settled
      constructor
      · rw [unsettled_record, same]
        simpa [settled] using recounted.shiftReduce
      · rw [unsettled_record, same]
        simpa [settled] using recounted.reduceReduce
      · rw [shiftShift_record]
        exact recounted.shiftShift
      · rw [same]
        exact recounted.distinct
      · intro state
        rw [listed inadequate, same]
        simp [settled]
  | false =>
      obtain ⟨shiftReduce, reduceReduce, inserted⟩ :=
        @record_of_not_byPrecedence log conflict settled
      constructor
      · rw [unsettled_record, shiftReduce, recounted.shiftReduce]
        simp [settled]
      · rw [unsettled_record, reduceReduce, recounted.reduceReduce]
        simp [settled]
      · rw [shiftShift_record]
        exact recounted.shiftShift
      · rw [inserted]
        exact Ordered.nodup_insert recounted.distinct _
      · intro state
        rw [listed inadequate, inserted, Ordered.mem_insert]
        simp [settled, eq_comm]

end ConflictLog

namespace State

variable {grammar : Grammar} {anyLookahead : Bool} {state : State}
  {terminal : Nat}

/-- The actions that a state offers on a terminal. -/
inductive Contends (grammar : Grammar) (anyLookahead : Bool) (state : State)
    (terminal : Nat) : Action → Prop
  | shift {target : Nat} :
      state.successor? (.terminal terminal) = some target →
      Contends grammar anyLookahead state terminal (.shift target)
  | reduce {rule : Nat} :
      state.Reduces grammar anyLookahead rule terminal →
      Contends grammar anyLookahead state terminal (.reduce rule)
  | accept :
      terminal = Terminal.endOfInput → state.Accepts grammar anyLookahead →
      Contends grammar anyLookahead state terminal .accept

/-- Every terminal has its contest, in which what the state offers contends. -/
def Contested (grammar : Grammar) (anyLookahead : Bool) (state : State)
    (cell : Nat → Action) (logged : Nat → Nat) : Prop :=
  ∀ terminal < grammar.terminals.size, ∃ contenders : Finset Action,
    (∀ action, action ∈ contenders ↔
      state.Contends grammar anyLookahead terminal action) ∧
    Contest contenders (cell terminal) (logged terminal)

/-- No rule has two final items in a state whose dots lie within their
rules. -/
theorem final_rule_injective
    (within : ∀ item ∈ state.items,
      item.dot ≤ (grammar.right item.rule).length)
    {item other : Item} (member : item ∈ state.items)
    (otherMember : other ∈ state.items)
    (final : item.isFinal grammar = true)
    (otherFinal : other.isFinal grammar = true)
    (rule : item.rule = other.rule) : item = other := by
  have bound := within item member
  have otherBound := within other otherMember
  simp only [Item.isFinal, Item.rest, List.isEmpty_iff,
    List.drop_eq_nil_iff] at final otherFinal
  obtain ⟨itemRule, dot⟩ := item
  obtain ⟨otherRule, otherDot⟩ := other
  dsimp only at *
  subst rule
  have dots : dot = otherDot := by omega
  rw [dots]

end State

namespace Entry

variable {grammar : Grammar} {anyLookahead : Bool} {state : State}

theorem nodup_ofFinal (configuration : Configuration) :
    (ofFinal grammar anyLookahead configuration).Nodup := by
  have injective (rule : Nat) : Function.Injective (reduce rule) :=
    fun _ _ same => (Entry.reduce.inj same).2
  have listed : configuration.context.toList.Nodup :=
    List.nodup_range.filter _
  rw [ofFinal]
  split
  · split
    · exact List.nodup_singleton _
    · exact List.nodup_nil
  · split
    · exact List.nodup_range.map (injective _)
    · exact listed.map (injective _)

/-- The rule whose final item makes an entry. -/
def rule : Entry → Nat
  | .accept => goalRule
  | .reduce rule _ => rule

theorem rule_of_mem_ofFinal {configuration : Configuration} {entry : Entry}
    (member : entry ∈ ofFinal grammar anyLookahead configuration) :
    entry.rule = configuration.item.rule := by
  rw [ofFinal] at member
  split at member
  · rename_i isGoal
    split at member
    · cases List.mem_singleton.mp member
      exact isGoal.symm
    · cases member
  · obtain ⟨terminal, -, rfl⟩ := List.mem_map.mp member
    rfl

/-- A state makes no entry twice. -/
theorem nodup_ofState (distinct : state.Distinct)
    (within : ∀ item ∈ state.items,
      item.dot ≤ (grammar.right item.rule).length) :
    (ofState grammar anyLookahead state).Nodup := by
  rw [ofState, List.nodup_flatMap]
  refine ⟨fun configuration _ => nodup_ofFinal configuration, ?_⟩
  rw [List.pairwise_map]
  have indices : (state.finals grammar).Nodup := List.nodup_range.filter _
  apply indices.imp_of_mem
  intro first second isFirst isSecond different
  obtain ⟨firstInside, firstFinal⟩ := State.mem_finals.mp isFirst
  obtain ⟨secondInside, secondFinal⟩ := State.mem_finals.mp isSecond
  intro entry inFirst inSecond
  apply different
  apply distinct first second firstInside secondInside
  apply State.final_rule_injective within
    (State.mem_items.mpr ⟨first, firstInside, rfl⟩)
    (State.mem_items.mpr ⟨second, secondInside, rfl⟩) firstFinal secondFinal
  exact (rule_of_mem_ofFinal inFirst).symm.trans (rule_of_mem_ofFinal inSecond)

theorem column_action_injective {first second : Entry}
    (column : first.column = second.column)
    (action : first.action = second.action) : first = second := by
  cases first with
  | accept =>
      cases second with
      | accept => rfl
      | reduce => cases action
  | reduce rule terminal =>
      cases second with
      | accept => cases action
      | reduce other otherTerminal =>
          cases action
          cases column
          rfl

theorem action_ne_error (entry : Entry) : entry.action ≠ .error := by
  cases entry with
  | accept => simp [action]
  | reduce => simp [action]

end Entry

namespace RowFilling

variable {grammar : Grammar} {anyLookahead : Bool} {number : Nat}
  {state : State} {filling next : RowFilling} {entry : Entry}
  {entered entries : List Entry} {before : ConflictLog} {terminal : Nat}

/-- What an entry does to a cell that does not hold it yet. -/
inductive Arrives (number : Nat) (filling : RowFilling) (entry : Entry) :
    RowFilling → Prop where
  | first : filling.cell entry.column = .error →
      Arrives number filling entry (filling.set entry.column entry.action)
  | next (conflict : Conflict) :
      conflict.state = number → conflict.lookahead = entry.column →
      filling.cell entry.column ≠ .error →
      (conflict.decision = filling.cell entry.column ∨
        conflict.decision = entry.action) →
      (filling.cell entry.column = .accept ∨ entry.action = .accept →
        conflict.decision = .accept) →
      (∀ other rule, filling.cell entry.column = .reduce other →
        entry.action = .reduce rule →
          conflict.decision = .reduce (min other rule)) →
      Arrives number filling entry (filling.decide conflict)

theorem arrives_of_accept
    (new : filling.cell Terminal.endOfInput ≠ .accept)
    (noGoto : ∀ target, filling.cell Terminal.endOfInput ≠ .goto target)
    (noShift : ∀ target, filling.cell Terminal.endOfInput ≠ .shift target)
    (accepted : filling.addAccept anyLookahead number = .ok next) :
    Arrives number filling .accept next := by
  simp only [addAccept] at accepted
  cases current : filling.cell Terminal.endOfInput with
  | error =>
      rw [current] at accepted
      cases accepted
      exact .first current
  | accept => exact absurd current new
  | goto target => exact absurd current (noGoto target)
  | shift target => exact absurd current (noShift target)
  | reduce rule =>
      rw [current] at accepted
      dsimp only at accepted
      split at accepted
      · cases accepted
        refine .next _ rfl rfl ?_ (Or.inr rfl) (fun _ => rfl) ?_
        · simp [Entry.column, current]
        · intro other rule _ reduction
          cases reduction
      · cases accepted

theorem arrives_of_reduce {rule : Nat}
    (new : filling.cell terminal ≠ .reduce rule)
    (noGoto : ∀ target, filling.cell terminal ≠ .goto target)
    (reduced : filling.addReduce grammar anyLookahead number rule terminal =
      .ok next) :
    Arrives number filling (.reduce rule terminal) next := by
  simp only [addReduce] at reduced
  cases current : filling.cell terminal with
  | error =>
      rw [current] at reduced
      cases reduced
      exact .first current
  | goto target => exact absurd current (noGoto target)
  | reduce other =>
      have different : other ≠ rule := fun same => new (same ▸ current)
      rw [current] at reduced
      simp only [if_neg different] at reduced
      cases reduced
      refine .next _ rfl rfl ?_ ?_ ?_ ?_
      · simp [Entry.column, current]
      · simp only [Entry.column, Entry.action, current]
        rcases Nat.le_total other rule with less | more
        · exact Or.inl (by rw [Nat.min_eq_left less])
        · exact Or.inr (by rw [Nat.min_eq_right more])
      · simp [Entry.column, Entry.action, current]
      · intro first second isFirst isSecond
        rw [Entry.column, current] at isFirst
        cases isFirst
        cases isSecond
        rfl
  | accept =>
      rw [current] at reduced
      dsimp only at reduced
      split at reduced
      · cases reduced
        refine .next _ rfl rfl ?_ (Or.inl current.symm) (fun _ => rfl) ?_
        · simp [Entry.column, current]
        · intro other rule isOther
          rw [Entry.column, current] at isOther
          cases isOther
      · cases reduced
  | shift target =>
      have arrives (decision : Action) (byPrecedence : Bool)
          (decided : decision = .shift target ∨ decision = .reduce rule) :
          Arrives number filling (.reduce rule terminal)
            (filling.decide
              { state := number
                lookahead := terminal
                reduce := rule
                other := .shift target
                decision
                byPrecedence }) := by
        refine .next _ rfl rfl ?_ ?_ ?_ ?_
        · simp [Entry.column, current]
        · simpa [Entry.column, Entry.action, current] using decided
        · simp [Entry.column, Entry.action, current]
        · simp [Entry.column, current]
      rw [current] at reduced
      dsimp only at reduced
      split at reduced
      · cases reduced
        exact arrives _ _ (Or.inr rfl)
      · cases reduced
        exact arrives _ _ (Or.inl rfl)
      · cases reduced
        exact arrives _ _ (Or.inl rfl)

theorem arrives_of_enter (new : filling.cell entry.column ≠ entry.action)
    (noGoto : ∀ target, filling.cell entry.column ≠ .goto target)
    (noShift : ∀ target, filling.cell Terminal.endOfInput ≠ .shift target)
    (made : filling.enter grammar anyLookahead number entry = .ok next) :
    Arrives number filling entry next := by
  cases entry with
  | accept => exact arrives_of_accept new noGoto noShift made
  | reduce rule terminal => exact arrives_of_reduce new noGoto made

/-- The shift on a terminal, and the entries made for it so far. -/
def contenders (state : State) (entered : List Entry) (terminal : Nat) :
    Finset Action :=
  ((state.successor? (.terminal terminal)).toList.map Action.shift ++
    (entered.filter fun entry : Entry => entry.column = terminal).map
      Entry.action).toFinset

theorem mem_contenders {action : Action} :
    action ∈ contenders state entered terminal ↔
      (∃ target, state.successor? (.terminal terminal) = some target ∧
        action = .shift target) ∨
      ∃ entry ∈ entered, entry.column = terminal ∧ entry.action = action := by
  simp only [contenders, List.mem_toFinset, List.mem_append, List.mem_map,
    Option.mem_toList, List.mem_filter, decide_eq_true_eq, and_assoc,
    eq_comm (a := action)]

theorem contenders_cons_self :
    contenders state (entry :: entered) entry.column =
      insert entry.action (contenders state entered entry.column) := by
  ext action
  simp only [mem_contenders, Finset.mem_insert, List.mem_cons,
    exists_eq_or_imp, true_and, eq_comm (a := action)]
  exact or_left_comm

theorem contenders_cons_of_ne (different : terminal ≠ entry.column) :
    contenders state (entry :: entered) terminal =
      contenders state entered terminal := by
  ext action
  simp only [mem_contenders, List.mem_cons, exists_eq_or_imp]
  simp [different.symm]

/-- How the contests of a row stand after some of its entries. -/
structure Contested (grammar : Grammar) (number : Nat) (state : State)
    (before : ConflictLog) (entered : List Entry) (filling : RowFilling) :
    Prop where
  size : filling.row.size = grammar.columnCount
  contests : ∀ terminal < grammar.terminals.size,
    Contest (contenders state entered terminal) (filling.cell terminal)
      (filling.log.loggedAt number terminal)
  elsewhere : ∀ other terminal, other ≠ number →
    filling.log.loggedAt other terminal = before.loggedAt other terminal
  recounted : before.Recounted → filling.log.Recounted

section Contested

variable (wellFormed : grammar.WellFormed) (edged : Edged grammar state)
  (terminated : state.Terminated grammar)
  (noEnd : state.successor? (.terminal Terminal.endOfInput) = none)

include wellFormed edged in
theorem contested_transitions
    (fresh : ∀ terminal, before.loggedAt number terminal = 0) :
    Contested grammar number state before []
      (transitions grammar state before) := by
  constructor
  · exact size_transitions
  · intro terminal inside
    have cell := @cell_transitions grammar state wellFormed edged before
      (.terminal terminal) terminal inside rfl
    rw [log_transitions, fresh, cell]
    cases edge : state.successor? (.terminal terminal) with
    | none =>
        have none : contenders state [] terminal = ∅ := by
          simp [contenders, edge]
        rw [none]
        exact Contest.none
    | some target =>
        have single : contenders state [] terminal = {.shift target} := by
          simp [contenders, edge]
        simp only [transitionAction, if_pos inside]
        rw [single]
        exact Contest.single (by simp)
  · intro other terminal _
    rw [log_transitions]
  · rw [log_transitions]
    exact fun recounted => recounted

theorem Contested.mem_contenders_cell {action : Action}
    (contested : Contested grammar number state before entered filling)
    (inside : terminal < grammar.terminals.size)
    (current : filling.cell terminal = action) (real : action ≠ .error) :
    action ∈ contenders state entered terminal := by
  have contest := contested.contests terminal inside
  subst current
  exact contest.member fun none => real (contest.blank.mpr none)

include wellFormed noEnd in
/-- An entry whose action does not contend for the cell yet only arrives
there. -/
theorem Contested.arrives
    (contested : Contested grammar number state before entered filling)
    (inside : entry.column < grammar.terminals.size)
    (absent : entry.action ∉ contenders state entered entry.column)
    (made : filling.enter grammar anyLookahead number entry = .ok next) :
    Arrives number filling entry next := by
  apply arrives_of_enter _ _ _ made
  · exact fun current => absent
      (contested.mem_contenders_cell inside current
        (Entry.action_ne_error entry))
  · intro target current
    have member := contested.mem_contenders_cell inside current (by simp)
    rcases mem_contenders.mp member with
      ⟨other, -, same⟩ | ⟨other, -, -, same⟩
    · cases same
    · cases other <;> cases same
  · intro target current
    have member :=
      contested.mem_contenders_cell wellFormed.hasEnd current (by simp)
    rcases mem_contenders.mp member with
      ⟨other, edge, -⟩ | ⟨other, -, -, same⟩
    · rw [noEnd] at edge
      cases edge
    · cases other <;> cases same

/-- An entry that arrives joins the contest for its cell and leaves the others
as they stand. -/
theorem Contested.arrive
    (contested : Contested grammar number state before entered filling)
    (isTerminal : entry.column < grammar.terminals.size)
    (inside : entry.column < filling.row.size)
    (absent : entry.action ∉ contenders state entered entry.column)
    (arrives : Arrives number filling entry next) :
    Contested grammar number state before (entry :: entered) next := by
  have contest := contested.contests entry.column isTerminal
  cases arrives with
  | first blank =>
      have none := contest.blank.mp blank
      constructor
      · rw [size_set]
        exact contested.size
      · intro terminal bound
        rw [cell_set inside]
        by_cases same : terminal = entry.column
        · subst same
          have unlogged := contest.logged
          rw [if_pos rfl, contenders_cons_self, none]
          rw [none] at unlogged
          show Contest _ _ (filling.log.loggedAt number entry.column)
          rw [unlogged]
          exact Contest.single (Entry.action_ne_error entry)
        · rw [if_neg same, contenders_cons_of_ne same]
          exact contested.contests terminal bound
      · exact contested.elsewhere
      · exact contested.recounted
  | next conflict isNumber isColumn taken decided accept least =>
      have cells (terminal : Nat) : (filling.decide conflict).cell terminal =
          if terminal = entry.column then conflict.decision
          else filling.cell terminal := by
        rw [← isColumn] at inside ⊢
        exact cell_set inside
      have logs (other terminal : Nat) :=
        filling.log.loggedAt_record conflict other terminal
      constructor
      · rw [decide, Array.size_setIfInBounds]
        exact contested.size
      · intro terminal bound
        rw [cells]
        show Contest _ _ ((filling.log.record conflict).loggedAt _ _)
        rw [logs, isNumber, isColumn]
        by_cases same : terminal = entry.column
        · subst same
          rw [if_pos rfl, if_pos ⟨rfl, rfl⟩, contenders_cons_self]
          exact contest.arrive taken (Entry.action_ne_error entry) absent
            decided accept least
        · rw [if_neg same, if_neg fun both => same both.2.symm,
            contenders_cons_of_ne same]
          exact contested.contests terminal bound
      · intro other terminal different
        show (filling.log.record conflict).loggedAt _ _ = _
        rw [logs, isNumber, if_neg fun both => different both.1.symm]
        exact contested.elsewhere other terminal different
      · exact fun recounted => (contested.recounted recounted).record conflict

include wellFormed terminated noEnd in
/-- The contests stand as they should after one more entry. -/
theorem Contested.enter
    (contested : Contested grammar number state before entered filling)
    (members : ∀ other ∈ entry :: entered,
      other ∈ Entry.ofState grammar anyLookahead state)
    (new : entry ∉ entered)
    (made : filling.enter grammar anyLookahead number entry = .ok next) :
    Contested grammar number state before (entry :: entered) next := by
  have isTerminal := (entry_spec wellFormed.hasEnd terminated
    (members entry List.mem_cons_self)).1
  have inside : entry.column < filling.row.size := by
    rw [contested.size]
    exact Nat.lt_of_lt_of_le isTerminal (terminals_le_columnCount wellFormed)
  have absent : entry.action ∉ contenders state entered entry.column := by
    rw [mem_contenders]
    rintro (⟨target, -, isShift⟩ | ⟨other, member, column, action⟩)
    · cases entry <;> cases isShift
    · exact new (Entry.column_action_injective column action ▸ member)
  exact contested.arrive isTerminal inside absent
    (contested.arrives wellFormed noEnd isTerminal absent made)

include wellFormed terminated noEnd in
theorem Contested.foldlM_enter {final : RowFilling}
    (contested : Contested grammar number state before entered filling)
    (members : ∀ entry ∈ entries ++ entered,
      entry ∈ Entry.ofState grammar anyLookahead state)
    (distinct : (entries ++ entered).Nodup)
    (result : entries.foldlM (RowFilling.enter grammar anyLookahead number)
      filling = .ok final) :
    ∃ all : List Entry, (∀ entry, entry ∈ all ↔ entry ∈ entries ++ entered) ∧
      Contested grammar number state before all final := by
  induction entries generalizing filling entered with
  | nil =>
      cases result
      exact ⟨entered, fun entry => by simp, contested⟩
  | cons entry rest ih =>
      rw [List.foldlM_cons] at result
      obtain ⟨middle, made, result⟩ := ok_of_bind result
      have order : (entry :: rest ++ entered).Perm
          (rest ++ entry :: entered) := List.perm_middle.symm
      have each (other : Entry) := order.mem_iff (a := other)
      have split := List.nodup_append.mp (order.nodup_iff.mp distinct)
      have after := contested.enter wellFormed terminated noEnd
        (fun other member => members other ((each other).mpr
          (List.mem_append_right _ member)))
        (List.nodup_cons.mp split.2.1).1 made
      obtain ⟨all, same, final⟩ := ih after
        (fun other member => members other ((each other).mpr member))
        (order.nodup_iff.mp distinct) result
      exact ⟨all, fun other => (same other).trans (each other).symm, final⟩

include wellFormed edged terminated noEnd in
/-- When the row of a state is filled, the contenders for its cells are the
actions that the state offers. -/
theorem contests_ofState (distinct : state.Distinct)
    (within : ∀ item ∈ state.items,
      item.dot ≤ (grammar.right item.rule).length)
    (fresh : ∀ terminal, before.loggedAt number terminal = 0)
    {final : RowFilling}
    (result : ofState grammar anyLookahead number state before = .ok final) :
    state.Contested grammar anyLookahead final.cell
        (final.log.loggedAt number) ∧
      (∀ other terminal, other ≠ number →
        final.log.loggedAt other terminal =
          before.loggedAt other terminal) ∧
      (before.Recounted → final.log.Recounted) := by
  rw [ofState_eq] at result
  have start := contested_transitions wellFormed edged fresh
  obtain ⟨all, same, contested⟩ := start.foldlM_enter wellFormed terminated
    noEnd (by simp) (by simpa using Entry.nodup_ofState distinct within) result
  refine ⟨?_, contested.elsewhere, contested.recounted⟩
  intro terminal inside
  refine ⟨_, ?_, contested.contests terminal inside⟩
  intro action
  simp only [mem_contenders, same, List.append_nil]
  constructor
  · intro contends
    rcases contends with ⟨target, edge, rfl⟩ | ⟨entry, member, rfl, rfl⟩
    · exact .shift edge
    · cases entry with
      | accept =>
          exact .accept rfl ((State.accept_mem_entries wellFormed.hasEnd).mp
            member)
      | reduce rule terminal =>
          exact .reduce (State.reduce_mem_entries.mp member)
  · intro contends
    cases contends with
    | shift edge => exact Or.inl ⟨_, edge, rfl⟩
    | reduce reduces =>
        exact Or.inr ⟨_, State.reduce_mem_entries.mpr reduces, rfl, rfl⟩
    | accept isEnd accepts =>
        exact Or.inr ⟨_, (State.accept_mem_entries wellFormed.hasEnd).mpr
          accepts, isEnd.symm, rfl⟩

end Contested

end RowFilling

end LRTables
