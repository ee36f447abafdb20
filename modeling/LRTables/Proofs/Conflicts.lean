import LRTables.Proofs.Entries

/-!
# Conflicts of a row

If reductions compete neither with shifts nor with acceptance, the row of a
state can be filled, and whatever rules compete on a terminal are logged.
-/

namespace LRTables

namespace State

/-- Reductions compete with each other at most. -/
structure Tame (grammar : Grammar) (anyLookahead : Bool) (state : State) :
    Prop where
  shiftReduce : ∀ rule terminal target,
    state.Reduces grammar anyLookahead rule terminal →
      state.successor? (.terminal terminal) ≠ some target
  acceptReduce : ∀ rule, state.Accepts grammar anyLookahead →
    ¬ state.Reduces grammar anyLookahead rule Terminal.endOfInput

theorem Unambiguous.tame {grammar : Grammar} {anyLookahead : Bool}
    {state : State} (unambiguous : state.Unambiguous grammar anyLookahead) :
    state.Tame grammar anyLookahead :=
  ⟨unambiguous.shiftReduce, unambiguous.acceptReduce⟩

end State

namespace Conflict

/-- Two rules of the state compete, and precedence does not settle it. -/
structure Competes (grammar : Grammar) (anyLookahead : Bool) (state : State)
    (conflict : Conflict) : Prop where
  unsettled : conflict.byPrecedence = false
  exists_other : ∃ other, conflict.other = .reduce other ∧
    other ≠ conflict.reduce ∧
    state.Reduces grammar anyLookahead conflict.reduce conflict.lookahead ∧
    state.Reduces grammar anyLookahead other conflict.lookahead

/-- The rule is one of those that compete in the state on the terminal. -/
structure Concerns (number terminal rule : Nat) (conflict : Conflict) :
    Prop where
  state : conflict.state = number
  lookahead : conflict.lookahead = terminal
  rule : conflict.reduce = rule ∨ conflict.other = .reduce rule

/-- The conflict of a reduction with another one. -/
def ofRules (number terminal rule other : Nat) : Conflict :=
  { state := number
    lookahead := terminal
    reduce := rule
    other := .reduce other
    decision := .reduce (min other rule)
    byPrecedence := false }

end Conflict

namespace ConflictLog

/-- All conflicts are counted as those between reductions. -/
def Counted (log : ConflictLog) : Prop :=
  log.reduceReduce = log.conflicts.size

theorem Counted.record {log : ConflictLog} (counted : log.Counted)
    (number terminal rule other : Nat) :
    (log.record (.ofRules number terminal rule other)).Counted := by
  rw [Counted, conflicts_record, Array.size_push, ← counted]
  rfl

end ConflictLog

namespace RowFilling

variable {grammar : Grammar} {anyLookahead : Bool} {number : Nat}
  {state : State} {filling next : RowFilling} {log : ConflictLog}
  {done : List Entry} {entry : Entry}

/-- What an entry of a tame state does to a row. -/
inductive Settles (number : Nat) (filling : RowFilling) :
    Entry → RowFilling → Prop where
  | accept : (∀ rule, filling.cell Terminal.endOfInput ≠ .reduce rule) →
      Settles number filling .accept
        (filling.set Terminal.endOfInput .accept)
  | put {rule terminal : Nat} : filling.cell terminal = .error →
      Settles number filling (.reduce rule terminal)
        (filling.set terminal (.reduce rule))
  | idle {rule terminal : Nat} : filling.cell terminal = .reduce rule →
      Settles number filling (.reduce rule terminal) filling
  | clash {rule other terminal : Nat} :
      filling.cell terminal = .reduce other → other ≠ rule →
      Settles number filling (.reduce rule terminal)
        (filling.decide (.ofRules number terminal rule other))

/-- Every entry of a tame state can be made. -/
theorem exists_settles (wellFormed : grammar.WellFormed)
    (terminated : state.Terminated grammar)
    (tame : state.Tame grammar anyLookahead)
    (justified : Justified grammar anyLookahead state filling)
    (member : entry ∈ Entry.ofState grammar anyLookahead state) :
    ∃ next, filling.enter grammar anyLookahead number entry = .ok next ∧
      Settles number filling entry next := by
  obtain ⟨isTerminal, meaning⟩ :=
    entry_spec wellFormed.hasEnd terminated member
  rcases meaning with ⟨rfl, accepts⟩ | ⟨rule, terminal, rfl, reduces⟩
  · have free (rule : Nat) :
        filling.cell Terminal.endOfInput ≠ .reduce rule := fun current =>
      tame.acceptReduce rule accepts (justified.reduce _ rule current)
    refine ⟨_, ?_, .accept free⟩
    simp only [enter, addAccept]
  · simp only [enter, addReduce]
    cases current : filling.cell terminal with
    | error => exact ⟨_, rfl, .put current⟩
    | reduce other =>
        by_cases same : other = rule
        · subst same
          simp only [if_true]
          exact ⟨_, rfl, .idle current⟩
        · simp only [if_neg same]
          exact ⟨_, rfl, .clash current same⟩
    | accept =>
        obtain ⟨isEnd, accepts⟩ := justified.accept _ current
        rw [isEnd] at reduces
        exact absurd reduces (tame.acceptReduce rule accepts)
    | shift target =>
        have edge := (justified.shift _ target current).2
        exact absurd edge (tame.shiftReduce rule terminal target reduces)
    | goto target =>
        exact absurd current (justified.ne_goto isTerminal target)

/-- What a row and the log say about the entries that have been made. -/
structure Recorded (grammar : Grammar) (anyLookahead : Bool) (number : Nat)
    (state : State) (log : ConflictLog) (done : List Entry)
    (filling : RowFilling) : Prop where
  justified : Justified grammar anyLookahead state filling
  reduction : ∀ rule terminal, .reduce rule terminal ∈ done →
    ∃ chosen, filling.cell terminal = .reduce chosen
  entered : ∀ rule terminal, filling.cell terminal = .reduce rule →
    .reduce rule terminal ∈ done
  logged : ∀ rule other terminal, .reduce rule terminal ∈ done →
    .reduce other terminal ∈ done → rule ≠ other →
      ∃ conflict ∈ filling.log.conflicts,
        conflict.Concerns number terminal rule
  keeps : ∀ conflict ∈ log.conflicts, conflict ∈ filling.log.conflicts
  competes : ∀ conflict ∈ filling.log.conflicts, conflict ∈ log.conflicts ∨
    conflict.state = number ∧ conflict.Competes grammar anyLookahead state
  counted : log.Counted → filling.log.Counted

theorem recorded_transitions (wellFormed : grammar.WellFormed)
    (edged : Edged grammar state) (log : ConflictLog) :
    Recorded grammar anyLookahead number state log []
      (transitions grammar state log) := by
  have justified : Justified grammar anyLookahead state
      (transitions grammar state log) :=
    justified_transitions wellFormed edged log
  have same : (transitions grammar state log).log = log := log_transitions
  constructor
  · exact justified
  · intro rule terminal member
    cases member
  · intro rule terminal current
    exact absurd current
      (cell_transitions_ne_reduce wellFormed edged log terminal rule)
  · intro rule other terminal member
    cases member
  · intro conflict member
    rwa [same]
  · intro conflict member
    rw [same] at member
    exact Or.inl member
  · intro counted
    rwa [same]

theorem cell_decide {conflict : Conflict} {column : Nat}
    (inside : conflict.lookahead < filling.row.size) :
    (filling.decide conflict).cell column =
      if column = conflict.lookahead then conflict.decision
      else filling.cell column :=
  @cell_set filling conflict.lookahead column conflict.decision inside

section Recording

variable {column rule chosen : Nat}

theorem Recorded.accept
    (recorded : Recorded grammar anyLookahead number state log done filling)
    (inside : Terminal.endOfInput < filling.row.size)
    (free : ∀ rule, filling.cell Terminal.endOfInput ≠ .reduce rule)
    (justified : Justified grammar anyLookahead state
      (filling.set Terminal.endOfInput .accept)) :
    Recorded grammar anyLookahead number state log (.accept :: done)
      (filling.set Terminal.endOfInput .accept) := by
  have cells (column : Nat) := @cell_set filling Terminal.endOfInput
    column .accept inside
  have older {rule terminal : Nat}
      (member : Entry.reduce rule terminal ∈ Entry.accept :: done) :
      Entry.reduce rule terminal ∈ done :=
    (List.mem_cons.mp member).resolve_left fun same => nomatch same
  constructor
  · exact justified
  · intro rule terminal present
    obtain ⟨chosen, current⟩ :=
      recorded.reduction rule terminal (older present)
    have different : terminal ≠ Terminal.endOfInput := by
      rintro rfl
      exact free chosen current
    exact ⟨chosen, by rw [cells, if_neg different, current]⟩
  · intro rule terminal current
    rw [cells] at current
    split at current
    · cases current
    · exact List.mem_cons_of_mem _ (recorded.entered rule terminal current)
  · intro rule other terminal present otherPresent
    exact recorded.logged rule other terminal (older present)
      (older otherPresent)
  · exact recorded.keeps
  · exact recorded.competes
  · exact recorded.counted

theorem mem_of_column_ne {other terminal : Nat}
    (member : Entry.reduce other terminal ∈ Entry.reduce rule column :: done)
    (different : terminal ≠ column) : Entry.reduce other terminal ∈ done := by
  rcases List.mem_cons.mp member with same | old
  · cases same
    exact absurd rfl different
  · exact old

theorem Recorded.put
    (recorded : Recorded grammar anyLookahead number state log done filling)
    (inside : column < filling.row.size)
    (blank : filling.cell column = .error)
    (justified : Justified grammar anyLookahead state
      (filling.set column (.reduce rule))) :
    Recorded grammar anyLookahead number state log
      (.reduce rule column :: done) (filling.set column (.reduce rule)) := by
  have cells (other : Nat) := @cell_set filling column other
    (.reduce rule) inside
  have unentered (other : Nat) : Entry.reduce other column ∉ done := by
    intro present
    obtain ⟨chosen, current⟩ := recorded.reduction other column present
    rw [blank] at current
    cases current
  constructor
  · exact justified
  · intro other terminal present
    by_cases same : terminal = column
    · exact ⟨rule, by rw [cells, if_pos same]⟩
    · obtain ⟨chosen, current⟩ := recorded.reduction other terminal
        (mem_of_column_ne present same)
      exact ⟨chosen, by rw [cells, if_neg same, current]⟩
  · intro other terminal current
    rw [cells] at current
    split at current
    · rename_i same
      cases current
      subst same
      exact List.mem_cons_self
    · exact List.mem_cons_of_mem _ (recorded.entered other terminal current)
  · intro one other terminal present otherPresent different
    by_cases same : terminal = column
    · subst same
      rcases List.mem_cons.mp present with new | old
      · rcases List.mem_cons.mp otherPresent with newer | old
        · cases new
          cases newer
          exact absurd rfl different
        · exact absurd old (unentered other)
      · exact absurd old (unentered one)
    · exact recorded.logged one other terminal (mem_of_column_ne present same)
        (mem_of_column_ne otherPresent same) different
  · exact recorded.keeps
  · exact recorded.competes
  · exact recorded.counted

/-- An entry that was made before. -/
theorem Recorded.again
    (recorded : Recorded grammar anyLookahead number state log done filling)
    (already : entry ∈ done) :
    Recorded grammar anyLookahead number state log (entry :: done)
      filling := by
  have same {other : Entry} (present : other ∈ entry :: done) :
      other ∈ done := by
    rcases List.mem_cons.mp present with rfl | old
    · exact already
    · exact old
  constructor
  · exact recorded.justified
  · exact fun other terminal present =>
      recorded.reduction other terminal (same present)
  · exact fun other terminal current =>
      List.mem_cons_of_mem _ (recorded.entered other terminal current)
  · exact fun one other terminal present otherPresent =>
      recorded.logged one other terminal (same present) (same otherPresent)
  · exact recorded.keeps
  · exact recorded.competes
  · exact recorded.counted

/-- The entry and the one that it meets are concerned by a new conflict. -/
theorem Recorded.clash
    (recorded : Recorded grammar anyLookahead number state log done filling)
    (inside : column < filling.row.size)
    (current : filling.cell column = .reduce chosen) (unlike : chosen ≠ rule)
    (reduces : state.Reduces grammar anyLookahead rule column)
    (justified : Justified grammar anyLookahead state
      (filling.decide (.ofRules number column rule chosen))) :
    Recorded grammar anyLookahead number state log
      (.reduce rule column :: done)
      (filling.decide (.ofRules number column rule chosen)) := by
  have cells (other : Nat) :
      (filling.decide (.ofRules number column rule chosen)).cell other =
        if other = column then .reduce (min chosen rule)
        else filling.cell other :=
    cell_decide inside
  have already := recorded.entered chosen column current
  have conflicts : (filling.decide
      (.ofRules number column rule chosen)).log.conflicts =
        filling.log.conflicts.push (.ofRules number column rule chosen) :=
    filling.log.conflicts_record _
  constructor
  · exact justified
  · intro other terminal present
    by_cases same : terminal = column
    · exact ⟨min chosen rule, by rw [cells, if_pos same]⟩
    · obtain ⟨before, held⟩ := recorded.reduction other terminal
        (mem_of_column_ne present same)
      exact ⟨before, by rw [cells, if_neg same, held]⟩
  · intro other terminal holds
    rw [cells] at holds
    split at holds
    · rename_i same
      cases holds
      subst same
      rcases Nat.le_total chosen rule with before | after
      · rw [Nat.min_eq_left before]
        exact List.mem_cons_of_mem _ already
      · rw [Nat.min_eq_right after]
        exact List.mem_cons_self
    · exact List.mem_cons_of_mem _ (recorded.entered other terminal holds)
  · intro one other terminal present otherPresent different
    rw [conflicts]
    by_cases same : terminal = column
    · subst same
      by_cases concerned : one = rule ∨ one = chosen
      · refine ⟨_, Array.mem_push_self, rfl, rfl, ?_⟩
        rcases concerned with rfl | rfl
        · exact Or.inl rfl
        · exact Or.inr rfl
      · have old : Entry.reduce one terminal ∈ done := by
          rcases List.mem_cons.mp present with new | old
          · cases new
            exact absurd (Or.inl rfl) concerned
          · exact old
        obtain ⟨conflict, member, concerns⟩ := recorded.logged one chosen
          terminal old already (fun same => concerned (Or.inr same))
        exact ⟨conflict, Array.mem_push_of_mem _ member, concerns⟩
    · obtain ⟨conflict, member, concerns⟩ := recorded.logged one other terminal
        (mem_of_column_ne present same) (mem_of_column_ne otherPresent same)
        different
      exact ⟨conflict, Array.mem_push_of_mem _ member, concerns⟩
  · intro conflict member
    rw [conflicts]
    exact Array.mem_push_of_mem _ (recorded.keeps conflict member)
  · intro conflict member
    rw [conflicts] at member
    rcases Array.mem_push.mp member with old | rfl
    · exact recorded.competes conflict old
    · exact Or.inr ⟨rfl, rfl, chosen, rfl, unlike, reduces,
        recorded.justified.reduce column chosen current⟩
  · intro counted
    exact (recorded.counted counted).record number column rule chosen

end Recording

theorem Recorded.settle (wellFormed : grammar.WellFormed)
    (terminated : state.Terminated grammar)
    (recorded : Recorded grammar anyLookahead number state log done filling)
    (member : entry ∈ Entry.ofState grammar anyLookahead state)
    (entered : filling.enter grammar anyLookahead number entry = .ok next)
    (settles : Settles number filling entry next) :
    Recorded grammar anyLookahead number state log (entry :: done) next := by
  obtain ⟨isTerminal, meaning⟩ :=
    entry_spec wellFormed.hasEnd terminated member
  have inside := recorded.justified.column_lt wellFormed isTerminal
  have justified :=
    recorded.justified.enter wellFormed terminated member entered
  cases settles with
  | accept free => exact recorded.accept inside free justified
  | put blank => exact recorded.put inside blank justified
  | idle current => exact recorded.again (recorded.entered _ _ current)
  | clash current unlike =>
      rcases meaning with ⟨same, -⟩ | ⟨other, terminal, same, reduces⟩
      · cases same
      · cases same
        exact recorded.clash inside current unlike reduces justified

theorem exists_foldlM_enter (wellFormed : grammar.WellFormed)
    (terminated : state.Terminated grammar)
    (tame : state.Tame grammar anyLookahead) {entries : List Entry}
    (members : ∀ entry ∈ entries,
      entry ∈ Entry.ofState grammar anyLookahead state)
    (recorded : Recorded grammar anyLookahead number state log done
      filling) :
    ∃ final, entries.foldlM (enter grammar anyLookahead number) filling =
        .ok final ∧
      Recorded grammar anyLookahead number state log (entries.reverse ++ done)
        final := by
  induction entries generalizing filling done with
  | nil => exact ⟨filling, rfl, recorded⟩
  | cons entry rest ih =>
      have member := members entry List.mem_cons_self
      obtain ⟨middle, entered, settles⟩ := exists_settles wellFormed terminated
        tame recorded.justified member
      obtain ⟨final, result, further⟩ := ih
        (fun other later => members other (List.mem_cons_of_mem _ later))
        (recorded.settle wellFormed terminated member entered settles)
      refine ⟨final, ?_, ?_⟩
      · rw [List.foldlM_cons, entered]
        exact result
      · rw [List.reverse_cons, List.append_assoc]
        exact further

theorem ofState_of_tame (wellFormed : grammar.WellFormed)
    (edged : Edged grammar state) (terminated : state.Terminated grammar)
    (tame : state.Tame grammar anyLookahead) (number : Nat)
    (log : ConflictLog) :
    ∃ final, ofState grammar anyLookahead number state log = .ok final ∧
      Recorded grammar anyLookahead number state log
        (Entry.ofState grammar anyLookahead state).reverse final := by
  obtain ⟨final, result, recorded⟩ := exists_foldlM_enter wellFormed terminated
    tame (fun _ member => member)
    (recorded_transitions wellFormed edged log)
  rw [List.append_nil] at recorded
  rw [ofState_eq]
  exact ⟨final, result, recorded⟩

end RowFilling

end LRTables
