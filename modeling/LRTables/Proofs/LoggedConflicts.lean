import LRTables.Proofs.Tables

/-!
# Logged conflicts

A reduction is logged when it meets a shift, acceptance or another reduction in
its cell, and nothing else is logged.  So what is kept by logging such a
conflict is true of the log of every table.
-/

namespace LRTables

namespace Conflict

variable {conflict : Conflict}

/-- The other action is one that can stand under a terminal. -/
inductive Genuine (conflict : Conflict) : Prop where
  | shift (target : Nat) : conflict.other = .shift target → Genuine conflict
  | accept : conflict.other = .accept → Genuine conflict
  | reduce (rule : Nat) : conflict.other = .reduce rule → Genuine conflict

theorem Genuine.kind_eq_reduceReduce (genuine : conflict.Genuine) :
    conflict.kind = .reduceReduce ↔ ∃ rule, conflict.other = .reduce rule := by
  rw [kind]
  rcases genuine with ⟨target, other⟩ | other | ⟨rule, other⟩
  · simp [other]
  · simp [other]
  · simp [other]

end Conflict

namespace RowFilling

variable {grammar : Grammar} {anyLookahead : Bool} {number : Nat}
  {state : State} {filling next : RowFilling} {entry : Entry}

/-- An entry logs one conflict at most. -/
theorem log_enter
    (entered : filling.enter grammar anyLookahead number entry = .ok next) :
    next.log = filling.log ∨
      ∃ conflict, conflict.Genuine ∧
        next.log = filling.log.record conflict := by
  cases entry with
  | accept =>
      simp only [enter, addAccept] at entered
      split at entered
      · split at entered
        · cases entered
          exact Or.inr ⟨_, .accept rfl, rfl⟩
        · cases entered
      · cases entered
        exact Or.inl rfl
  | reduce rule terminal =>
      simp only [enter, addReduce] at entered
      split at entered
      · cases entered
        exact Or.inl rfl
      · rename_i other current
        split at entered
        · cases entered
          exact Or.inl rfl
        · cases entered
          exact Or.inr ⟨_, .reduce other current, rfl⟩
      · rename_i current
        split at entered
        · cases entered
          exact Or.inr ⟨_, .accept current, rfl⟩
        · cases entered
      · rename_i target current
        split at entered
        · cases entered
          exact Or.inr ⟨_, .shift target current, rfl⟩
        · cases entered
          exact Or.inr ⟨_, .shift target current, rfl⟩
        · cases entered
          exact Or.inr ⟨_, .shift target current, rfl⟩
      · cases entered
        exact Or.inl rfl

end RowFilling

section Logging

variable {grammar : Grammar} {automaton : Automaton} {anyLookahead : Bool}
  {number : Nat} {property : ConflictLog → Prop}
  (record : ∀ {log : ConflictLog} {conflict : Conflict}, property log →
    conflict.Genuine → property (log.record conflict))

include record

theorem RowFilling.log_ofState_induction {state : State} {log : ConflictLog}
    {filling : RowFilling} (holds : property log)
    (result : ofState grammar anyLookahead number state log = .ok filling) :
    property filling.log := by
  rw [ofState_eq] at result
  apply foldlM_enter_induction (property ·.log) result
  · rw [log_transitions]
    exact holds
  · intro middle after before entry _ entered
    rcases log_enter entered with same | ⟨conflict, genuine, recorded⟩
    · rw [same]
      exact before
    · rw [recorded]
      exact record before genuine

namespace Table

theorem log_fillFirst_induction (empty : property .empty) {count : Nat}
    {filled : Array (Array Action) × ConflictLog}
    (result : fillFirst grammar anyLookahead automaton count = .ok filled) :
    property filled.2 := by
  induction count generalizing filled with
  | zero =>
      cases result
      exact empty
  | succ count ih =>
      rw [fillFirst_succ] at result
      obtain ⟨earlier, before, last⟩ := ok_of_bind result
      have holds := ih before
      obtain ⟨rows, log⟩ := earlier
      simp only [fillRow] at last
      split at last
      · obtain ⟨final, entered, isFilled⟩ := ok_of_bind last
        cases isFilled
        exact RowFilling.log_ofState_induction record holds entered
      · cases last
        exact holds

theorem log_ofAutomaton_induction (empty : property .empty) {table : Table}
    (filled : ofAutomaton grammar automaton anyLookahead = .ok table) :
    property table.log :=
  log_fillFirst_induction record empty (ofAutomaton_eq_ok filled).1

end Table

end Logging

theorem Table.genuine_of_mem_log {grammar : Grammar} {automaton : Automaton}
    {anyLookahead : Bool} {table : Table}
    (filled : ofAutomaton grammar automaton anyLookahead = .ok table) :
    ∀ conflict ∈ table.log.conflicts, conflict.Genuine := by
  apply @log_ofAutomaton_induction grammar automaton anyLookahead
    (fun log => ∀ conflict ∈ log.conflicts, conflict.Genuine) _ _ table filled
  · intro log conflict holds genuine other member
    rw [ConflictLog.conflicts_record, Array.mem_push] at member
    rcases member with old | rfl
    · exact holds other old
    · exact genuine
  · intro conflict none
    exact absurd none (Array.not_mem_empty conflict)

end LRTables
