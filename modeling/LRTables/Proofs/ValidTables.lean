import LRTables.Table.Reader
import Mathlib.Data.List.Basic

/-!
# Valid tables

A table is valid when its rows are as wide as its head, every action stands in
a column of its kind, and every state and rule that it mentions exists.  It
fits when its numbers can be held by the machine numbers of the reader.
-/

namespace LRTables

namespace Action

/-- Shifts belong to terminals and gotos to the other columns.  Neither the
start state nor the goal rule has a code of its own, so no action names
them. -/
def OfKind (onTerminal : Bool) : Action → Prop
  | .shift state => onTerminal = true ∧ 0 < state
  | .goto state => onTerminal = false ∧ 0 < state
  | .reduce rule => 0 < rule
  | .accept => True
  | .error => True

/-- The target state and the rule of an action lie below these bounds. -/
def Below (states rules : Nat) : Action → Prop
  | .shift state => state < states
  | .goto state => state < states
  | .reduce rule => rule < rules
  | .accept => True
  | .error => True

theorem Below.mono {states rules moreStates moreRules : Nat} {action : Action}
    (below : action.Below states rules) (fewer : states ≤ moreStates)
    (less : rules ≤ moreRules) : action.Below moreStates moreRules := by
  cases action with
  | shift state => exact Nat.lt_of_lt_of_le below fewer
  | goto state => exact Nat.lt_of_lt_of_le below fewer
  | reduce rule => exact Nat.lt_of_lt_of_le below less
  | accept => trivial
  | error => trivial

/-- An action that fits is the action of its code. -/
theorem ofCode_code {onTerminal : Bool} {action : Action}
    (ofKind : action.OfKind onTerminal)
    (below : action.Below Reading.codeBound ruleBound) :
    ofCode onTerminal action.code = action := by
  cases action with
  | shift state =>
      obtain ⟨rfl, positive⟩ := ofKind
      obtain ⟨previous, rfl⟩ := Nat.exists_eq_succ_of_ne_zero
        (Nat.pos_iff_ne_zero.mp positive)
      rfl
  | goto state =>
      obtain ⟨rfl, positive⟩ := ofKind
      obtain ⟨previous, rfl⟩ := Nat.exists_eq_succ_of_ne_zero
        (Nat.pos_iff_ne_zero.mp positive)
      rfl
  | reduce rule =>
      obtain ⟨previous, rfl⟩ := Nat.exists_eq_succ_of_ne_zero
        (Nat.pos_iff_ne_zero.mp ofKind)
      have small : previous + 1 < ruleBound := below
      have noAccept : Action.code (.reduce (previous + 1)) ≠ acceptCode := by
        simp only [code, acceptCode, ruleBound] at small ⊢
        omega
      have shape : Action.code (.reduce (previous + 1)) =
          Int.negSucc previous := rfl
      rw [shape] at noAccept ⊢
      unfold ofCode
      rw [if_neg noAccept]
      exact if_pos small
  | accept => rfl
  | error => rfl

theorem ofKind_ofCode (onTerminal : Bool) (code : Int) :
    (ofCode onTerminal code).OfKind onTerminal := by
  unfold ofCode
  split
  · trivial
  · split
    · trivial
    · rename_i state nonzero notAccept
      have positive : 0 < state := Nat.pos_of_ne_zero nonzero
      cases onTerminal with
      | true => exact ⟨rfl, positive⟩
      | false => exact ⟨rfl, positive⟩
    · split
      · exact Nat.succ_pos _
      · trivial

theorem below_ofCode {onTerminal : Bool} {code : Int}
    (below : code < Reading.codeBound) :
    (ofCode onTerminal code).Below Reading.codeBound ruleBound := by
  unfold ofCode
  split
  · trivial
  · split
    · trivial
    · rename_i state nonzero notAccept
      have small : state < Reading.codeBound := Int.ofNat_lt.mp below
      cases onTerminal with
      | true => exact small
      | false => exact small
    · split
      · assumption
      · trivial

theorem below_ofCode_of_pos {onTerminal : Bool} {code : Int}
    {states rules : Nat} (positive : 0 < code)
    (below : code.natAbs < states) :
    (ofCode onTerminal code).Below states rules := by
  unfold ofCode
  split
  · trivial
  · split
    · trivial
    · cases onTerminal with
      | true => exact below
      | false => exact below
    · cases positive

theorem below_ofCode_of_neg {onTerminal : Bool} {code : Int}
    {states rules : Nat} (negative : code < 0)
    (below : code.natAbs < rules) :
    (ofCode onTerminal code).Below states rules := by
  unfold ofCode
  split
  · trivial
  · split
    · trivial
    · cases negative
    · split
      · exact below
      · trivial

theorem code_bounds {action : Action}
    (below : action.Below Reading.codeBound ruleBound) :
    -(Reading.codeBound : Int) ≤ action.code ∧
      action.code < Reading.codeBound := by
  cases action with
  | shift state =>
      have small : state < Reading.codeBound := below
      simp only [code, Reading.codeBound] at small ⊢
      omega
  | goto state =>
      have small : state < Reading.codeBound := below
      simp only [code, Reading.codeBound] at small ⊢
      omega
  | reduce rule =>
      have small : rule < ruleBound := below
      simp only [code, Reading.codeBound, ruleBound] at small ⊢
      omega
  | accept => decide
  | error => decide

end Action

/-- The numbers of a conflict exist in a table, and its actions belong to the
column of its lookahead. -/
structure Conflict.Valid (terminalCount stateCount ruleCount : Nat)
    (conflict : Conflict) : Prop where
  state : conflict.state < stateCount
  lookahead : conflict.lookahead < terminalCount
  reduce : conflict.reduce < ruleCount
  other : conflict.other.OfKind true
  decision : conflict.decision.OfKind true

/-- The numbers of a conflict can be read. -/
structure Conflict.Fits (conflict : Conflict) : Prop where
  lookahead : conflict.lookahead < Terminal.numberBound
  reduce : conflict.reduce < Action.ruleBound
  other : conflict.other.Below Reading.codeBound Action.ruleBound
  decision : conflict.decision.Below Reading.codeBound Action.ruleBound

/-- The numbers of the shape of a rule can be read. -/
structure RuleShape.Fits (shape : RuleShape) : Prop where
  column : ∀ column, shape.column = some column → column < Reading.sizeBound
  length : shape.length < Reading.sizeBound

/-- A row is as wide as the head of the table, and its actions belong to their
columns. -/
structure Table.ValidRow (table : Table) (row : Array Action) : Prop where
  size : row.size = table.columns.size
  ofKind : ∀ column, (inside : column < row.size) →
    row[column].OfKind (decide (column < table.terminalCount))
  below : ∀ action ∈ row,
    action.Below table.stateCount table.rules.size

/-- Every number in a table names something that exists. -/
structure Table.Valid (table : Table) : Prop where
  terminals : table.terminalCount ≤ table.columns.size
  rows : ∀ row ∈ table.rows, table.ValidRow row
  finals : ∀ final ∈ table.finals,
    final.1 < table.stateCount ∧ final.2 < table.rules.size
  conflicts : ∀ conflict ∈ table.log.conflicts,
    conflict.Valid table.terminalCount table.stateCount table.rules.size
  inadequate : ∀ state ∈ table.log.inadequate, state < table.stateCount
  distinct : table.log.inadequate.Nodup

/-- The counts of a conflict log can be read. -/
structure ConflictLog.Fits (log : ConflictLog) : Prop where
  conflicts : log.conflicts.size < Reading.sizeBound
  shiftReduce : log.shiftReduce < Reading.sizeBound
  reduceReduce : log.reduceReduce < Reading.sizeBound
  shiftShift : log.shiftShift < Reading.sizeBound
  inadequate : log.inadequate.length < Reading.sizeBound
  each : ∀ conflict ∈ log.conflicts, conflict.Fits

/-- The states and rules of a table can be held by its cells, and its counts
by machine numbers. -/
structure Table.Fits (table : Table) : Prop where
  columns : table.columns.size < Reading.sizeBound
  rules : table.rules.size < Reading.sizeBound
  shapes : ∀ shape ∈ table.rules, shape.Fits
  states : table.stateCount < Reading.stateBound
  cellCount : table.stateCount * table.columns.size < Reading.sizeBound
  cells : ∀ row ∈ table.rows, ∀ action ∈ row,
    action.Below Reading.codeBound Action.ruleBound
  finalCount : table.finals.size < Reading.sizeBound
  finals : ∀ final ∈ table.finals, final.2 < Action.ruleBound
  log : table.log.Fits

end LRTables
