import LRTables.Proofs.CompactedRuns
import LRTables.Proofs.ContestedTables
import LRTables.Proofs.LoggedConflicts
import Mathlib.Data.List.Forall2

/-!
# Logs of compacted tables

Compaction keeps the conflicts of the states that are kept, in order.  A
conflict with a shift becomes one between reductions when the target of the
shift is dropped.  As long as no target is dropped, the kinds of the conflicts
and their counts stay.
-/

namespace LRTables

namespace Conflict

variable {rename : Nat → Option Nat} {conflict : Conflict}

/-- The conflict is with a shift whose target has no new name. -/
def LosesTarget (rename : Nat → Option Nat) (conflict : Conflict) : Prop :=
  ∃ target, conflict.other = .shift target ∧ rename target = none

/-- The other conflict is the same one after its state has been renamed. -/
structure Renamed (rename : Nat → Option Nat) (conflict other : Conflict) :
    Prop where
  state : rename conflict.state = some other.state
  lookahead : other.lookahead = conflict.lookahead
  reduce : other.reduce = conflict.reduce
  byPrecedence : other.byPrecedence = conflict.byPrecedence
  kind : ¬ conflict.LosesTarget rename → other.kind = conflict.kind
  lost : conflict.LosesTarget rename → other.kind = .reduceReduce

/-- Renaming the other action changes the kind only if a target is lost. -/
theorem kind_renameTarget {other : Conflict}
    (renamed : other.other = conflict.other.renameTarget rename) :
    (¬ conflict.LosesTarget rename → other.kind = conflict.kind) ∧
      (conflict.LosesTarget rename → other.kind = .reduceReduce) := by
  rw [kind, renamed]
  constructor
  · intro keeps
    rw [kind]
    cases action : conflict.other with
    | shift target =>
        cases found : rename target with
        | none => exact absurd ⟨target, action, found⟩ keeps
        | some new => simp [Action.renameTarget, found]
    | goto target => cases found : rename target <;>
        simp [Action.renameTarget, found]
    | reduce rule => rfl
    | accept => rfl
    | error => rfl
  · rintro ⟨target, isShift, dropped⟩
    simp [isShift, Action.renameTarget, dropped]

end Conflict

namespace ConflictLog

variable {log : ConflictLog}

theorem Recounted.foldl_record (recounted : log.Recounted)
    (conflicts : Array Conflict) :
    (conflicts.foldl ConflictLog.record log).Recounted := by
  rw [← Array.foldl_toList]
  induction conflicts.toList generalizing log with
  | nil => exact recounted
  | cons conflict rest ih => exact ih (recounted.record conflict)

end ConflictLog

namespace Table

variable {grammar : Grammar} {automaton : Automaton} {anyLookahead : Bool}
  {table : Table}

theorem recounted_ofAutomaton
    (filled : ofAutomaton grammar automaton anyLookahead = .ok table) :
    table.log.Recounted :=
  log_ofAutomaton_induction (fun recounted _ => recounted.record _)
    ConflictLog.recounted_empty filled

/-- The state has a new number. -/
def Keeps (table : Table) (state : Nat) : Prop :=
  (table.renumbering.new? state).isSome

instance (table : Table) : DecidablePred table.Keeps := by
  unfold Keeps
  infer_instance

theorem Valid.keeps_iff (valid : table.Valid) {state : Nat} :
    table.Keeps state ↔ state < table.stateCount ∧ table.Reaches state := by
  rw [Keeps, Option.isSome_iff_exists]
  exact valid.numbers.kept state

theorem renamed_of_renameConflict? {conflict other : Conflict}
    (kept : renameConflict? table.renumbering conflict = some other) :
    conflict.Renamed table.renumbering.new? other := by
  obtain ⟨new, found, rfl⟩ := renameConflict?_eq_some kept
  obtain ⟨keeps, loses⟩ := @Conflict.kind_renameTarget
    table.renumbering.new? conflict
    { conflict with
      state := new
      other := conflict.other.renameTarget table.renumbering.new?
      decision := conflict.decision.renameTarget table.renumbering.new? } rfl
  exact ⟨found, rfl, rfl, rfl, keeps, loses⟩

/-- The conflicts of kept states are kept in order. -/
theorem renamed_conflicts (table : Table) :
    List.Forall₂ (Conflict.Renamed table.renumbering.new?)
      (table.log.conflicts.toList.filter fun conflict =>
        decide (table.Keeps conflict.state))
      table.compact.log.conflicts.toList := by
  rw [table.log_compact.2.1, Array.toList_filterMap]
  induction table.log.conflicts.toList with
  | nil => exact .nil
  | cons conflict rest ih =>
      cases found : renameConflict? table.renumbering conflict with
      | none =>
          have dropped : ¬ table.Keeps conflict.state := by
            rw [renameConflict?, Option.map_eq_none_iff] at found
            simp [Keeps, found]
          rw [List.filterMap_cons_none found,
            List.filter_cons_of_neg (by simpa using dropped)]
          exact ih
      | some other =>
          have renamed := renamed_of_renameConflict? found
          have kept : table.Keeps conflict.state := by
            simp [Keeps, renamed.state]
          rw [List.filterMap_cons_some found,
            List.filter_cons_of_pos (by simpa using kept)]
          exact .cons renamed ih

theorem recounted_compact (recounted : table.log.Recounted) :
    table.compact.log.Recounted := by
  have begin : ({ ConflictLog.empty with
      shiftShift := table.log.shiftShift } : ConflictLog).Recounted := by
    rw [recounted.shiftShift]
    exact ConflictLog.recounted_empty
  exact begin.foldl_record _

/-- When nothing that the log mentions is dropped, as many conflicts of each
kind are left unsettled. -/
theorem unsettled_compact
    (kept : ∀ conflict ∈ table.log.conflicts, table.Keeps conflict.state ∧
      ¬ conflict.LosesTarget table.renumbering.new?) (kind : ConflictKind) :
    table.compact.log.unsettled kind = table.log.unsettled kind := by
  rw [ConflictLog.unsettled, table.log_compact.2.1, Array.countP_filterMap,
    ConflictLog.unsettled]
  apply Array.countP_congr
  intro conflict logged
  obtain ⟨keeps, target⟩ := kept conflict logged
  obtain ⟨new, found⟩ := Option.isSome_iff_exists.mp keeps
  cases entry : renameConflict? table.renumbering conflict with
  | none =>
      rw [renameConflict?, found] at entry
      cases entry
  | some other =>
      have renamed := renamed_of_renameConflict? entry
      simp [renamed.byPrecedence, renamed.kind target]

/-- The log of a compacted table. -/
structure CompactsLog (table : Table) : Prop where
  conflicts : List.Forall₂ (Conflict.Renamed table.renumbering.new?)
    (table.log.conflicts.toList.filter fun conflict =>
      decide (table.Keeps conflict.state))
    table.compact.log.conflicts.toList
  recounted : table.compact.log.Recounted
  counts : (∀ conflict ∈ table.log.conflicts, table.Keeps conflict.state ∧
      ¬ conflict.LosesTarget table.renumbering.new?) →
    table.compact.log.shiftReduce = table.log.shiftReduce ∧
      table.compact.log.reduceReduce = table.log.reduceReduce ∧
      table.compact.log.shiftShift = table.log.shiftShift

theorem compactsLog (recounted : table.log.Recounted) :
    table.CompactsLog := by
  have compacted := recounted_compact recounted
  refine ⟨table.renamed_conflicts, compacted, ?_⟩
  intro kept
  rw [compacted.shiftReduce, compacted.reduceReduce, compacted.shiftShift,
    recounted.shiftReduce, recounted.reduceReduce, recounted.shiftShift]
  exact ⟨unsettled_compact kept _, unsettled_compact kept _, rfl⟩

end Table

/-- What compaction makes of the log of a generated table.  The states that it
keeps are those that the first one reaches. -/
theorem generated_compactsLog {grammar : Grammar} (accepted : grammar.Accepted)
    {limit : Nat} {options : Options} {output : Output}
    (result : grammar.generateWithin limit options = .ok output) :
    output.table.CompactsLog ∧
      ∀ state, output.table.Keeps state ↔
        state < output.table.stateCount ∧ output.table.Reaches state := by
  have wellFormed := accepted.wellFormed
  obtain ⟨-, automaton, anyLookahead, constructed, filled⟩ :=
    Grammar.constructed_constructWithin
      (Grammar.built_of_generateWithin result)
  have valid := Table.valid_ofAutomaton wellFormed
    (constructed.proper wellFormed) filled
  exact ⟨Table.compactsLog (Table.recounted_ofAutomaton filled),
    fun state => valid.keeps_iff⟩

end LRTables
