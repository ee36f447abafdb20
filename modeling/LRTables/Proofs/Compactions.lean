import LRTables.Proofs.Entries
import LRTables.Proofs.ReadTables
import LRTables.Table.Compaction

/-!
# Compaction of valid tables

Dropping the unreachable rows of a valid table leaves a valid table, and one
that fits still fits.
-/

namespace LRTables

namespace Renumbering

variable {size old new : Nat} {kept : Nat → Bool}

/-- The kept states, in increasing order. -/
def keptStates (size : Nat) (kept : Nat → Bool) : List Nat :=
  (List.range size).filter kept

theorem keptStates_increase (size : Nat) (kept : Nat → Bool) :
    (keptStates size kept).Pairwise (· < ·) :=
  List.pairwise_lt_range.filter kept

theorem le_getElem {numbers : List Nat} (increase : numbers.Pairwise (· < ·))
    {index : Nat} (inside : index < numbers.length) :
    index ≤ numbers[index] := by
  induction index with
  | zero => exact Nat.zero_le _
  | succ index ih =>
      have before := ih (by omega)
      have less := List.pairwise_iff_getElem.mp increase index (index + 1)
        (by omega) inside (Nat.lt_succ_self index)
      omega

theorem new?_eq_some (renamed : (ofKept size kept).new? old = some new) :
    old < size ∧ (keptStates size kept)[new]? = some old := by
  rw [new?, ofKept, Array.getD_eq_getD_getElem?, Array.getElem?_map] at renamed
  by_cases inside : old < size
  · have present : (Array.range size)[old]? = some old := by
      simp [inside]
    rw [present, Option.map_some, Option.getD_some,
      Array.findIdx?_eq_some_iff_getElem] at renamed
    obtain ⟨bound, same, -⟩ := renamed
    refine ⟨inside, ?_⟩
    rw [List.size_toArray] at bound
    rw [keptStates, List.getElem?_eq_getElem bound]
    exact congrArg some (eq_of_beq same)
  · have absent : (Array.range size)[old]? = none := by
      simp [Nat.le_of_not_lt inside]
    rw [absent] at renamed
    cases renamed

theorem new?_lt (renamed : (ofKept size kept).new? old = some new) :
    new < (ofKept size kept).oldNumbers.size := by
  obtain ⟨inside, -⟩ := List.getElem?_eq_some_iff.mp (new?_eq_some renamed).2
  exact inside

theorem new?_le (renamed : (ofKept size kept).new? old = some new) :
    new ≤ old := by
  obtain ⟨inside, same⟩ :=
    List.getElem?_eq_some_iff.mp (new?_eq_some renamed).2
  exact same ▸ le_getElem (keptStates_increase size kept) inside

theorem new?_pos (first : kept 0 = true) (positive : 0 < old)
    (renamed : (ofKept size kept).new? old = some new) : 0 < new := by
  obtain ⟨oldInside, found⟩ := new?_eq_some renamed
  obtain ⟨inside, same⟩ := List.getElem?_eq_some_iff.mp found
  have member : 0 ∈ keptStates size kept :=
    List.mem_filter.mpr ⟨List.mem_range.mpr (by omega), first⟩
  obtain ⟨index, indexInside, zero⟩ := List.mem_iff_getElem.mp member
  have atZero : index = 0 := by
    have least := le_getElem (keptStates_increase size kept) indexInside
    omega
  subst atZero
  apply Nat.pos_of_ne_zero
  rintro rfl
  omega

theorem size_oldNumbers_le (size : Nat) (kept : Nat → Bool) :
    (ofKept size kept).oldNumbers.size ≤ size := by
  have shorter := List.length_filter_le kept (List.range size)
  rw [List.length_range] at shorter
  exact shorter

theorem mem_oldNumbers (member : old ∈ (ofKept size kept).oldNumbers) :
    old < size := by
  have kept := List.mem_toArray.mp member
  exact List.mem_range.mp (List.mem_filter.mp kept).1

end Renumbering

namespace Action

variable {rename : Nat → Option Nat} {action : Action}

theorem OfKind.renameTarget {onTerminal : Bool}
    (ofKind : action.OfKind onTerminal)
    (positive : ∀ old new, 0 < old → rename old = some new → 0 < new) :
    (action.renameTarget rename).OfKind onTerminal := by
  cases action with
  | shift state =>
      show ((rename state).elim Action.error Action.shift).OfKind onTerminal
      cases found : rename state with
      | none => trivial
      | some new => exact ⟨ofKind.1, positive state new ofKind.2 found⟩
  | goto state =>
      show ((rename state).elim Action.error Action.goto).OfKind onTerminal
      cases found : rename state with
      | none => trivial
      | some new => exact ⟨ofKind.1, positive state new ofKind.2 found⟩
  | reduce rule => exact ofKind
  | accept => trivial
  | error => trivial

theorem Below.renameTarget {states rules newStates : Nat}
    (below : action.Below states rules)
    (inside : ∀ old new, old < states → rename old = some new →
      new < newStates) :
    (action.renameTarget rename).Below newStates rules := by
  cases action with
  | shift state =>
      show ((rename state).elim Action.error Action.shift).Below _ _
      cases found : rename state with
      | none => trivial
      | some new => exact inside state new below found
  | goto state =>
      show ((rename state).elim Action.error Action.goto).Below _ _
      cases found : rename state with
      | none => trivial
      | some new => exact inside state new below found
  | reduce rule => exact below
  | accept => trivial
  | error => trivial

end Action

namespace ConflictLog

variable {log : ConflictLog}

/-- The counts of a log do not exceed the number of its conflicts, and the
inadequate states are those of some conflicts. -/
structure Tallied (log : ConflictLog) : Prop where
  shiftReduce : log.shiftReduce ≤ log.conflicts.size
  reduceReduce : log.reduceReduce ≤ log.conflicts.size
  inadequate : log.inadequate.length ≤ log.conflicts.size
  distinct : log.inadequate.Nodup
  states : ∀ state ∈ log.inadequate,
    ∃ conflict ∈ log.conflicts, conflict.state = state

theorem tallied_of_conflicts_eq_empty (log : ConflictLog)
    (shiftReduce : log.shiftReduce = 0) (reduceReduce : log.reduceReduce = 0)
    (inadequate : log.inadequate = []) : log.Tallied := by
  constructor
  · rw [shiftReduce]
    exact Nat.zero_le _
  · rw [reduceReduce]
    exact Nat.zero_le _
  · rw [inadequate]
    exact Nat.zero_le _
  · rw [inadequate]
    exact List.nodup_nil
  · rw [inadequate]
    intro state member
    cases member

theorem shiftShift_record (log : ConflictLog) (conflict : Conflict) :
    (log.record conflict).shiftShift = log.shiftShift := by
  unfold record count
  split
  · rfl
  · dsimp only
    split <;> rfl

theorem inadequate_record (log : ConflictLog) (conflict : Conflict) :
    (log.record conflict).inadequate = log.inadequate ∨
      (log.record conflict).inadequate =
        Ordered.insert log.inadequate conflict.state := by
  unfold record count
  split
  · exact Or.inl rfl
  · dsimp only
    split <;> exact Or.inr rfl

theorem counts_record (log : ConflictLog) (conflict : Conflict) :
    (log.record conflict).shiftReduce ≤ log.shiftReduce + 1 ∧
      (log.record conflict).reduceReduce ≤ log.reduceReduce + 1 := by
  unfold record count
  split
  · exact ⟨Nat.le_succ _, Nat.le_succ _⟩
  · dsimp only
    split
    · exact ⟨Nat.le_refl _, Nat.le_succ _⟩
    · exact ⟨Nat.le_succ _, Nat.le_refl _⟩
    · exact ⟨Nat.le_succ _, Nat.le_succ _⟩

theorem Tallied.record (tallied : log.Tallied) (conflict : Conflict) :
    (log.record conflict).Tallied := by
  have counts := log.counts_record conflict
  have size : (log.record conflict).conflicts.size =
      log.conflicts.size + 1 := by
    rw [conflicts_record, Array.size_push]
  have old {state : Nat} (member : state ∈ log.inadequate) :
      ∃ other ∈ (log.record conflict).conflicts, other.state = state := by
    obtain ⟨other, logged, same⟩ := tallied.states state member
    rw [conflicts_record]
    exact ⟨other, Array.mem_push_of_mem _ logged, same⟩
  have shiftReduce := tallied.shiftReduce
  have reduceReduce := tallied.reduceReduce
  have inadequate := tallied.inadequate
  constructor
  · omega
  · omega
  · rcases log.inadequate_record conflict with same | inserted
    · rw [same]
      omega
    · have grown : (Ordered.insert log.inadequate conflict.state).length ≤
          log.inadequate.length + 1 := by
        unfold Ordered.insert
        split <;> simp
      rw [inserted]
      omega
  · rcases log.inadequate_record conflict with same | inserted
    · rw [same]
      exact tallied.distinct
    · rw [inserted]
      exact Ordered.nodup_insert tallied.distinct _
  · rcases log.inadequate_record conflict with same | inserted
    · rw [same]
      exact fun state member => old member
    · rw [inserted]
      intro state member
      rcases Ordered.mem_insert.mp member with early | rfl
      · exact old early
      · refine ⟨conflict, ?_, rfl⟩
        rw [conflicts_record]
        exact Array.mem_push_self

theorem Tallied.fits (tallied : log.Tallied)
    (conflicts : log.conflicts.size < Reading.sizeBound)
    (shiftShift : log.shiftShift < Reading.sizeBound)
    (each : ∀ conflict ∈ log.conflicts, conflict.Fits) : log.Fits := by
  constructor
  · exact conflicts
  · exact Nat.lt_of_le_of_lt tallied.shiftReduce conflicts
  · exact Nat.lt_of_le_of_lt tallied.reduceReduce conflicts
  · exact shiftShift
  · exact Nat.lt_of_le_of_lt tallied.inadequate conflicts
  · exact each

theorem foldl_record (conflicts : Array Conflict) (tallied : log.Tallied) :
    (conflicts.foldl record log).Tallied ∧
      (conflicts.foldl record log).conflicts = log.conflicts ++ conflicts ∧
      (conflicts.foldl record log).shiftShift = log.shiftShift := by
  rw [← Array.foldl_toList]
  rcases conflicts with ⟨conflicts⟩
  induction conflicts generalizing log with
  | nil => exact ⟨tallied, by simp, rfl⟩
  | cons conflict rest ih =>
      obtain ⟨after, logged, shiftShift⟩ := ih (tallied.record conflict)
      refine ⟨after, ?_, ?_⟩
      · rw [List.foldl_cons, logged, conflicts_record]
        simp
      · rw [List.foldl_cons, shiftShift, shiftShift_record]

end ConflictLog

namespace Table

variable {table : Table}

theorem renumbering_eq (table : Table) :
    table.renumbering =
      .ofKept table.stateCount table.reachableRows.contains :=
  rfl

theorem stateCount_compact (table : Table) :
    table.compact.stateCount = table.renumbering.oldNumbers.size := by
  rw [stateCount, compact, Array.size_map]

theorem stateCount_compact_le (table : Table) :
    table.compact.stateCount ≤ table.stateCount := by
  rw [stateCount_compact, renumbering_eq]
  exact Renumbering.size_oldNumbers_le _ _

theorem getD_rows_mem {state : Nat} (inside : state < table.stateCount) :
    table.rows.getD state #[] ∈ table.rows := by
  have bound : state < table.rows.size := inside
  rw [Array.getD_eq_getD_getElem?, Array.getElem?_eq_getElem bound]
  exact Array.getElem_mem bound

theorem Valid.target_lt (valid : table.Valid) {state target : Nat}
    (member : target ∈ table.rowTargets state) :
    target < table.stateCount := by
  obtain ⟨action, inRow, isTarget⟩ := List.mem_filterMap.mp member
  have present := Array.mem_toList_iff.mp inRow
  by_cases inside : state < table.stateCount
  · have below := (valid.rows _ (getD_rows_mem inside)).below action present
    cases action with
    | shift next =>
        cases isTarget
        exact below
    | goto next =>
        cases isTarget
        exact below
    | reduce rule => cases isTarget
    | accept => cases isTarget
    | error => cases isTarget
  · have absent : table.rows.getD state #[] = #[] := by
      rw [Array.getD_eq_getD_getElem?,
        Array.getElem?_eq_none (Nat.le_of_not_lt inside)]
      rfl
    rw [absent] at present
    simp at present

theorem Valid.mem_reachableRows (valid : table.Valid)
    (some : 0 < table.stateCount) {state : Nat} :
    state ∈ table.reachableRows ↔ ReachedFrom table.rowTargets [0] state := by
  have inDomain : ∀ node, ReachedFrom table.rowTargets [0] node →
      node ∈ List.range table.stateCount := by
    rintro node ⟨root, isRoot, path⟩
    rw [List.mem_range]
    induction path with
    | refl => exact List.mem_singleton.mp isRoot ▸ some
    | tail _ edge _ => exact valid.target_lt edge
  rw [reachableRows, if_neg (Nat.pos_iff_ne_zero.mp some)]
  apply mem_discover inDomain
  rw [List.length_range]
  exact Nat.lt_two_pow_self

theorem Valid.first_reachable (valid : table.Valid)
    (some : 0 < table.stateCount) :
    table.reachableRows.contains 0 = true := by
  rw [Array.contains_iff_mem, valid.mem_reachableRows some]
  exact ⟨0, List.mem_singleton_self 0, .refl⟩

variable {old new : Nat}

theorem new?_lt_stateCount (renamed : table.renumbering.new? old = some new) :
    new < table.compact.stateCount := by
  rw [stateCount_compact]
  exact Renumbering.new?_lt renamed

theorem Valid.new?_pos (valid : table.Valid) (positive : 0 < old)
    (renamed : table.renumbering.new? old = some new) : 0 < new := by
  have inside := (Renumbering.new?_eq_some renamed).1
  have first := valid.first_reachable (Nat.lt_trans positive inside)
  exact Renumbering.new?_pos first positive renamed

theorem Valid.renameTarget {action : Action} {onTerminal : Bool}
    (valid : table.Valid) (ofKind : action.OfKind onTerminal) :
    (action.renameTarget table.renumbering.new?).OfKind onTerminal :=
  ofKind.renameTarget fun _ _ positive renamed =>
    valid.new?_pos positive renamed

theorem below_renameTarget {action : Action} {states rules : Nat}
    (below : action.Below states rules) :
    (action.renameTarget table.renumbering.new?).Below states rules :=
  below.renameTarget fun _ _ inside renamed =>
    Nat.lt_of_le_of_lt (Renumbering.new?_le renamed) inside

theorem renameConflict?_eq_some {conflict renamed : Conflict}
    (kept : renameConflict? table.renumbering conflict = some renamed) :
    ∃ new, table.renumbering.new? conflict.state = some new ∧
      renamed =
        { conflict with
          state := new
          other := conflict.other.renameTarget table.renumbering.new?
          decision := conflict.decision.renameTarget
            table.renumbering.new? } := by
  obtain ⟨new, found, rfl⟩ := Option.map_eq_some_iff.mp kept
  exact ⟨new, found, rfl⟩

theorem log_compact (table : Table) :
    table.compact.log.Tallied ∧
      table.compact.log.conflicts =
        table.log.conflicts.filterMap
          (renameConflict? table.renumbering) ∧
      table.compact.log.shiftShift = table.log.shiftShift := by
  have recorded := ConflictLog.foldl_record
    (table.log.conflicts.filterMap (renameConflict? table.renumbering))
    (ConflictLog.tallied_of_conflicts_eq_empty
      { ConflictLog.empty with shiftShift := table.log.shiftShift } rfl rfl rfl)
  obtain ⟨tallied, conflicts, shiftShift⟩ := recorded
  refine ⟨tallied, ?_, shiftShift⟩
  exact conflicts.trans (Array.empty_append)

theorem mem_rows_compact {row : Array Action}
    (member : row ∈ table.compact.rows) :
    ∃ own ∈ table.rows,
      row = own.map (Action.renameTarget table.renumbering.new?) := by
  obtain ⟨old, listed, rfl⟩ := Array.mem_map.mp member
  exact ⟨_, getD_rows_mem (Renumbering.mem_oldNumbers listed), rfl⟩

theorem mem_conflicts_compact {conflict : Conflict}
    (member : conflict ∈ table.compact.log.conflicts) :
    ∃ own ∈ table.log.conflicts,
      renameConflict? table.renumbering own = some conflict := by
  rw [table.log_compact.2.1] at member
  exact Array.mem_filterMap.mp member

theorem mem_finals_compact {final : Nat × Nat}
    (member : final ∈ table.compact.finals) :
    ∃ own ∈ table.finals,
      table.renumbering.new? own.1 = some final.1 ∧ final.2 = own.2 := by
  obtain ⟨own, listed, renamed⟩ := Array.mem_filterMap.mp member
  obtain ⟨new, found, rfl⟩ := Option.map_eq_some_iff.mp renamed
  exact ⟨own, listed, found, rfl⟩

theorem Valid.compact (valid : table.Valid) : table.compact.Valid := by
  have conflicts : ∀ conflict ∈ table.compact.log.conflicts,
      conflict.Valid table.terminalCount table.compact.stateCount
        table.rules.size := by
    intro conflict member
    obtain ⟨own, logged, kept⟩ := mem_conflicts_compact member
    obtain ⟨new, found, rfl⟩ := renameConflict?_eq_some kept
    have ownValid := valid.conflicts own logged
    constructor
    · exact new?_lt_stateCount found
    · exact ownValid.lookahead
    · exact ownValid.reduce
    · exact valid.renameTarget ownValid.other
    · exact valid.renameTarget ownValid.decision
  constructor
  · exact valid.terminals
  · intro row member
    obtain ⟨own, listed, rfl⟩ := mem_rows_compact member
    have ownValid := valid.rows own listed
    constructor
    · rw [Array.size_map]
      exact ownValid.size
    · intro column inside
      rw [Array.getElem_map]
      exact valid.renameTarget (ownValid.ofKind column (by simpa using inside))
    · intro action inRow
      obtain ⟨before, inOwn, rfl⟩ := Array.mem_map.mp inRow
      exact (ownValid.below before inOwn).renameTarget fun _ _ _ renamed =>
        new?_lt_stateCount renamed
  · intro final member
    obtain ⟨own, listed, renamed, rule⟩ := mem_finals_compact member
    rw [rule]
    exact ⟨new?_lt_stateCount renamed, (valid.finals own listed).2⟩
  · exact conflicts
  · intro state member
    obtain ⟨conflict, logged, rfl⟩ := table.log_compact.1.states state member
    exact (conflicts conflict logged).state
  · exact table.log_compact.1.distinct

theorem Fits.compact (fits : table.Fits) : table.compact.Fits := by
  obtain ⟨tallied, logged, shiftShift⟩ := table.log_compact
  have conflictCount : table.compact.log.conflicts.size ≤
      table.log.conflicts.size := by
    rw [logged]
    exact Array.size_filterMap_le
  have stateCount := table.stateCount_compact_le
  constructor
  · exact fits.columns
  · exact fits.rules
  · exact fits.shapes
  · exact Nat.lt_of_le_of_lt stateCount fits.states
  · exact Nat.lt_of_le_of_lt (Nat.mul_le_mul_right _ stateCount)
      fits.cellCount
  · intro row member action inRow
    obtain ⟨own, listed, rfl⟩ := mem_rows_compact member
    obtain ⟨before, inOwn, rfl⟩ := Array.mem_map.mp inRow
    exact below_renameTarget (fits.cells own listed before inOwn)
  · exact Nat.lt_of_le_of_lt Array.size_filterMap_le fits.finalCount
  · intro final member
    obtain ⟨own, listed, -, rule⟩ := mem_finals_compact member
    rw [rule]
    exact fits.finals own listed
  · apply tallied.fits
    · exact Nat.lt_of_le_of_lt conflictCount fits.log.conflicts
    · rw [shiftShift]
      exact fits.log.shiftShift
    · intro conflict member
      obtain ⟨own, listed, kept⟩ := mem_conflicts_compact member
      obtain ⟨new, found, rfl⟩ := renameConflict?_eq_some kept
      have ownFits := fits.log.each own listed
      constructor
      · exact ownFits.lookahead
      · exact ownFits.reduce
      · exact below_renameTarget ownFits.other
      · exact below_renameTarget ownFits.decision

end Table

end LRTables
