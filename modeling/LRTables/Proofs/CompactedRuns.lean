import LRTables.Proofs.Parses
import LRTables.Proofs.RoundTrips

/-!
# Parsing with a compacted table

Compaction keeps the states that the first one reaches and renumbers them in
order.  A parser over the compacted table goes in step with one over the old
table, and compacting once more changes nothing.
-/

namespace LRTables

theorem filterMap_eq_self {α : Type} {entries : Array α}
    {rename : α → Option α}
    (same : ∀ entry ∈ entries, rename entry = some entry) :
    entries.filterMap rename = entries := by
  obtain ⟨entries⟩ := entries
  have listed : entries.filterMap rename = entries.filterMap some := by
    apply List.filterMap_congr
    intro entry member
    exact same entry (List.mem_toArray.mpr member)
  simp [listed]

namespace Renumbering

variable {size old new : Nat} {kept : Nat → Bool}

/-- The new numbers are those below a count, in the order of the old ones, and
exactly the kept states have one. -/
structure Numbers (renumbering : Renumbering) (kept : Nat → Prop)
    (count : Nat) : Prop where
  kept : ∀ old, (∃ new, renumbering.new? old = some new) ↔ kept old
  numbered : ∀ new, (∃ old, renumbering.old? new = some old) ↔ new < count
  inverse : ∀ old new, renumbering.new? old = some new ↔
    renumbering.old? new = some old
  ordered : ∀ old new later laterNew, renumbering.new? old = some new →
    renumbering.new? later = some laterNew → (old < later ↔ new < laterNew)

/-- Every state keeps its number. -/
def id (size : Nat) : Renumbering :=
  { newNumbers := (Array.range size).map some
    oldNumbers := Array.range size }

theorem old?_ofKept :
    (ofKept size kept).old? new = (keptStates size kept)[new]? := by
  rw [old?, ofKept, List.getElem?_toArray]
  rfl

theorem mem_keptStates :
    old ∈ keptStates size kept ↔ old < size ∧ kept old = true := by
  rw [keptStates, List.mem_filter, List.mem_range]

theorem new?_ofKept :
    (ofKept size kept).new? old = some new ↔
      (keptStates size kept)[new]? = some old := by
  constructor
  · exact fun renamed => (new?_eq_some renamed).2
  · intro found
    obtain ⟨inside, same⟩ := List.getElem?_eq_some_iff.mp found
    have member : old ∈ keptStates size kept := List.mem_of_getElem? found
    have present : (Array.range size)[old]? = some old := by
      simp [(mem_keptStates.mp member).1]
    have increase := List.pairwise_iff_getElem.mp
      (keptStates_increase size kept)
    rw [new?, ofKept, Array.getD_eq_getD_getElem?, Array.getElem?_map, present,
      Option.map_some, Option.getD_some,
      Array.findIdx?_eq_some_iff_getElem]
    refine ⟨inside, beq_iff_eq.mpr same, ?_⟩
    intro index earlier equal
    have less := increase index new (Nat.lt_trans earlier inside) inside
      earlier
    have value : (keptStates size kept)[index] = old := eq_of_beq equal
    omega

/-- Numbering the kept states in order keeps them and their order. -/
theorem numbers_ofKept (size : Nat) (kept : Nat → Bool) :
    (ofKept size kept).Numbers (fun old => old < size ∧ kept old = true)
      (ofKept size kept).oldNumbers.size := by
  constructor
  · intro old
    simp only [new?_ofKept]
    rw [← List.mem_iff_getElem?, mem_keptStates]
  · intro new
    simp only [old?_ofKept]
    constructor
    · rintro ⟨old, found⟩
      exact (List.getElem?_eq_some_iff.mp found).1
    · intro inside
      exact ⟨_, List.getElem?_eq_getElem inside⟩
  · intro old new
    rw [new?_ofKept, old?_ofKept]
  · intro old new later laterNew renamed laterRenamed
    obtain ⟨inside, rfl⟩ :=
      List.getElem?_eq_some_iff.mp (new?_ofKept.mp renamed)
    obtain ⟨laterInside, rfl⟩ :=
      List.getElem?_eq_some_iff.mp (new?_ofKept.mp laterRenamed)
    have increase := List.pairwise_iff_getElem.mp
      (keptStates_increase size kept)
    rcases Nat.lt_trichotomy new laterNew with less | rfl | more
    · have values := increase new laterNew inside laterInside less
      omega
    · omega
    · have values := increase laterNew new laterInside inside more
      omega

/-- If all states are kept, each keeps its number. -/
theorem ofKept_eq_id (all : ∀ old < size, kept old = true) :
    ofKept size kept = id size := by
  have states : keptStates size kept = List.range size := by
    rw [keptStates, List.filter_eq_self]
    intro old listed
    exact all old (List.mem_range.mp listed)
  have numbers : (ofKept size kept).oldNumbers = Array.range size := by
    show (keptStates size kept).toArray = _
    rw [states]
    simp
  have renamed (old : Nat) (inside : old < size) :
      (ofKept size kept).new? old = some old := by
    rw [new?_ofKept, states, List.getElem?_range inside]
  have each : (ofKept size kept).newNumbers = (Array.range size).map some := by
    apply Array.ext
    · simp [ofKept]
    · intro old inside _
      have own : old < size := by simpa [ofKept] using inside
      have value := renamed old own
      rw [new?, Array.getD_eq_getD_getElem?,
        Array.getElem?_eq_getElem inside, Option.getD_some] at value
      rw [value]
      simp
  rw [id, ← each, ← numbers]

theorem new?_id (inside : old < size) : (id size).new? old = some old := by
  rw [new?, id, Array.getD_eq_getD_getElem?, Array.getElem?_map]
  simp [inside]

end Renumbering

/-- The same action with its target renamed. -/
inductive Action.Renamed (rename : Nat → Option Nat) : Action → Action → Prop
  | shift {old new : Nat} (renamed : rename old = some new) :
      Action.Renamed rename (.shift old) (.shift new)
  | goto {old new : Nat} (renamed : rename old = some new) :
      Action.Renamed rename (.goto old) (.goto new)
  | reduce (rule : Nat) : Action.Renamed rename (.reduce rule) (.reduce rule)
  | accept : Action.Renamed rename .accept .accept
  | error : Action.Renamed rename .error .error

inductive ParseAction.Renamed (rename : Nat → Option Nat) :
    ParseAction → ParseAction → Prop
  | shift {old new : Nat} (renamed : rename old = some new) :
      ParseAction.Renamed rename (.shift old) (.shift new)
  | reduce (rule column length : Nat) : ParseAction.Renamed rename
      (.reduce rule column length) (.reduce rule column length)
  | accept : ParseAction.Renamed rename .accept .accept
  | error : ParseAction.Renamed rename .error .error

/-- The same event or error, with the state of a shift renamed. -/
inductive StepRenamed (rename : Nat → Option Nat) :
    Except StepError ParseEvent → Except StepError ParseEvent → Prop
  | shift {old new : Nat} (renamed : rename old = some new) :
      StepRenamed rename (.ok (.shift old)) (.ok (.shift new))
  | reduce (rule : Nat) :
      StepRenamed rename (.ok (.reduce rule)) (.ok (.reduce rule))
  | accept : StepRenamed rename (.ok .accept) (.ok .accept)
  | error (error : StepError) :
      StepRenamed rename (.error error) (.error error)

/-- The same parser, with the states of its stack renamed. -/
structure Parser.Renamed (rename : Nat → Option Nat) (parser other : Parser) :
    Prop where
  stack : List.Forall₂ (fun old new => rename old = some new)
    parser.stack other.stack
  accepted : other.accepted = parser.accepted

namespace Action

variable {action : Action}

theorem renamed_renameTarget {rename : Nat → Option Nat}
    (known : ∀ target, action.target? = some target →
      ∃ new, rename target = some new) :
    action.Renamed rename (action.renameTarget rename) := by
  cases action with
  | shift state =>
      obtain ⟨new, found⟩ := known state rfl
      simp only [renameTarget, found, Option.elim_some]
      exact .shift found
  | goto state =>
      obtain ⟨new, found⟩ := known state rfl
      simp only [renameTarget, found, Option.elim_some]
      exact .goto found
  | reduce rule => exact .reduce rule
  | accept => exact .accept
  | error => exact .error

theorem Renamed.target?_eq {rename : Nat → Option Nat} {other : Action}
    (renamed : action.Renamed rename other) {target new : Nat}
    (isTarget : action.target? = some target)
    (found : rename target = some new) : other.target? = some new := by
  cases renamed with
  | shift own =>
      cases isTarget
      exact own.symm.trans found
  | goto own =>
      cases isTarget
      exact own.symm.trans found
  | reduce => cases isTarget
  | accept => cases isTarget
  | error => cases isTarget

theorem renameTarget_id {size : Nat}
    (inside : ∀ target, action.target? = some target → target < size) :
    action.renameTarget (Renumbering.id size).new? = action := by
  cases action with
  | shift state =>
      simp [renameTarget, Renumbering.new?_id (inside state rfl)]
  | goto state =>
      simp [renameTarget, Renumbering.new?_id (inside state rfl)]
  | reduce rule => rfl
  | accept => rfl
  | error => rfl

theorem target?_renameTarget_lt {rename : Nat → Option Nat} {size : Nat}
    (inside : ∀ old new, rename old = some new → new < size) {target : Nat}
    (isTarget : (action.renameTarget rename).target? = some target) :
    target < size := by
  have renamed {state : Nat} {keep : Nat → Action}
      (own : ∀ new, (keep new).target? = some new)
      (isTarget : ((rename state).elim .error keep).target? = some target) :
      target < size := by
    cases found : rename state with
    | none =>
        rw [found] at isTarget
        cases isTarget
    | some new =>
        rw [found, Option.elim_some, own] at isTarget
        cases isTarget
        exact inside state _ found
  cases action with
  | shift state => exact renamed (fun _ => rfl) isTarget
  | goto state => exact renamed (fun _ => rfl) isTarget
  | reduce => cases isTarget
  | accept => cases isTarget
  | error => cases isTarget

theorem Below.target_lt {states rules target : Nat}
    (below : action.Below states rules)
    (isTarget : action.target? = some target) : target < states := by
  cases action with
  | shift state =>
      cases isTarget
      exact below
  | goto state =>
      cases isTarget
      exact below
  | reduce => cases isTarget
  | accept => cases isTarget
  | error => cases isTarget

end Action

namespace Table

variable {table : Table} {old new column source target : Nat}

/-- A positive cell of one state names another. -/
def Leads (table : Table) (source target : Nat) : Prop :=
  ∃ column, 0 < (table.cell source column).code ∧
    (table.cell source column).code = target

/-- The first state leads to a state. -/
def Reaches (table : Table) : Nat → Prop :=
  Relation.ReflTransGen table.Leads 0

theorem mem_rowTargets : target ∈ table.rowTargets source ↔
    ∃ column, (table.cell source column).target? = some target := by
  constructor
  · intro member
    obtain ⟨action, inRow, isTarget⟩ := List.mem_filterMap.mp member
    obtain ⟨column, inside, same⟩ := Array.mem_iff_getElem.mp
      (Array.mem_toList_iff.mp inRow)
    refine ⟨column, ?_⟩
    rw [cell, Array.getD_eq_getD_getElem?, Array.getElem?_eq_getElem inside,
      same]
    exact isTarget
  · rintro ⟨column, isTarget⟩
    rw [cell, Array.getD_eq_getD_getElem?] at isTarget
    cases found : (table.rows.getD source #[])[column]? with
    | none =>
        rw [found] at isTarget
        cases isTarget
    | some action =>
        rw [found] at isTarget
        exact List.mem_filterMap.mpr ⟨action,
          Array.mem_toList_iff.mpr (Array.mem_of_getElem? found), isTarget⟩

/-- The cell of a valid table is an error or stands in a row. -/
theorem Valid.ofKind_cell (valid : table.Valid) (state column : Nat) :
    (table.cell state column).OfKind
      (decide (column < table.terminalCount)) := by
  by_cases inside : state < table.stateCount
  · have row := valid.rows _ (getD_rows_mem inside)
    by_cases within : column < (table.rows.getD state #[]).size
    · have ofKind := row.ofKind column within
      rw [cell, Array.getD_eq_getD_getElem?, Array.getElem?_eq_getElem within]
      exact ofKind
    · rw [cell, Array.getD_eq_getD_getElem?,
        Array.getElem?_eq_none (Nat.le_of_not_lt within)]
      trivial
  · have absent : table.rows.getD state #[] = #[] := by
      rw [Array.getD_eq_getD_getElem?,
        Array.getElem?_eq_none (Nat.le_of_not_lt inside)]
      rfl
    rw [cell, absent]
    trivial

theorem Valid.leads_iff (valid : table.Valid) :
    table.Leads source target ↔ target ∈ table.rowTargets source := by
  rw [mem_rowTargets]
  apply exists_congr
  intro column
  have ofKind := valid.ofKind_cell source column
  cases kind : table.cell source column with
  | shift state =>
      rw [kind] at ofKind
      have positive := ofKind.2
      simp only [Action.code, Action.target?, Option.some.injEq]
      omega
  | goto state =>
      rw [kind] at ofKind
      have positive := ofKind.2
      simp only [Action.code, Action.target?, Option.some.injEq]
      omega
  | reduce rule =>
      simp only [Action.code, Action.target?]
      constructor
      · omega
      · intro absurd
        cases absurd
  | accept =>
      simp [Action.code, Action.target?, Action.acceptCode]
  | error =>
      simp [Action.code, Action.target?]

theorem Valid.reaches_iff (valid : table.Valid) {state : Nat} :
    table.Reaches state ↔ ReachedFrom table.rowTargets [0] state := by
  have same : table.Leads = fun source target =>
      target ∈ table.rowTargets source := by
    funext source target
    exact propext valid.leads_iff
  simp [Reaches, ReachedFrom, same]

/-- The kept states are the existing ones that the first state reaches. -/
theorem Valid.numbers (valid : table.Valid) :
    table.renumbering.Numbers
      (fun state => state < table.stateCount ∧ table.Reaches state)
      table.compact.stateCount := by
  have numbers := Renumbering.numbers_ofKept table.stateCount
    table.reachableRows.contains
  have same : (fun state => state < table.stateCount ∧
      table.reachableRows.contains state = true) =
      fun state => state < table.stateCount ∧ table.Reaches state := by
    funext state
    apply propext
    apply and_congr_right
    intro inside
    rw [Array.contains_iff_mem, valid.mem_reachableRows (by omega),
      valid.reaches_iff]
  rw [same] at numbers
  rw [stateCount_compact, renumbering_eq]
  exact numbers

theorem Valid.new?_zero (valid : table.Valid)
    (occupied : 0 < table.stateCount) :
    table.renumbering.new? 0 = some 0 := by
  obtain ⟨new, renamed⟩ := (valid.numbers.kept 0).mpr ⟨occupied, .refl⟩
  have least : new ≤ 0 := Renumbering.new?_le renamed
  rw [renamed, Nat.le_zero.mp least]

theorem Valid.cell_compact (valid : table.Valid)
    (renamed : table.renumbering.new? old = some new) (column : Nat) :
    table.compact.cell new column =
      (table.cell old column).renameTarget table.renumbering.new? := by
  have found : table.renumbering.oldNumbers[new]? = some old :=
    (valid.numbers.inverse old new).mp renamed
  have row : table.compact.rows.getD new #[] =
      (table.rows.getD old #[]).map
        (Action.renameTarget table.renumbering.new?) := by
    rw [Array.getD_eq_getD_getElem?, Table.compact, Array.getElem?_map, found]
    rfl
  rw [cell, cell, row]
  generalize table.rows.getD old #[] = actions
  simp only [Array.getD_eq_getD_getElem?, Array.getElem?_map]
  cases actions[column]? with
  | none => rfl
  | some action => rfl

theorem Valid.target_kept (valid : table.Valid)
    (renamed : table.renumbering.new? old = some new)
    (isTarget : (table.cell old column).target? = some target) :
    ∃ newTarget, table.renumbering.new? target = some newTarget := by
  have member : target ∈ table.rowTargets old :=
    mem_rowTargets.mpr ⟨column, isTarget⟩
  have reached := ((valid.numbers.kept old).mp ⟨new, renamed⟩).2
  exact (valid.numbers.kept target).mpr
    ⟨valid.target_lt member, reached.tail (valid.leads_iff.mpr member)⟩

theorem Valid.renamed_cell (valid : table.Valid)
    (renamed : table.renumbering.new? old = some new) (column : Nat) :
    (table.cell old column).Renamed table.renumbering.new?
      (table.compact.cell new column) := by
  rw [valid.cell_compact renamed]
  exact Action.renamed_renameTarget fun _ isTarget =>
    valid.target_kept renamed isTarget

theorem Valid.renamed_action (valid : table.Valid)
    (renamed : table.renumbering.new? old = some new)
    (lookahead : Option Nat) :
    (table.action old lookahead).Renamed table.renumbering.new?
      (table.compact.action new lookahead) := by
  unfold action
  show ParseAction.Renamed _ _ (if _ < table.terminalCount then _ else _)
  dsimp only
  split
  · have cells := valid.renamed_cell renamed
      (lookahead.getD Terminal.endOfInput)
    generalize table.cell old (lookahead.getD Terminal.endOfInput) = action
      at cells
    generalize table.compact.cell new (lookahead.getD Terminal.endOfInput) =
      other at cells
    cases cells with
    | shift target => exact .shift target
    | goto target => exact .error
    | reduce rule =>
        have rules : table.compact.rules = table.rules := rfl
        rw [rules]
        dsimp only
        rcases table.rules[rule]? with _ | ⟨_ | left, length, hasCode⟩
        · exact .error
        · exact .error
        · exact .reduce rule left length
    | accept => exact .accept
    | error => exact .error
  · exact .error

theorem Valid.goto?_compact (valid : table.Valid)
    (renamed : table.renumbering.new? old = some new) (column : Nat) :
    Option.Rel (fun old new => table.renumbering.new? old = some new)
      (table.goto? old column) (table.compact.goto? new column) := by
  have cells := valid.renamed_cell renamed column
  unfold goto?
  generalize table.cell old column = action at cells
  generalize table.compact.cell new column = newAction at cells
  cases cells with
  | goto target => exact .some target
  | shift => exact .none
  | reduce => exact .none
  | accept => exact .none
  | error => exact .none

variable {parser other : Parser}

theorem Valid.renamed_reduce (valid : table.Valid)
    (renamed : parser.Renamed table.renumbering.new? other)
    (rule column length : Nat) :
    StepRenamed table.renumbering.new?
        (parser.reduce table rule column length).1
        (other.reduce table.compact rule column length).1 ∧
      (parser.reduce table rule column length).2.Renamed
        table.renumbering.new?
        (other.reduce table.compact rule column length).2 := by
  have depth := renamed.stack.length_eq
  have left := List.forall₂_drop length renamed.stack
  unfold Parser.reduce
  rw [← depth]
  generalize parser.stack.drop length = stack at left
  generalize other.stack.drop length = otherStack at left
  cases left with
  | nil => exact ⟨.error _, renamed⟩
  | @cons top newTop rest newRest head tail =>
      have goto := valid.goto?_compact head column
      dsimp only
      generalize table.goto? top column = next at goto
      generalize table.compact.goto? newTop column = newNext at goto
      cases goto with
      | none => exact ⟨.error _, .cons head tail, renamed.accepted⟩
      | some target =>
          exact ⟨.reduce rule, .cons target (.cons head tail),
            renamed.accepted⟩

/-- One step over the compacted table goes with one over the old table. -/
theorem Valid.renamed_step (valid : table.Valid)
    (renamed : parser.Renamed table.renumbering.new? other)
    (lookahead : Option Nat) :
    StepRenamed table.renumbering.new? (parser.step table lookahead).1
        (other.step table.compact lookahead).1 ∧
      (parser.step table lookahead).2.Renamed table.renumbering.new?
        (other.step table.compact lookahead).2 := by
  unfold Parser.step
  rw [renamed.accepted]
  split
  · exact ⟨.error _, renamed⟩
  · have stack := renamed.stack
    generalize whole : parser.stack = states at stack
    generalize otherWhole : other.stack = otherStates at stack
    cases stack with
    | nil => exact ⟨.error _, renamed⟩
    | @cons top newTop rest newRest head tail =>
        have actions := valid.renamed_action head lookahead
        dsimp only
        generalize table.action top lookahead = action at actions
        generalize table.compact.action newTop lookahead = newAction
          at actions
        cases actions with
        | shift target =>
            exact ⟨.shift target, ⟨.cons target (.cons head tail), rfl⟩⟩
        | reduce rule column length =>
            exact valid.renamed_reduce renamed rule column length
        | accept =>
            exact ⟨.accept, ⟨.cons head tail, rfl⟩⟩
        | error => exact ⟨.error _, renamed⟩

theorem Valid.renamed_begin (valid : table.Valid)
    (occupied : 0 < table.stateCount) :
    Parser.begin.Renamed table.renumbering.new? Parser.begin :=
  ⟨.cons (valid.new?_zero occupied) .nil, rfl⟩

theorem Valid.renamed_after (valid : table.Valid)
    (occupied : 0 < table.stateCount) (lookaheads : List (Option Nat)) :
    (Parser.after table lookaheads).Renamed table.renumbering.new?
      (Parser.after table.compact lookaheads) := by
  induction lookaheads using List.reverseRecOn with
  | nil => exact valid.renamed_begin occupied
  | append_singleton earlier lookahead ih =>
      simp only [Parser.after, List.foldl_append, List.foldl_cons,
        List.foldl_nil]
      exact (valid.renamed_step ih lookahead).2

theorem step_of_stateCount_eq_zero (blank : table.stateCount = 0)
    (lookahead : Option Nat) :
    Parser.begin.step table lookahead =
      (.error .unexpected, Parser.begin) := by
  have rows : table.rows = #[] := Array.size_eq_zero_iff.mp blank
  have noCell (column : Nat) : table.cell 0 column = .error := by
    simp [cell, rows]
  have noAction : table.action 0 lookahead = .error := by
    simp [action, noCell]
  simp [Parser.step, Parser.begin, noAction]

theorem after_of_stateCount_eq_zero (blank : table.stateCount = 0)
    (lookaheads : List (Option Nat)) :
    Parser.after table lookaheads = Parser.begin := by
  induction lookaheads using List.reverseRecOn with
  | nil => rfl
  | append_singleton earlier lookahead ih =>
      rw [Parser.after] at ih
      simp [Parser.after, ih, step_of_stateCount_eq_zero blank]

theorem Valid.lockstep (valid : table.Valid)
    (lookaheads : List (Option Nat)) (lookahead : Option Nat) :
    StepRenamed table.renumbering.new?
      ((Parser.after table lookaheads).step table lookahead).1
      ((Parser.after table.compact lookaheads).step table.compact
        lookahead).1 := by
  rcases Nat.eq_zero_or_pos table.stateCount with blank | occupied
  · have alsoBlank : table.compact.stateCount = 0 := by
      have fewer := table.stateCount_compact_le
      omega
    rw [after_of_stateCount_eq_zero blank,
      after_of_stateCount_eq_zero alsoBlank, step_of_stateCount_eq_zero blank,
      step_of_stateCount_eq_zero alsoBlank]
    exact .error _
  · exact (valid.renamed_step (valid.renamed_after occupied lookaheads)
      lookahead).1

/-- Parses in the same position come to the same result. -/
theorem Valid.run_compact (valid : table.Valid) (limit : Nat)
    (tokens : List (Except String Nat)) (consumed : Nat)
    (reductions : List Nat)
    (renamed : parser.Renamed table.renumbering.new? other) :
    Parse.run table.compact limit
        { parser := other, tokens, consumed, reductions } =
      Parse.run table limit { parser, tokens, consumed, reductions } := by
  induction limit generalizing parser other tokens consumed reductions with
  | zero => rfl
  | succ limit ih =>
      cases found : Parse.lookahead? tokens with
      | none =>
          obtain ⟨message, rest, rfl⟩ := Parse.lookahead?_eq_none.mp found
          rfl
      | some lookahead =>
          rw [Parse.run_of_lookahead? limit found,
            Parse.run_of_lookahead? limit found]
          have steps := valid.renamed_step renamed lookahead
          dsimp only
          generalize parser.step table lookahead = outcome at steps
          generalize other.step table.compact lookahead = newOutcome at steps
          obtain ⟨event, after⟩ := outcome
          obtain ⟨newEvent, newAfter⟩ := newOutcome
          obtain ⟨events, parsers⟩ := steps
          dsimp only at events parsers
          cases events with
          | shift => exact ih _ _ _ parsers
          | reduce rule => exact ih _ _ _ parsers
          | accept => rfl
          | error => rfl

/-- Tables without states parse alike. -/
theorem parseWithin_of_stateCount_eq_zero {other : Table}
    (blank : table.stateCount = 0) (alsoBlank : other.stateCount = 0)
    (limit : Nat) (tokens : List (Except String Nat)) :
    other.parseWithin limit tokens = table.parseWithin limit tokens := by
  cases limit with
  | zero => rfl
  | succ limit =>
      rw [parseWithin, parseWithin]
      cases found : Parse.lookahead? tokens with
      | none =>
          obtain ⟨message, rest, rfl⟩ := Parse.lookahead?_eq_none.mp found
          rfl
      | some lookahead =>
          rw [Parse.run_of_lookahead? limit found,
            Parse.run_of_lookahead? limit found]
          simp only [Parse.begin, step_of_stateCount_eq_zero blank,
            step_of_stateCount_eq_zero alsoBlank]

/-- The compacted table parses every token sequence with the same result. -/
theorem Valid.parseWithin_compact (valid : table.Valid) (limit : Nat)
    (tokens : List (Except String Nat)) :
    table.compact.parseWithin limit tokens =
      table.parseWithin limit tokens := by
  rcases Nat.eq_zero_or_pos table.stateCount with blank | occupied
  · apply parseWithin_of_stateCount_eq_zero blank
    exact Nat.le_zero.mp (blank ▸ table.stateCount_compact_le)
  · exact valid.run_compact limit tokens 0 [] (valid.renamed_begin occupied)

theorem Valid.reaches_compact (valid : table.Valid)
    (occupied : 0 < table.stateCount) (reached : table.Reaches old) :
    ∃ new, table.renumbering.new? old = some new ∧
      table.compact.Reaches new := by
  induction reached with
  | refl => exact ⟨0, valid.new?_zero occupied, .refl⟩
  | @tail source target path edge ih =>
      obtain ⟨new, renamed, reachedNew⟩ := ih
      obtain ⟨column, isTarget⟩ := mem_rowTargets.mp
        (valid.leads_iff.mp edge)
      obtain ⟨newTarget, found⟩ := valid.target_kept renamed isTarget
      refine ⟨newTarget, found, reachedNew.tail ?_⟩
      exact valid.compact.leads_iff.mpr (mem_rowTargets.mpr
        ⟨column, (valid.renamed_cell renamed column).target?_eq isTarget
          found⟩)

/-- Every state of a compacted table is kept when it is compacted again. -/
theorem Valid.renumbering_compact (valid : table.Valid) :
    table.compact.renumbering = .id table.compact.stateCount := by
  rw [renumbering_eq]
  apply Renumbering.ofKept_eq_id
  intro new inside
  have occupied : 0 < table.stateCount := by
    have fewer := table.stateCount_compact_le
    omega
  obtain ⟨old, isOld⟩ := (valid.numbers.numbered new).mpr inside
  have renamed := (valid.numbers.inverse old new).mpr isOld
  have reached := ((valid.numbers.kept old).mp ⟨new, renamed⟩).2
  obtain ⟨same, renamedSame, reachedNew⟩ :=
    valid.reaches_compact occupied reached
  cases renamed.symm.trans renamedSame
  rw [Array.contains_iff_mem, valid.compact.mem_reachableRows (by omega),
    ← valid.compact.reaches_iff]
  exact reachedNew

theorem ValidRow.map_renameTarget_id {row : Array Action}
    (valid : table.ValidRow row) :
    row.map (Action.renameTarget (Renumbering.id table.stateCount).new?) =
      row := by
  apply Array.ext
  · simp
  · intro column _ inside
    rw [Array.getElem_map]
    apply Action.renameTarget_id
    intro target isTarget
    exact (valid.below _ (Array.getElem_mem inside)).target_lt isTarget

theorem Valid.rows_compact_of_renumbering (valid : table.Valid)
    (numbers : table.renumbering = .id table.stateCount) :
    table.compact.rows = table.rows := by
  rw [Table.compact, numbers]
  apply Array.ext
  · simp [Renumbering.id, stateCount]
  · intro state _ inside
    have row : table.rows.getD state #[] = table.rows[state] := by
      rw [Array.getD_eq_getD_getElem?, Array.getElem?_eq_getElem inside]
      rfl
    have isRow := valid.rows _ (Array.getElem_mem inside)
    simp only [Renumbering.id, Array.getElem_map, Array.getElem_range, row]
    exact isRow.map_renameTarget_id

theorem Valid.finals_compact_of_renumbering (valid : table.Valid)
    (numbers : table.renumbering = .id table.stateCount) :
    table.compact.finals = table.finals := by
  rw [Table.compact, numbers]
  apply filterMap_eq_self
  intro final member
  have inside := (valid.finals final member).1
  simp [Renumbering.new?_id inside]

theorem log_compact_compact (valid : table.Valid) :
    table.compact.compact.log = table.compact.log := by
  have numbers := valid.renumbering_compact
  have shiftShift := table.log_compact.2.2
  have kept : table.compact.log.conflicts.filterMap
      (renameConflict? (.id table.compact.stateCount)) =
        table.compact.log.conflicts := by
    apply filterMap_eq_self
    intro conflict member
    obtain ⟨own, -, renamed⟩ := mem_conflicts_compact member
    obtain ⟨new, found, rfl⟩ := renameConflict?_eq_some renamed
    have inside : new < table.compact.stateCount := new?_lt_stateCount found
    have targets (action : Action) (target : Nat) (isTarget :
        (action.renameTarget table.renumbering.new?).target? = some target) :
        target < table.compact.stateCount :=
      Action.target?_renameTarget_lt
        (fun _ _ renamed => new?_lt_stateCount renamed) isTarget
    simp only [renameConflict?, Renumbering.new?_id inside, Option.map_some,
      Action.renameTarget_id (targets own.other),
      Action.renameTarget_id (targets own.decision)]
  have conflicts := table.log_compact.2.1
  calc table.compact.compact.log
      = (table.compact.log.conflicts.filterMap
          (renameConflict? table.compact.renumbering)).foldl
          ConflictLog.record
          { ConflictLog.empty with
            shiftShift := table.compact.log.shiftShift } := rfl
    _ = (table.log.conflicts.filterMap
          (renameConflict? table.renumbering)).foldl ConflictLog.record
          { ConflictLog.empty with shiftShift := table.log.shiftShift } := by
        rw [numbers, kept, conflicts, shiftShift]
    _ = table.compact.log := rfl

/-- Compacting a compacted table changes nothing. -/
theorem Valid.compact_compact (valid : table.Valid) :
    table.compact.compact = table.compact := by
  have numbers := valid.renumbering_compact
  have rows := valid.compact.rows_compact_of_renumbering numbers
  have finals := valid.compact.finals_compact_of_renumbering numbers
  have log := log_compact_compact valid
  calc table.compact.compact
      = { table.compact with
          rows := table.compact.compact.rows
          finals := table.compact.compact.finals
          log := table.compact.compact.log } := rfl
    _ = table.compact := by rw [rows, finals, log]

/-- Compaction does not change what a table does.  Exactly the states that the
first one reaches keep a number, in their old order.  Parsers over the old and
the compacted table go in step on all lookaheads and parse every token sequence
alike.  Compacting once more changes nothing. -/
theorem compact_same_behaviour
    (origin : (∃ grammar : Grammar, grammar.Accepted ∧
        table.BuiltFor grammar) ∨
      ∃ text, read text = .ok table) :
    table.renumbering.Numbers
        (fun state => state < table.stateCount ∧ table.Reaches state)
        table.compact.stateCount ∧
      (∀ lookaheads lookahead,
        StepRenamed table.renumbering.new?
          ((Parser.after table lookaheads).step table lookahead).1
          ((Parser.after table.compact lookaheads).step table.compact
            lookahead).1) ∧
      (0 < table.stateCount → ∀ lookaheads,
        (Parser.after table lookaheads).Renamed table.renumbering.new?
          (Parser.after table.compact lookaheads)) ∧
      (∀ limit tokens, table.compact.parseWithin limit tokens =
        table.parseWithin limit tokens) ∧
      table.compact.compact = table.compact ∧
      table.compact.renumbering = .id table.compact.stateCount := by
  have valid : table.Valid := by
    rcases origin with ⟨grammar, accepted, built⟩ | ⟨text, result⟩
    · exact built.valid accepted
    · exact (sound_read result).1
  exact ⟨valid.numbers, valid.lockstep, valid.renamed_after,
    valid.parseWithin_compact, valid.compact_compact,
    valid.renumbering_compact⟩

/-- A table whose second state is reached from no other. -/
def gapped : Table :=
  { columns := #["$end", "a", "S"]
    terminalCount := 2
    rules :=
      #[{ column := none, length := 1, hasCode := false },
        { column := some 2, length := 1, hasCode := false }]
    rows :=
      #[#[.error, .shift 3, .goto 2], #[.error, .shift 3, .error],
        #[.accept, .error, .error], #[.reduce 1, .error, .error]]
    finals := #[(3, 1)]
    log := .empty }

def gappedText : String :=
  "%columns 3 2\n$end\na\nS\n%rules 2\n- 1 0\n2 1 0\n%states 4\n" ++
  "0 3 2\n0 3 0\n-2147483648 0 0\n-1 0 0\n%final 1\n3 1\n" ++
  "%conflicts 0 0 0 0\n%inadequate 0\n"

theorem read_gappedText : read gappedText = .ok gapped := by
  decide +kernel

theorem not_reaches_gapped : ¬ gapped.Reaches 1 := by
  have valid := (sound_read read_gappedText).1
  intro reached
  rcases reached.cases_tail with same | ⟨source, -, edge⟩
  · cases same
  · have member := valid.leads_iff.mp edge
    rcases Nat.lt_or_ge source 4 with inside | beyond
    · have none : ∀ source < 4, 1 ∉ gapped.rowTargets source := by decide
      exact none source inside member
    · have absent : gapped.rows.getD source #[] = #[] := by
        rw [Array.getD_eq_getD_getElem?, Array.getElem?_eq_none beyond]
        rfl
      rw [rowTargets, absent] at member
      cases member

/-- The second state of the sample is dropped, and no parser tells. -/
theorem compact_same_behaviour_gapped : read gappedText = .ok gapped ∧
    gapped.renumbering.new? 1 = none ∧
    (∀ limit tokens, gapped.compact.parseWithin limit tokens =
      gapped.parseWithin limit tokens) ∧
    gapped.compact.compact = gapped.compact := by
  obtain ⟨numbers, -, -, parses, again, -⟩ :=
    compact_same_behaviour (.inr ⟨gappedText, read_gappedText⟩)
  refine ⟨read_gappedText, ?_, parses, again⟩
  by_contra dropped
  obtain ⟨new, renamed⟩ := Option.ne_none_iff_exists'.mp dropped
  exact not_reaches_gapped ((numbers.kept 1).mp ⟨new, renamed⟩).2

end Table

end LRTables
