import LRTables.Parser
import LRTables.Proofs.Compactions

/-!
# Checked access to tables

The cells of a table can be laid out in one list, row after row.  Here every
use of a table goes through that list, and a use that would reach beyond it, or
beyond another list, comes to nothing.  With a valid table this never happens:
each use yields what the table itself says.
-/

namespace LRTables

namespace Table

/-- The cells of all rows, one row after the other. -/
def cells (table : Table) : List Action :=
  (table.rows.toList.map Array.toList).flatten

/-- The cells of a row. -/
def checkedRow? (table : Table) (state : Nat) : Option (List Action) :=
  let width := table.columns.size
  if state * width + width ≤ table.cells.length then
    some ((table.cells.drop (state * width)).take width)
  else none

def checkedCell? (table : Table) (state column : Nat) : Option Action :=
  table.cells[state * table.columns.size + column]?

/-- The action of a state on a lookahead.  States and columns that the table
does not have are errors, and so are rules. -/
def checkedAction? (table : Table) (state : Nat) (lookahead : Option Nat) :
    Option ParseAction :=
  let column := lookahead.getD Terminal.endOfInput
  if state ≥ table.stateCount ∨ column ≥ table.terminalCount then some .error
  else do
    match ← table.checkedCell? state column with
    | .shift next => return .shift next
    | .reduce rule =>
      match table.rules[rule]? with
      | some { column := some left, length, .. } =>
        return .reduce rule left length
      | _ => return .error
    | .accept => return .accept
    | .goto _ => return .error
    | .error => return .error

/-- The state entered after a reduction. -/
def checkedGoto? (table : Table) (state column : Nat) :
    Option (Option Nat) :=
  if state ≥ table.stateCount ∨ column ≥ table.columns.size then some none
  else do
    match ← table.checkedCell? state column with
    | .goto next => return some next
    | _ => return none

/-- The lines of the written form, with the given rows. -/
def linesWith (table : Table) (rows : List (List Action)) : List String :=
  headerLine "%columns" [table.columns.size, table.terminalCount] ::
    table.columns.toList ++
  headerLine "%rules" [table.rules.size] ::
    table.rules.toList.map shapeLine ++
  headerLine "%states" [table.stateCount] ::
    (rows.map fun row =>
      spaced (row.map fun action => Numeral.integerText action.code)) ++
  headerLine "%final" [table.finals.size] ::
    table.finals.toList.map finalLine ++
  headerLine "%conflicts"
      [table.log.conflicts.size, table.log.shiftReduce,
        table.log.reduceReduce, table.log.shiftShift] ::
    table.log.conflicts.toList.map conflictLine ++
  headerLine "%inadequate" [table.log.inadequate.length] ::
    table.log.inadequate.map Numeral.text

def checkedWrite? (table : Table) : Option String := do
  let rows ← (List.range table.stateCount).mapM table.checkedRow?
  return String.join ((table.linesWith rows).map fun line => line ++ "\n")

/-- Note the state to which a cell leads, and let it wait if it is new. -/
def visit? : Array Bool × List Nat → Action →
    Option (Array Bool × List Nat)
  | (reached, waiting), action =>
    match action.target? with
    | none => some (reached, waiting)
    | some target => do
      if ← reached[target]? then return (reached, waiting)
      else return (reached.setIfInBounds target true, target :: waiting)

/-- Follow the cells of the waiting states, at most `limit` of them. -/
def checkedSearch? (table : Table) :
    (limit : Nat) → Array Bool × List Nat → Option (Array Bool)
  | 0, _ => none
  | limit + 1, (reached, waiting) =>
    match waiting with
    | [] => some reached
    | number :: rest => do
      let row ← table.checkedRow? number
      let searched ← row.foldlM visit? (reached, rest)
      table.checkedSearch? limit searched

/-- For each state, whether the first one reaches it. -/
def checkedReached? (table : Table) : Option (Array Bool) :=
  if table.stateCount = 0 then some #[]
  else
    table.checkedSearch? (table.stateCount + 1)
      ((Array.replicate table.stateCount false).setIfInBounds 0 true, [0])

/-- The table with the given rows, and the rest renumbered. -/
def compactWith (table : Table) (renumbering : Renumbering)
    (rows : List (List Action)) : Table :=
  let kept := table.log.conflicts.filterMap (renameConflict? renumbering)
  { table with
    rows := (rows.map fun row =>
      (row.map (Action.renameTarget renumbering.new?)).toArray).toArray
    finals := table.finals.filterMap fun (state, rule) =>
      (renumbering.new? state).map fun state => (state, rule)
    log := kept.foldl ConflictLog.record
      { ConflictLog.empty with shiftShift := table.log.shiftShift } }

def checkedCompact? (table : Table) : Option Table := do
  let reached ← table.checkedReached?
  let renumbering := Renumbering.ofKept table.stateCount
    fun number => reached.getD number false
  let rows ← renumbering.oldNumbers.toList.mapM table.checkedRow?
  return table.compactWith renumbering rows

end Table

namespace Parser

def checkedReduce? (table : Table) (parser : Parser)
    (rule column length : Nat) :
    Option (Except StepError ParseEvent × Parser) :=
  let depth := parser.stack.length
  if length ≥ depth then
    some (.error (.stackUnderflow length depth), parser)
  else
    match parser.stack.drop length with
    | [] => some (.error (.stackUnderflow length depth), parser)
    | top :: rest => do
      match ← table.checkedGoto? top column with
      | some next =>
        return (.ok (.reduce rule),
          { parser with stack := next :: top :: rest })
      | none =>
        return (.error .missingGoto, { parser with stack := top :: rest })

def checkedStep? (table : Table) (parser : Parser) (lookahead : Option Nat) :
    Option (Except StepError ParseEvent × Parser) :=
  if parser.accepted then some (.error .alreadyAccepted, parser)
  else
    match parser.stack with
    | [] => some (.error (.stackUnderflow 1 0), parser)
    | current :: _ => do
      match ← table.checkedAction? current lookahead with
      | .shift next =>
        return (.ok (.shift next),
          { parser with stack := next :: parser.stack })
      | .reduce rule column length =>
        parser.checkedReduce? table rule column length
      | .accept => return (.ok .accept, { parser with accepted := true })
      | .error => return (.error .unexpected, parser)

/-- The parser after a step on each of the lookaheads, whatever the steps
yield. -/
def checkedSteps? (table : Table) :
    List (Option Nat) → Parser → Option Parser
  | [], parser => some parser
  | lookahead :: rest, parser => do
    let (_, next) ← parser.checkedStep? table lookahead
    checkedSteps? table rest next

end Parser

theorem drop_flatten_of_length {α : Type} {width : Nat} {rows : List (List α)}
    (each : ∀ row ∈ rows, row.length = width) (count : Nat) :
    rows.flatten.drop (count * width) = (rows.drop count).flatten := by
  induction count generalizing rows with
  | zero => simp
  | succ count ih =>
      cases rows with
      | nil => simp
      | cons row rest =>
          have own := each row List.mem_cons_self
          rw [Nat.succ_mul, Nat.add_comm, ← List.drop_drop, ← own,
            List.flatten_cons, List.drop_left, own, List.drop_succ_cons]
          exact ih fun other later => each other (List.mem_cons_of_mem _ later)

theorem length_flatten_of_length {α : Type} {width : Nat}
    {rows : List (List α)} (each : ∀ row ∈ rows, row.length = width) :
    rows.flatten.length = rows.length * width := by
  induction rows with
  | nil => simp
  | cons row rest ih =>
      rw [List.flatten_cons, List.length_append, List.length_cons,
        Nat.succ_mul, Nat.add_comm, each row List.mem_cons_self,
        ih fun other later => each other (List.mem_cons_of_mem _ later)]

namespace Table

variable {table : Table}

theorem Valid.length_row (valid : table.Valid) :
    ∀ row ∈ table.rows.toList.map Array.toList,
      row.length = table.columns.size := by
  intro row member
  obtain ⟨own, listed, rfl⟩ := List.mem_map.mp member
  exact (valid.rows own (Array.mem_toList_iff.mp listed)).size

theorem Valid.length_cells (valid : table.Valid) :
    table.cells.length = table.stateCount * table.columns.size := by
  rw [cells, length_flatten_of_length valid.length_row, List.length_map,
    Array.length_toList, stateCount]

theorem Valid.drop_cells (valid : table.Valid) {state : Nat}
    (inside : state < table.stateCount) :
    ∃ rest, table.cells.drop (state * table.columns.size) =
      (table.rows.getD state #[]).toList ++ rest := by
  have bound : state < table.rows.toList.length := inside
  have row : table.rows.getD state #[] = table.rows.toList[state] := by
    rw [Array.getD_eq_getD_getElem?, Array.getElem?_eq_getElem inside]
    rfl
  refine ⟨((table.rows.toList.map Array.toList).drop (state + 1)).flatten, ?_⟩
  rw [cells, drop_flatten_of_length valid.length_row, row,
    List.drop_eq_getElem_cons (by rwa [List.length_map]), List.flatten_cons,
    List.getElem_map]

theorem Valid.checkedRow? (valid : table.Valid) {state : Nat}
    (inside : state < table.stateCount) :
    table.checkedRow? state = some (table.rows.getD state #[]).toList := by
  have size := (valid.rows _ (getD_rows_mem inside)).size
  obtain ⟨rest, found⟩ := valid.drop_cells inside
  have fits : state * table.columns.size + table.columns.size ≤
      table.cells.length := by
    rw [valid.length_cells, ← Nat.succ_mul]
    exact Nat.mul_le_mul_right _ inside
  rw [Table.checkedRow?, if_pos fits, found, ← size, ← Array.length_toList,
    List.take_left]

theorem Valid.checkedCell? (valid : table.Valid) {state column : Nat}
    (inside : state < table.stateCount)
    (within : column < table.columns.size) :
    table.checkedCell? state column = some (table.cell state column) := by
  have size := (valid.rows _ (getD_rows_mem inside)).size
  obtain ⟨rest, found⟩ := valid.drop_cells inside
  have bound : column < (table.rows.getD state #[]).size := size ▸ within
  rw [Table.checkedCell?, ← List.getElem?_drop, found,
    List.getElem?_append_left (by rwa [Array.length_toList]),
    Array.getElem?_toList, Array.getElem?_eq_getElem bound]
  exact congrArg some (Array.getElem_eq_getD _)

theorem cell_of_stateCount_le {state column : Nat}
    (outside : table.stateCount ≤ state) :
    table.cell state column = .error := by
  have absent : table.rows.getD state #[] = #[] := by
    rw [Array.getD_eq_getD_getElem?, Array.getElem?_eq_none outside]
    rfl
  rw [cell, absent]
  rfl

theorem Valid.cell_of_size_le (valid : table.Valid) {state column : Nat}
    (outside : table.columns.size ≤ column) :
    table.cell state column = .error := by
  by_cases inside : state < table.stateCount
  · have size := (valid.rows _ (getD_rows_mem inside)).size
    rw [cell, Array.getD_eq_getD_getElem?,
      Array.getElem?_eq_none (size ▸ outside)]
    rfl
  · exact cell_of_stateCount_le (Nat.le_of_not_lt inside)

theorem Valid.checkedAction? (valid : table.Valid) (state : Nat)
    (lookahead : Option Nat) :
    table.checkedAction? state lookahead =
      some (table.action state lookahead) := by
  unfold Table.checkedAction? action
  dsimp only
  by_cases inside : state < table.stateCount
  · by_cases onTerminal :
        lookahead.getD Terminal.endOfInput < table.terminalCount
    · rw [if_neg (by omega), if_pos onTerminal, valid.checkedCell? inside
        (Nat.lt_of_lt_of_le onTerminal valid.terminals)]
      dsimp only [bind, Option.bind]
      cases table.cell state (lookahead.getD Terminal.endOfInput) with
      | reduce rule =>
          dsimp only
          rcases table.rules[rule]? with _ | ⟨_ | _, _, _⟩ <;> rfl
      | _ => rfl
    · rw [if_pos (by omega), if_neg onTerminal]
  · rw [if_pos (by omega), cell_of_stateCount_le (Nat.le_of_not_lt inside)]
    split <;> rfl

theorem Valid.checkedGoto? (valid : table.Valid) (state column : Nat) :
    table.checkedGoto? state column = some (table.goto? state column) := by
  unfold Table.checkedGoto? goto?
  by_cases inside : state < table.stateCount
  · by_cases within : column < table.columns.size
    · rw [if_neg (by omega), valid.checkedCell? inside within]
      dsimp only [bind, Option.bind]
      cases table.cell state column <;> rfl
    · rw [if_pos (by omega), valid.cell_of_size_le (Nat.le_of_not_lt within)]
  · rw [if_pos (by omega), cell_of_stateCount_le (Nat.le_of_not_lt inside)]

theorem mapM_eq_some_map {α β : Type} {step : α → Option β} {value : α → β}
    {list : List α} (each : ∀ entry ∈ list, step entry = some (value entry)) :
    list.mapM step = some (list.map value) := by
  induction list with
  | nil => rfl
  | cons entry rest ih =>
      rw [List.mapM_cons, each entry List.mem_cons_self,
        ih fun other later => each other (List.mem_cons_of_mem _ later)]
      rfl

theorem lines_eq_linesWith (table : Table) :
    table.lines =
      table.linesWith (table.rows.toList.map Array.toList) := by
  simp only [lines, linesWith, List.map_map, stateCount]
  rfl

theorem Valid.checkedWrite? (valid : table.Valid) :
    table.checkedWrite? = some table.write := by
  have rows : (List.range table.stateCount).mapM table.checkedRow? =
      some (table.rows.toList.map Array.toList) := by
    rw [mapM_eq_some_map fun state listed =>
      valid.checkedRow? (List.mem_range.mp listed)]
    congr 1
    apply List.ext_getElem
    · simp [stateCount]
    · intro state left right
      have inside : state < table.rows.size := by simpa using right
      simp [inside]
  rw [Table.checkedWrite?, rows, write, lines_eq_linesWith]
  rfl

section Search

variable {reached : Array Bool} {waiting : List Nat}

/-- What the targets of a row make of the states met and waiting. -/
structure Visits (targets : List Nat) (reached : Array Bool)
    (waiting : List Nat) (next : Array Bool × List Nat) : Prop where
  size : next.1.size = reached.size
  keeps : ∀ state : Nat, reached[state]? = some true →
    next.1[state]? = some true
  meets : ∀ target ∈ targets, next.1[target]? = some true
  origin : ∀ state : Nat, next.1[state]? = some true →
    reached[state]? = some true ∨ state ∈ targets ∧ state ∈ next.2
  still : waiting ⊆ next.2
  waits : ∀ state ∈ next.2, state ∈ waiting ∨ next.1[state]? = some true
  balance : next.2.length + next.1.toList.count false =
    waiting.length + reached.toList.count false

theorem visits_nil (reached : Array Bool) (waiting : List Nat) :
    Visits [] reached waiting (reached, waiting) := by
  constructor
  · rfl
  · exact fun _ met => met
  · intro target none
    cases none
  · exact fun _ met => Or.inl met
  · exact List.Subset.refl _
  · exact fun _ waits => Or.inl waits
  · rfl

/-- A target is new: it is met, and waits. -/
theorem visits_new {target : Nat} (new : reached[target]? = some false) :
    Visits [target] reached waiting
      (reached.setIfInBounds target true, target :: waiting) := by
  obtain ⟨inside, isNew⟩ := Array.getElem?_eq_some_iff.mp new
  have value (state : Nat) :
      (reached.setIfInBounds target true)[state]? =
        if target = state then some true else reached[state]? := by
    rw [Array.getElem?_setIfInBounds, if_pos inside]
  have own : (reached.setIfInBounds target true)[target]? = some true := by
    rw [value, if_pos rfl]
  constructor
  · exact Array.size_setIfInBounds
  · intro state met
    rw [value]
    split
    · rfl
    · exact met
  · intro state member
    exact List.mem_singleton.mp member ▸ own
  · intro state met
    rw [value] at met
    split at met
    · rename_i same
      subst same
      exact Or.inr ⟨List.mem_singleton_self _, List.mem_cons_self⟩
    · exact Or.inl met
  · exact List.subset_cons_self _ _
  · intro state member
    rcases List.mem_cons.mp member with rfl | old
    · exact Or.inr own
    · exact Or.inl old
  · have bound : target < reached.toList.length := inside
    have blank : reached.toList[target] = false := isNew
    have counted : 0 < reached.toList.count false := by
      rw [List.count_pos_iff]
      exact List.mem_of_getElem blank
    rw [Array.toList_setIfInBounds, List.count_set bound, blank,
      List.length_cons]
    simp only [beq_self_eq_true, if_true, Bool.true_beq, Bool.false_eq_true,
      if_false]
    omega

theorem Visits.trans {targets later : List Nat}
    {middle next : Array Bool × List Nat}
    (first : Visits targets reached waiting middle)
    (second : Visits later middle.1 middle.2 next) :
    Visits (targets ++ later) reached waiting next := by
  constructor
  · exact second.size.trans first.size
  · exact fun state met => second.keeps state (first.keeps state met)
  · intro target member
    rcases List.mem_append.mp member with early | late
    · exact second.keeps target (first.meets target early)
    · exact second.meets target late
  · intro state met
    rcases second.origin state met with before | ⟨late, waits⟩
    · rcases first.origin state before with old | ⟨early, waits⟩
      · exact Or.inl old
      · exact Or.inr ⟨List.mem_append_left _ early, second.still waits⟩
    · exact Or.inr ⟨List.mem_append_right _ late, waits⟩
  · exact fun _ member => second.still (first.still member)
  · intro state member
    rcases second.waits state member with before | met
    · rcases first.waits state before with old | met
      · exact Or.inl old
      · exact Or.inr (second.keeps state met)
    · exact Or.inr met
  · exact second.balance.trans first.balance

theorem exists_visits {row : List Action}
    (inside : ∀ target ∈ row.filterMap Action.target?,
      target < reached.size) :
    ∃ next, row.foldlM visit? (reached, waiting) = some next ∧
      Visits (row.filterMap Action.target?) reached waiting next := by
  induction row generalizing reached waiting with
  | nil => exact ⟨_, rfl, visits_nil reached waiting⟩
  | cons action rest ih =>
      have step : ∃ middle, visit? (reached, waiting) action = some middle ∧
          Visits action.target?.toList reached waiting middle := by
        cases isTarget : action.target? with
        | none =>
            exact ⟨_, by rw [visit?, isTarget], visits_nil reached waiting⟩
        | some target =>
            have bound := inside target
              (List.mem_filterMap.mpr ⟨action, List.mem_cons_self, isTarget⟩)
            have found := Array.getElem?_eq_getElem bound
            rw [visit?, isTarget]
            dsimp only
            rw [found]
            cases met : reached[target] with
            | false =>
                rw [met] at found
                exact ⟨_, rfl, visits_new found⟩
            | true =>
                rw [met] at found
                refine ⟨_, rfl, ?_⟩
                have stays := visits_nil reached waiting
                exact { stays with
                  meets := fun state member =>
                    List.mem_singleton.mp member ▸ found
                  origin := fun _ old => Or.inl old }
      obtain ⟨middle, entered, first⟩ := step
      obtain ⟨next, others, second⟩ := @ih middle.1 middle.2 (by
        intro target member
        rw [first.size]
        apply inside target
        rw [List.filterMap_cons]
        split
        · exact member
        · exact List.mem_cons_of_mem _ member)
      refine ⟨next, ?_, ?_⟩
      · rw [List.foldlM_cons, entered]
        exact others
      · have targets : (action :: rest).filterMap Action.target? =
            action.target?.toList ++ rest.filterMap Action.target? := by
          rw [List.filterMap_cons]
          cases action.target? <;> rfl
        rw [targets]
        exact first.trans second

/-- What holds in the course of a search: the states met so far can be reached,
and those that do not wait have led on to all their targets. -/
structure Searched (table : Table) (reached : Array Bool)
    (waiting : List Nat) : Prop where
  size : reached.size = table.stateCount
  first : reached[0]? = some true
  waits : ∀ state ∈ waiting, reached[state]? = some true
  reaches : ∀ state : Nat, reached[state]? = some true →
    ReachedFrom table.rowTargets [0] state
  served : ∀ state : Nat, reached[state]? = some true → state ∉ waiting →
    ∀ target ∈ table.rowTargets state, reached[target]? = some true

theorem Searched.next {number : Nat} {rest : List Nat}
    {next : Array Bool × List Nat}
    (searched : table.Searched reached (number :: rest))
    (visits : Visits (table.rowTargets number) reached rest next) :
    table.Searched next.1 next.2 := by
  have own := searched.waits number List.mem_cons_self
  constructor
  · exact visits.size.trans searched.size
  · exact visits.keeps 0 searched.first
  · intro state member
    rcases visits.waits state member with old | met
    · exact visits.keeps state
        (searched.waits state (List.mem_cons_of_mem _ old))
    · exact met
  · intro state met
    rcases visits.origin state met with old | ⟨isTarget, -⟩
    · exact searched.reaches state old
    · exact (searched.reaches number own).step isTarget
  · intro state met served target isTarget
    rcases visits.origin state met with old | ⟨-, waits⟩
    · by_cases same : state = number
      · subst same
        exact visits.meets target isTarget
      · apply visits.keeps
        refine searched.served state old ?_ target isTarget
        intro member
        rcases List.mem_cons.mp member with here | later
        · exact same here
        · exact served (visits.still later)
    · exact absurd waits served

theorem Searched.reached_iff (searched : table.Searched reached [])
    (state : Nat) :
    reached[state]? = some true ↔ ReachedFrom table.rowTargets [0] state := by
  refine ⟨searched.reaches state, ?_⟩
  rintro ⟨root, isRoot, path⟩
  induction path with
  | refl => exact List.mem_singleton.mp isRoot ▸ searched.first
  | tail _ edge met =>
      exact searched.served _ met List.not_mem_nil _ edge

/-- A search never reaches beyond a list, and ends. -/
theorem Valid.exists_search (valid : table.Valid) {limit : Nat}
    (searched : table.Searched reached waiting)
    (enough : waiting.length + reached.toList.count false < limit) :
    ∃ final, table.checkedSearch? limit (reached, waiting) = some final ∧
      table.Searched final [] := by
  induction limit generalizing reached waiting with
  | zero => exact absurd enough (Nat.not_lt_zero _)
  | succ limit ih =>
      cases waiting with
      | nil => exact ⟨reached, rfl, searched⟩
      | cons number rest =>
          have met := searched.waits number List.mem_cons_self
          have inside : number < table.stateCount :=
            searched.size ▸ (Array.getElem?_eq_some_iff.mp met).1
          obtain ⟨next, visited, visits⟩ := @exists_visits reached rest
            (table.rows.getD number #[]).toList (by
              intro target member
              rw [searched.size]
              exact valid.target_lt member)
          have balance := visits.balance
          rw [List.length_cons] at enough
          obtain ⟨final, result, last⟩ :=
            @ih next.1 next.2 (searched.next visits) (by omega)
          refine ⟨final, ?_, last⟩
          rw [checkedSearch?, valid.checkedRow? inside]
          show ((table.rows.getD number #[]).toList.foldlM visit?
            (reached, rest)).bind (table.checkedSearch? limit) = _
          rw [visited]
          exact result

end Search

/-- The search meets exactly the rows that are kept. -/
theorem Valid.exists_checkedReached (valid : table.Valid) :
    ∃ reached, table.checkedReached? = some reached ∧
      ∀ state < table.stateCount,
        reached.getD state false = table.reachableRows.contains state := by
  unfold checkedReached?
  by_cases empty : table.stateCount = 0
  · rw [if_pos empty]
    refine ⟨#[], rfl, ?_⟩
    intro state inside
    rw [empty] at inside
    exact absurd inside (Nat.not_lt_zero state)
  · have some : 0 < table.stateCount := Nat.pos_of_ne_zero empty
    have bound : 0 < (Array.replicate table.stateCount false).size := by
      rwa [Array.size_replicate]
    have value (state : Nat) :
        ((Array.replicate table.stateCount false).setIfInBounds 0 true)[state]?
            = Option.some true ↔ state = 0 := by
      rw [Array.getElem?_setIfInBounds, if_pos bound]
      split
      · rename_i same
        simp [same.symm]
      · rename_i different
        rw [Array.getElem?_replicate]
        split <;> simp [Ne.symm different]
    have begun : table.Searched
        ((Array.replicate table.stateCount false).setIfInBounds 0 true)
        [0] := by
      constructor
      · rw [Array.size_setIfInBounds, Array.size_replicate]
      · exact (value 0).mpr rfl
      · intro state member
        exact (value state).mpr (List.mem_singleton.mp member)
      · intro state met
        exact ⟨0, List.mem_singleton_self 0, (value state).mp met ▸ .refl⟩
      · intro state met served
        exact absurd (List.mem_singleton.mpr ((value state).mp met)) served
    have enough : [0].length + ((Array.replicate table.stateCount
        false).setIfInBounds 0 true).toList.count false <
          table.stateCount + 1 := by
      have length : 0 < (List.replicate table.stateCount false).length := by
        rwa [List.length_replicate]
      rw [Array.toList_setIfInBounds, Array.toList_replicate,
        List.count_set length, List.count_replicate, List.getElem_replicate,
        List.length_singleton]
      simp only [beq_self_eq_true, if_true, Bool.true_beq, Bool.false_eq_true,
        if_false]
      omega
    obtain ⟨reached, result, searched⟩ := valid.exists_search begun enough
    rw [if_neg empty]
    refine ⟨reached, result, ?_⟩
    intro state inside
    rw [Bool.eq_iff_iff, Array.contains_iff_mem, valid.mem_reachableRows some,
      ← searched.reached_iff, Array.getD_eq_getD_getElem?]
    cases reached[state]? with
    | none => simp
    | some met => simp

theorem ofKept_congr {size : Nat} {kept other : Nat → Bool}
    (same : ∀ state < size, kept state = other state) :
    Renumbering.ofKept size kept = .ofKept size other := by
  have filtered : (List.range size).filter kept =
      (List.range size).filter other :=
    List.filter_congr fun state member => same state (List.mem_range.mp member)
  unfold Renumbering.ofKept
  rw [filtered]

theorem compact_eq_compactWith (table : Table) :
    table.compact = table.compactWith table.renumbering
      (table.renumbering.oldNumbers.toList.map fun old =>
        (table.rows.getD old #[]).toList) := by
  have rows : (table.renumbering.oldNumbers.map fun old =>
      (table.rows.getD old #[]).map
        (Action.renameTarget table.renumbering.new?)) =
      ((table.renumbering.oldNumbers.toList.map fun old =>
        (table.rows.getD old #[]).toList).map fun row =>
          (row.map (Action.renameTarget
            table.renumbering.new?)).toArray).toArray := by
    apply Array.toList_inj.mp
    rw [Array.toList_map, List.map_map]
    apply List.map_congr_left
    intro old _
    apply Array.toList_inj.mp
    rw [Array.toList_map]
    rfl
  unfold compact compactWith
  dsimp only
  rw [rows]

theorem Valid.checkedCompact? (valid : table.Valid) :
    table.checkedCompact? = some table.compact := by
  obtain ⟨reached, searched, agrees⟩ := valid.exists_checkedReached
  have same : Renumbering.ofKept table.stateCount
      (fun number => reached.getD number false) = table.renumbering :=
    ofKept_congr agrees
  have rows : table.renumbering.oldNumbers.toList.mapM table.checkedRow? =
      some (table.renumbering.oldNumbers.toList.map fun old =>
        (table.rows.getD old #[]).toList) := by
    apply mapM_eq_some_map
    intro old member
    exact valid.checkedRow?
      (Renumbering.mem_oldNumbers (Array.mem_toList_iff.mp member))
  rw [compact_eq_compactWith]
  simp only [Table.checkedCompact?, searched, Option.bind_eq_bind,
    Option.bind_some, same, rows, Option.pure_def]

end Table

namespace Parser

variable {table : Table} (valid : table.Valid)

include valid

theorem checkedReduce?_eq (parser : Parser) (rule column length : Nat) :
    parser.checkedReduce? table rule column length =
      some (parser.reduce table rule column length) := by
  unfold checkedReduce? reduce
  dsimp only
  split
  · rename_i deep
    rw [List.drop_eq_nil_of_le deep]
  · cases parser.stack.drop length with
    | nil => rfl
    | cons top rest =>
        dsimp only
        rw [valid.checkedGoto?]
        cases table.goto? top column <;> rfl

theorem checkedStep?_eq (parser : Parser) (lookahead : Option Nat) :
    parser.checkedStep? table lookahead =
      some (parser.step table lookahead) := by
  unfold checkedStep? step
  split
  · rfl
  · cases parser.stack with
    | nil => rfl
    | cons current rest =>
        dsimp only
        rw [valid.checkedAction?]
        dsimp only [bind, Option.bind]
        cases table.action current lookahead with
        | reduce rule column length =>
            exact checkedReduce?_eq valid parser rule column length
        | _ => rfl

omit valid in
/-- The lowest state stays on the stack. -/
theorem getLast?_step {parser : Parser} {lowest : Nat}
    (stays : parser.stack.getLast? = some lowest)
    (lookahead : Option Nat) :
    (parser.step table lookahead).2.stack.getLast? = some lowest := by
  have pushed (next : Nat) {stack : List Nat}
      (stays : stack.getLast? = some lowest) :
      (next :: stack).getLast? = some lowest := by
    rw [List.getLast?_cons, stays]
    rfl
  unfold step
  split
  · exact stays
  · split
    · exact stays
    · split
      · exact pushed _ stays
      · rename_i rule column length _
        have remains (deep : length < parser.stack.length) :
            (parser.stack.drop length).getLast? = some lowest := by
          rw [List.getLast?_drop, if_neg (Nat.not_le.mpr deep), stays]
        unfold reduce
        dsimp only
        split
        · exact stays
        · rename_i top rest shape
          have deep : length < parser.stack.length := by
            apply Nat.lt_of_not_le
            intro shallow
            rw [List.drop_eq_nil_of_le shallow] at shape
            cases shape
          rw [shape] at remains
          split
          · exact pushed _ (remains deep)
          · exact remains deep
      · exact stays
      · exact stays

theorem exists_checkedSteps {parser : Parser} {lowest : Nat}
    (stays : parser.stack.getLast? = some lowest)
    (lookaheads : List (Option Nat)) :
    ∃ last, parser.checkedSteps? table lookaheads = some last ∧
      last.stack.getLast? = some lowest := by
  induction lookaheads generalizing parser with
  | nil => exact ⟨parser, rfl, stays⟩
  | cons lookahead rest ih =>
      obtain ⟨last, result, still⟩ := ih (getLast?_step stays lookahead)
      refine ⟨last, ?_, still⟩
      rw [checkedSteps?, checkedStep?_eq valid]
      exact result

end Parser

namespace Table

/-- No use of the table reaches beyond a list, and no sequence of steps takes
the last state off a stack. -/
structure Safe (table : Table) : Prop where
  row : ∀ state < table.stateCount,
    table.checkedRow? state = some (table.rows.getD state #[]).toList
  cell : ∀ state < table.stateCount, ∀ column < table.columns.size,
    table.checkedCell? state column = some (table.cell state column)
  action : ∀ state lookahead, table.checkedAction? state lookahead =
    some (table.action state lookahead)
  goto : ∀ state column,
    table.checkedGoto? state column = some (table.goto? state column)
  write : table.checkedWrite? = some table.write
  compact : table.checkedCompact? = some table.compact
  step : ∀ parser lookahead, Parser.checkedStep? table parser lookahead =
    some (parser.step table lookahead)
  steps : ∀ lookaheads, ∃ parser,
    Parser.checkedSteps? table lookaheads Parser.begin = some parser ∧
      parser.stack ≠ []

theorem Valid.safe {table : Table} (valid : table.Valid) : table.Safe := by
  constructor
  · exact fun _ inside => valid.checkedRow? inside
  · exact fun _ inside _ within => valid.checkedCell? inside within
  · exact valid.checkedAction?
  · exact valid.checkedGoto?
  · exact valid.checkedWrite?
  · exact valid.checkedCompact?
  · exact Parser.checkedStep?_eq valid
  · intro lookaheads
    obtain ⟨parser, result, stays⟩ := @Parser.exists_checkedSteps table
      valid Parser.begin 0 rfl lookaheads
    refine ⟨parser, result, ?_⟩
    intro empty
    rw [empty] at stays
    cases stays

/-- The cells fill the rows of all states, as many as a machine can count,
positive codes are states and negative ones rules, and the states of the other
sections exist. -/
structure InRange (table : Table) : Prop where
  cells : table.cells.length = table.stateCount * table.columns.size
  countable : table.cells.length < Reading.sizeBound
  widths : ∀ row ∈ table.rows, row.size = table.columns.size
  states : ∀ action ∈ table.cells, 0 < action.code →
    action.code.toNat < table.stateCount
  rules : ∀ action ∈ table.cells, action.code < 0 →
    action.code ≠ Action.acceptCode → (-action.code).toNat < table.rules.size
  finals : ∀ final ∈ table.finals, final.1 < table.stateCount
  conflicts : ∀ conflict ∈ table.log.conflicts,
    conflict.state < table.stateCount
  inadequate : ∀ state ∈ table.log.inadequate, state < table.stateCount

theorem Valid.inRange {table : Table} (valid : table.Valid)
    (fits : table.Fits) : table.InRange := by
  have below {action : Action} (member : action ∈ table.cells) :
      action.Below table.stateCount table.rules.size := by
    obtain ⟨row, listed, inRow⟩ := List.mem_flatten.mp member
    obtain ⟨own, present, rfl⟩ := List.mem_map.mp listed
    exact (valid.rows own (Array.mem_toList_iff.mp present)).below action
      (Array.mem_toList_iff.mp inRow)
  constructor
  · exact valid.length_cells
  · rw [valid.length_cells]
    exact fits.cellCount
  · exact fun row member => (valid.rows row member).size
  · intro action member positive
    have own := below member
    cases action with
    | shift state => exact own
    | goto state => exact own
    | reduce rule =>
        simp only [Action.code] at positive
        omega
    | accept => cases positive
    | error => cases positive
  · intro action member negative notAccept
    have own := below member
    cases action with
    | shift state =>
        simp only [Action.code] at negative
        omega
    | goto state =>
        simp only [Action.code] at negative
        omega
    | reduce rule =>
        have code : (-(-(rule : Int))).toNat = rule := by omega
        rw [Action.code, code]
        exact own
    | accept => exact absurd rfl notAccept
    | error => cases negative
  · exact fun final member => (valid.finals final member).1
  · exact fun conflict member => (valid.conflicts conflict member).state
  · exact valid.inadequate

/-- Whatever the text, a reader stops at one of its lines or right after the
last one, or yields a table in which every number names something that exists.
Such a table can be used without reaching beyond a list, and so can what is
left of it after a compaction. -/
theorem read_safe (text : String) :
    (∃ error, read text = .error error ∧ 1 ≤ error.line ∧
      error.line ≤ (Line.lines text.toList).length + 1) ∨
    ∃ table, read text = .ok table ∧ table.InRange ∧ table.Safe ∧
      table.compact.Safe := by
  cases result : read text with
  | error error => exact Or.inl ⟨error, rfl, line_of_read result⟩
  | ok table =>
      obtain ⟨valid, fits, -⟩ := sound_read result
      exact Or.inr ⟨table, rfl, valid.inRange fits, valid.safe,
        valid.compact.safe⟩

end Table

end LRTables
