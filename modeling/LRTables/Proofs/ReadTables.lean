import LRTables.Proofs.TableTexts

/-!
# What a reader yields

Whatever the text, reading either stops at one of its lines, or right after the
last one, or yields a table that is valid and fits.
-/

namespace LRTables

/-- Reading has moved on by at least `gap` lines. -/
structure TextCursor.Leads (cursor next : TextCursor) (gap : Nat) : Prop where
  rest : next.rest <:+ cursor.rest
  line : cursor.line + gap ≤ next.line
  total : next.line + next.rest.length = cursor.line + cursor.rest.length

/-- The lines to come hold no line feeds. -/
def TextCursor.Whole (cursor : TextCursor) : Prop :=
  ∀ line ∈ cursor.rest, '\n' ∉ line

theorem TextCursor.Whole.leads {cursor next : TextCursor} {gap : Nat}
    (whole : cursor.Whole) (leads : cursor.Leads next gap) : next.Whole :=
  fun line member => whole line (leads.rest.subset member)

namespace Reading

/-- The step yields only results with the property.  It moves on by at least
`gap` lines, and a fault lies no further back and at most one line after the
end. -/
structure Sound {α : Type} (step : Reading α) (gap : Nat)
    (property : α → Prop) : Prop where
  value : ∀ cursor : TextCursor, cursor.Whole → ∀ result next,
    step cursor = .ok (result, next) →
      property result ∧ cursor.Leads next gap
  fault : ∀ cursor : TextCursor, cursor.Whole → ∀ error,
    step cursor = .error error →
      cursor.line + gap ≤ error.line ∧
        error.line ≤ cursor.line + cursor.rest.length + 1

section Sound

variable {α β : Type} {step : Reading α} {gap : Nat} {property : α → Prop}

theorem sound_pure {value : α} (holds : property value) :
    Sound (pure value) 0 property := by
  constructor
  · intro cursor _ result next equal
    cases equal
    exact ⟨holds, List.suffix_refl _, Nat.le_refl _, rfl⟩
  · intro cursor _ error equal
    cases equal

theorem sound_fail (fault : FormatFault) :
    Sound (fail fault) 0 property := by
  constructor
  · intro cursor _ result next equal
    cases equal
  · intro cursor _ error equal
    cases equal
    constructor <;> dsimp only <;> omega

theorem sound_nextLine : Sound nextLine 1 ('\n' ∉ ·) := by
  constructor
  · intro cursor whole result next equal
    unfold nextLine at equal
    split at equal
    · cases equal
    · rename_i line rest found
      cases equal
      constructor
      · exact whole _ (found ▸ List.mem_cons_self)
      · constructor
        · rw [found]
          exact List.suffix_cons _ _
        · exact Nat.le_refl _
        · rw [found, List.length_cons]
          dsimp only
          omega
  · intro cursor _ error equal
    unfold nextLine at equal
    split at equal
    · cases equal
      constructor <;> dsimp only <;> omega
    · cases equal

theorem bind_of_error {next : α → Reading β} {cursor : TextCursor}
    {fault : FormatError} (first : step cursor = .error fault) :
    (step >>= next) cursor = .error fault := by
  show (step cursor >>= fun found => next found.1 found.2) = _
  rw [first]
  rfl

theorem bind_of_ok {next : α → Reading β} {cursor middle : TextCursor}
    {value : α} (first : step cursor = .ok (value, middle)) :
    (step >>= next) cursor = next value middle := by
  show (step cursor >>= fun found => next found.1 found.2) = _
  rw [first]
  rfl

theorem Sound.bind {next : α → Reading β} {result : β → Prop}
    (sound : Sound step gap property)
    (others : ∀ value, property value → Sound (next value) 0 result) :
    Sound (step >>= next) gap result := by
  constructor
  · intro cursor whole final last equal
    cases first : step cursor with
    | error error =>
        rw [bind_of_error first] at equal
        cases equal
    | ok pair =>
        obtain ⟨value, middle⟩ := pair
        rw [bind_of_ok first] at equal
        obtain ⟨holds, before⟩ := sound.value cursor whole value middle first
        obtain ⟨resultHolds, after⟩ :=
          (others value holds).value middle (whole.leads before) _ _ equal
        refine ⟨resultHolds, after.rest.trans before.rest, ?_, ?_⟩
        · exact Nat.le_trans before.line after.line
        · rw [after.total, before.total]
  · intro cursor whole error equal
    cases first : step cursor with
    | error early =>
        rw [bind_of_error first] at equal
        cases equal
        exact sound.fault cursor whole _ first
    | ok pair =>
        obtain ⟨value, middle⟩ := pair
        rw [bind_of_ok first] at equal
        obtain ⟨holds, before⟩ := sound.value cursor whole value middle first
        obtain ⟨least, most⟩ :=
          (others value holds).fault middle (whole.leads before) error equal
        have line := before.line
        have total := before.total
        constructor <;> omega

theorem Sound.mono {weaker : α → Prop} (sound : Sound step gap property)
    (implies : ∀ value, property value → weaker value) :
    Sound step 0 weaker := by
  constructor
  · intro cursor whole result next equal
    obtain ⟨holds, leads⟩ := sound.value cursor whole result next equal
    exact ⟨implies result holds, leads.rest,
      Nat.le_trans (Nat.le_add_right _ _) leads.line, leads.total⟩
  · intro cursor whole error equal
    obtain ⟨least, most⟩ := sound.fault cursor whole error equal
    exact ⟨Nat.le_trans (Nat.le_add_right _ _) least, most⟩

theorem sound_fail_bind (fault : FormatFault) {next : α → Reading β}
    {result : β → Prop} : Sound (fail fault >>= next) 0 result := by
  have failed : Sound (fail fault : Reading α) 0 fun _ => False :=
    sound_fail fault
  exact failed.bind fun _ never => never.elim

theorem sound_require (fault : FormatFault) (option : Option α) :
    Sound (require fault option) 0 (option = some ·) := by
  cases option with
  | none => exact sound_fail fault
  | some value => exact sound_pure rfl

theorem sound_discard {weaker : Prop} (sound : Sound step gap property)
    (implies : ∀ value, property value → weaker) :
    Sound (discard step) 0 fun _ => weaker := by
  have bound : discard step = step >>= fun _ => pure () := by
    funext cursor
    show (fun found => ((), found.2)) <$> step cursor =
      (step cursor >>= fun found => pure ((), found.2))
    cases step cursor <;> rfl
  rw [bound]
  exact (sound.mono implies).bind fun _ holds => sound_pure holds

theorem sound_mapM {items : List α} {next : α → Reading β}
    {result : β → Prop} (each : ∀ item, Sound (next item) 0 result) :
    Sound (items.mapM next) 0 fun values =>
      values.length = items.length ∧ ∀ value ∈ values, result value := by
  induction items with
  | nil => exact sound_pure ⟨rfl, fun _ member => nomatch member⟩
  | cons item rest ih =>
      rw [List.mapM_cons]
      refine (each item).bind fun value holds => ?_
      refine ih.bind fun values others => ?_
      apply sound_pure
      refine ⟨by rw [List.length_cons, List.length_cons, others.1], ?_⟩
      intro other member
      rcases List.mem_cons.mp member with rfl | later
      · exact holds
      · exact others.2 other later

theorem sound_forM {items : List α} {check : α → Reading Unit}
    {result : α → Prop}
    (each : ∀ item, Sound (check item) 0 fun _ => result item) :
    Sound (items.forM check) 0 fun _ => ∀ item ∈ items, result item := by
  induction items with
  | nil => exact sound_pure fun _ member => nomatch member
  | cons item rest ih =>
      refine (each item).bind fun _ holds => ?_
      refine ih.mono fun _ others => ?_
      intro other member
      rcases List.mem_cons.mp member with rfl | later
      · exact holds
      · exact others other later

theorem sound_times (sound : Sound step gap property) (count : Nat) :
    Sound (times step count) 0 fun values =>
      values.length = count ∧ ∀ value ∈ values, property value := by
  induction count with
  | zero => exact sound_pure ⟨rfl, fun _ member => nomatch member⟩
  | succ count ih =>
      refine (sound.mono fun _ holds => holds).bind fun value holds => ?_
      refine ih.bind fun values others => ?_
      apply sound_pure
      refine ⟨by rw [List.length_cons, others.1], ?_⟩
      intro other member
      rcases List.mem_cons.mp member with rfl | later
      · exact holds
      · exact others.2 other later

end Sound

theorem sound_size (field : List Char) :
    Sound (size field) 0 (· < sizeBound) :=
  (sound_require _ _).mono fun _ => Numeral.natural?_lt

theorem sound_sizes (text : List Char) :
    Sound (sizes text) 0 fun numbers =>
      ∀ number ∈ numbers, number < sizeBound :=
  (sound_mapM sound_size).mono fun _ both => both.2

theorem sound_header (tag : String) :
    Sound (header tag) 1 fun counts =>
      ∀ count ∈ counts, count < sizeBound :=
  sound_nextLine.bind fun _ _ =>
    (sound_require _ _).bind fun _ _ => sound_sizes _

theorem sound_state (stateCount number : Nat) :
    Sound (state stateCount number) 0 fun result =>
      result = number ∧ number < stateCount ∧ number < stateBound := by
  unfold state
  split
  · rename_i inside
    exact sound_pure ⟨rfl, inside⟩
  · exact sound_fail _

theorem sound_rule (ruleCount number : Nat) :
    Sound (rule ruleCount number) 0 fun result =>
      result = number ∧ number < ruleCount ∧ number < Action.ruleBound := by
  unfold rule
  split
  · rename_i inside
    exact sound_pure ⟨rfl, inside⟩
  · exact sound_fail _

theorem sound_shape : Sound shape 1 RuleShape.Fits := by
  refine sound_nextLine.bind fun line _ => ?_
  split
  · rename_i left length hasCode _
    have ending (column : Option Nat)
        (small : ∀ number, column = some number → number < sizeBound) :
        Sound
          (do
            let length ← size length
            let hasCode ← require .invalidNumber
              (Numeral.natural? 256 hasCode)
            return ({ column, length, hasCode := hasCode != 0 } : RuleShape))
          0 RuleShape.Fits := by
      refine (sound_size length).bind fun _ lengthSmall => ?_
      refine (sound_require _ _).bind fun _ _ => ?_
      exact sound_pure ⟨small, lengthSmall⟩
    split
    · rw [pure_bind]
      apply ending
      intro number some
      cases some
    · rw [map_eq_pure_bind, bind_assoc]
      refine (sound_size left).bind fun found small => ?_
      rw [pure_bind]
      apply ending
      intro number equal
      cases equal
      exact small
  · exact sound_fail _

/-- The code of a cell that passes its check names a state or a rule. -/
theorem sound_checkCode (stateCount ruleCount : Nat) (code : Int) :
    Sound (checkCode stateCount ruleCount code) 0 fun _ =>
      ∀ onTerminal, (Action.ofCode onTerminal code).Below stateCount
        ruleCount := by
  unfold checkCode
  split
  · rename_i plain
    apply sound_pure
    intro onTerminal
    rcases plain with rfl | rfl
    · trivial
    · trivial
  · split
    · rename_i positive
      refine sound_discard (sound_state _ _) fun _ found onTerminal => ?_
      exact Action.below_ofCode_of_pos positive found.2.1
    · rename_i plain negative
      refine sound_discard (sound_rule _ _) fun _ found onTerminal => ?_
      exact Action.below_ofCode_of_neg (by omega) found.2.1

/-- A row has as many actions as there are columns, each of the kind of its
column. -/
theorem sound_row (columnCount terminalCount stateCount ruleCount : Nat) :
    Sound (row columnCount terminalCount stateCount ruleCount) 1 fun found =>
      found.size = columnCount ∧
        (∀ column, (inside : column < found.size) →
          found[column].OfKind (decide (column < terminalCount))) ∧
        ∀ action ∈ found, action.Below stateCount ruleCount ∧
          action.Below codeBound Action.ruleBound := by
  refine sound_nextLine.bind fun line _ => ?_
  refine (sound_mapM fun field => (sound_require _ _).mono fun _ read =>
    (Numeral.integer?_bounds (by decide) read).2).bind fun codes read => ?_
  obtain ⟨-, small⟩ := read
  by_cases width : codes.length = columnCount
  · rw [if_neg (not_not_intro width)]
    refine (sound_forM (sound_checkCode stateCount ruleCount)).bind
      fun _ checked => ?_
    apply sound_pure
    refine ⟨by simp [width], ?_, ?_⟩
    · intro column inside
      simp only [List.getElem_toArray, List.getElem_mapIdx]
      exact Action.ofKind_ofCode _ _
    · intro action member
      rw [List.mem_toArray, List.mem_mapIdx] at member
      obtain ⟨column, inside, rfl⟩ := member
      have present := List.getElem_mem inside
      exact ⟨checked _ present _, Action.below_ofCode (small _ present)⟩
  · rw [if_pos width]
    exact sound_fail_bind _

theorem sound_final (stateCount ruleCount : Nat) :
    Sound (final stateCount ruleCount) 1 fun found =>
      (found.1 < stateCount ∧ found.2 < ruleCount) ∧
        found.2 < Action.ruleBound := by
  refine sound_nextLine.bind fun line _ => ?_
  refine (sound_sizes line).bind fun numbers _ => ?_
  split
  · refine (sound_state _ _).bind fun _ state => ?_
    refine (sound_rule _ _).bind fun _ rule => ?_
    apply sound_pure
    obtain ⟨rfl, stateInside, -⟩ := state
    obtain ⟨rfl, ruleInside, small⟩ := rule
    exact ⟨⟨stateInside, ruleInside⟩, small⟩
  · exact sound_fail _

theorem sound_conflictAction (code : Int) :
    Sound (conflictAction code) 0 fun action =>
      action.OfKind true ∧ action.Below codeBound Action.ruleBound := by
  unfold conflictAction
  split
  · rename_i within
    apply sound_pure
    exact ⟨Action.ofKind_ofCode _ _, Action.below_ofCode within.2⟩
  · exact sound_fail _

theorem sound_unless {α : Type} {condition : Prop} [Decidable condition]
    {fault : FormatFault} {next : Unit → Reading α} {property : α → Prop}
    (others : ¬ condition → Sound (next ()) 0 property) :
    Sound (if condition then fail fault >>= next else next ()) 0 property := by
  split
  · exact sound_fail_bind _
  · rename_i absent
    exact others absent

theorem sound_conflict (terminalCount stateCount ruleCount : Nat) :
    Sound (conflict terminalCount stateCount ruleCount) 1 fun found =>
      found.Valid terminalCount stateCount ruleCount ∧ found.Fits := by
  refine sound_nextLine.bind fun line _ => ?_
  have each (field : List Char) :
      Sound (require .invalidNumber (Numeral.integer? fieldBound field)) 0
        fun _ => True :=
    (sound_require _ _).mono fun _ _ => trivial
  refine (sound_mapM each).bind fun numbers _ => ?_
  split
  · refine sound_unless fun lookahead => ?_
    refine (sound_conflictAction _).bind fun other otherHolds => ?_
    refine (sound_conflictAction _).bind fun decision decisionHolds => ?_
    refine sound_unless fun _ => ?_
    refine (sound_state _ _).bind fun _ state => ?_
    refine sound_unless fun _ => ?_
    refine (sound_rule _ _).bind fun _ rule => ?_
    apply sound_pure
    obtain ⟨rfl, stateInside, -⟩ := state
    obtain ⟨rfl, ruleInside, ruleSmall⟩ := rule
    constructor
    · constructor
      · exact stateInside
      · dsimp only
        omega
      · exact ruleInside
      · exact otherHolds.1
      · exact decisionHolds.1
    · constructor
      · dsimp only
        omega
      · exact ruleSmall
      · exact otherHolds.2
      · exact decisionHolds.2
  · exact sound_fail _

theorem sound_inadequate (stateCount : Nat) :
    Sound (inadequate stateCount) 1 (· < stateCount) := by
  refine sound_nextLine.bind fun line _ => ?_
  refine (sound_sizes line).bind fun numbers _ => ?_
  split
  · refine (sound_state _ _).mono fun _ state => ?_
    obtain ⟨rfl, inside, -⟩ := state
    exact inside
  · exact sound_fail _

end Reading

namespace Reading

/-- What stands in the sections of a text. -/
structure Sections where
  heads : List (List Char)
  terminalCount : Nat
  rules : List RuleShape
  rows : List (Array Action)
  finals : List (Nat × Nat)
  conflicts : List Conflict
  shiftReduce : Nat
  reduceReduce : Nat
  shiftShift : Nat
  inadequates : List Nat

namespace Sections

def table (sections : Sections) : Table where
  columns := (sections.heads.map String.ofList).toArray
  terminalCount := sections.terminalCount
  rules := sections.rules.toArray
  rows := sections.rows.toArray
  finals := sections.finals.toArray
  log :=
    { conflicts := sections.conflicts.toArray
      shiftReduce := sections.shiftReduce
      reduceReduce := sections.reduceReduce
      shiftShift := sections.shiftShift
      inadequate := sections.inadequates.foldl Ordered.insert [] }

/-- What the readers of the sections have seen to. -/
structure Checked (sections : Sections) : Prop where
  terminals : ¬ sections.terminalCount > sections.heads.length
  heads : ∀ head ∈ sections.heads, '\n' ∉ head
  shapes : ∀ shape ∈ sections.rules, shape.Fits
  states : ¬ (sections.rows.length ≥ stateBound ∨
    sections.rows.length * sections.heads.length ≥ sizeBound)
  rows : ∀ row ∈ sections.rows, row.size = sections.heads.length ∧
    (∀ column, (inside : column < row.size) →
      row[column].OfKind (decide (column < sections.terminalCount))) ∧
    ∀ action ∈ row,
      action.Below sections.rows.length sections.rules.length ∧
        action.Below codeBound Action.ruleBound
  finals : ∀ final ∈ sections.finals,
    (final.1 < sections.rows.length ∧ final.2 < sections.rules.length) ∧
      final.2 < Action.ruleBound
  conflicts : ∀ conflict ∈ sections.conflicts,
    conflict.Valid sections.terminalCount sections.rows.length
      sections.rules.length ∧ conflict.Fits
  inadequates : ∀ state ∈ sections.inadequates, state < sections.rows.length

/-- The counts in front of the sections have been read. -/
structure Counted (sections : Sections) : Prop where
  columns : ∀ count ∈ [sections.heads.length, sections.terminalCount],
    count < sizeBound
  rules : ∀ count ∈ [sections.rules.length], count < sizeBound
  finals : ∀ count ∈ [sections.finals.length], count < sizeBound
  conflicts : ∀ count ∈ [sections.conflicts.length, sections.shiftReduce,
    sections.reduceReduce, sections.shiftShift], count < sizeBound
  inadequates : ∀ count ∈ [sections.inadequates.length], count < sizeBound

variable {sections : Sections}

theorem Checked.valid (checked : sections.Checked) :
    sections.table.Valid := by
  constructor
  · have terminals := checked.terminals
    simp only [table, List.size_toArray, List.length_map]
    omega
  · intro row member
    obtain ⟨size, ofKind, below⟩ :=
      checked.rows row (List.mem_toArray.mp member)
    constructor
    · simpa [table] using size
    · exact ofKind
    · intro action inRow
      exact (below action inRow).1
  · intro final member
    exact (checked.finals final (List.mem_toArray.mp member)).1
  · intro conflict member
    exact (checked.conflicts conflict (List.mem_toArray.mp member)).1
  · intro number member
    rcases Ordered.mem_foldl_insert.mp member with none | listed
    · cases none
    · exact checked.inadequates number listed
  · exact Ordered.nodup_foldl_insert List.nodup_nil

theorem Checked.fits (checked : sections.Checked)
    (counted : sections.Counted) : sections.table.Fits := by
  have length :=
    @Ordered.length_foldl_insert_le _ _ [] sections.inadequates
  have states := checked.states
  constructor
  · simpa [table] using counted.columns _ List.mem_cons_self
  · exact counted.rules _ List.mem_cons_self
  · intro shape member
    exact checked.shapes shape (List.mem_toArray.mp member)
  · simp only [table, Table.stateCount, List.size_toArray]
    omega
  · simp only [table, Table.stateCount, List.size_toArray, List.length_map]
    omega
  · intro row member action inRow
    obtain ⟨-, -, below⟩ := checked.rows row (List.mem_toArray.mp member)
    exact (below action inRow).2
  · exact counted.finals _ List.mem_cons_self
  · intro final member
    exact (checked.finals final (List.mem_toArray.mp member)).2
  · constructor
    · exact counted.conflicts _ List.mem_cons_self
    · exact counted.conflicts _ (by simp [table])
    · exact counted.conflicts _ (by simp [table])
    · exact counted.conflicts _ (by simp [table])
    · refine Nat.lt_of_le_of_lt length ?_
      rw [List.length_nil, Nat.zero_add]
      exact counted.inadequates _ List.mem_cons_self
    · intro conflict member
      exact (checked.conflicts conflict (List.mem_toArray.mp member)).2

theorem Checked.whole (checked : sections.Checked) :
    ∀ head ∈ sections.table.columns, '\n' ∉ head.toList := by
  intro head member
  obtain ⟨line, listed, rfl⟩ := List.mem_map.mp (List.mem_toArray.mp member)
  rw [String.toList_ofList]
  exact checked.heads line listed

end Sections

/-- What is read is a valid table that fits, and its headers are lines. -/
theorem sound_table :
    Sound table 1 fun found =>
      found.Valid ∧ found.Fits ∧
        ∀ head ∈ found.columns, '\n' ∉ head.toList := by
  refine (sound_header _).bind fun counts columnsSmall => ?_
  split
  · rename_i columnCount terminalCount
    refine sound_unless fun terminals => ?_
    refine (sound_times sound_nextLine _).bind fun heads headsHold => ?_
    refine ((sound_header _).mono fun _ holds => holds).bind
      fun counts rulesSmall => ?_
    split
    · rename_i ruleCount
      refine (sound_times sound_shape _).bind fun rules rulesHold => ?_
      refine ((sound_header _).mono fun _ holds => holds).bind
        fun counts _ => ?_
      split
      · rename_i stateCount
        refine sound_unless fun states => ?_
        refine (sound_times (sound_row _ _ _ _) _).bind fun rows rowsHold => ?_
        refine ((sound_header _).mono fun _ holds => holds).bind
          fun counts finalsSmall => ?_
        split
        · rename_i finalCount
          refine (sound_times (sound_final _ _) _).bind
            fun finals finalsHold => ?_
          refine ((sound_header _).mono fun _ holds => holds).bind
            fun counts conflictsSmall => ?_
          split
          · rename_i conflictCount shiftReduce reduceReduce shiftShift
            refine (sound_times (sound_conflict _ _ _) _).bind
              fun conflicts conflictsHold => ?_
            refine ((sound_header _).mono fun _ holds => holds).bind
              fun counts inadequatesSmall => ?_
            split
            · rename_i inadequateCount
              refine (sound_times (sound_inadequate _) _).bind
                fun inadequates inadequatesHold => ?_
              obtain ⟨rfl, headsHold⟩ := headsHold
              obtain ⟨rfl, rulesHold⟩ := rulesHold
              obtain ⟨rfl, rowsHold⟩ := rowsHold
              obtain ⟨rfl, finalsHold⟩ := finalsHold
              obtain ⟨rfl, conflictsHold⟩ := conflictsHold
              obtain ⟨rfl, inadequatesHold⟩ := inadequatesHold
              let sections : Sections :=
                { heads, terminalCount, rules, rows, finals, conflicts,
                  shiftReduce, reduceReduce, shiftShift, inadequates }
              have checked : sections.Checked :=
                ⟨terminals, headsHold, rulesHold, states, rowsHold, finalsHold,
                  conflictsHold, inadequatesHold⟩
              have counted : sections.Counted :=
                ⟨columnsSmall, rulesSmall, finalsSmall, conflictsSmall,
                  inadequatesSmall⟩
              apply sound_pure
              exact ⟨checked.valid, checked.fits counted, checked.whole⟩
            · exact sound_fail _
          · exact sound_fail _
        · exact sound_fail _
      · exact sound_fail _
    · exact sound_fail _
  · exact sound_fail _

end Reading

namespace Table

open Line

theorem read_eq (text : String) :
    read text =
      (Reading.table { rest := Line.lines text.toList, line := 0 }).map
        Prod.fst :=
  rfl

theorem whole_lines (text : String) :
    TextCursor.Whole { rest := Line.lines text.toList, line := 0 } :=
  fun _ member => not_mem_of_mem_lines member

theorem sound_read {text : String} {table : Table}
    (result : read text = .ok table) :
    table.Valid ∧ table.Fits ∧
      ∀ head ∈ table.columns, '\n' ∉ head.toList := by
  rw [read_eq] at result
  cases found :
      Reading.table { rest := Line.lines text.toList, line := 0 } with
  | error error =>
      rw [found] at result
      cases result
  | ok pair =>
      rw [found] at result
      cases result
      exact (Reading.sound_table.value _ (whole_lines text) _ _ found).1

/-- A fault is found at a line of the text or right after the last one. -/
theorem line_of_read {text : String} {error : FormatError}
    (result : read text = .error error) :
    1 ≤ error.line ∧ error.line ≤ (Line.lines text.toList).length + 1 := by
  rw [read_eq] at result
  cases found :
      Reading.table { rest := Line.lines text.toList, line := 0 } with
  | error other =>
      rw [found] at result
      cases result
      have bounds := Reading.sound_table.fault _ (whole_lines text) _ found
      dsimp only at bounds
      omega
  | ok pair =>
      rw [found] at result
      cases result

/-- The header reads back as it is. -/
def CleanHeader (head : String) : Prop :=
  '\n' ∉ head.toList ∧ head.toList.getLast? ≠ some '\r'

/-- A valid table that fits reads back if and only if its headers do. -/
theorem read_write_iff {table : Table} (valid : table.Valid)
    (fits : table.Fits) :
    read table.write = .ok table ↔
      ∀ head ∈ table.columns, CleanHeader head := by
  constructor
  · intro result head member
    have whole := (sound_read result).2.2
    refine ⟨whole head member, ?_⟩
    rw [read_write valid fits whole, Except.ok.injEq] at result
    have same := congrArg Table.columns result
    dsimp only at same
    obtain ⟨column, inside, rfl⟩ := Array.mem_iff_getElem.mp member
    have own := congrArg (fun columns => columns[column]?) same
    simp only [Array.getElem?_map, Array.getElem?_eq_getElem inside,
      Option.map_some, Option.some.injEq] at own
    have unchanged := congrArg String.toList own
    rw [String.toList_ofList] at unchanged
    exact dropReturn_eq_self_iff.mp unchanged
  · intro clean
    have whole (head : String) (member : head ∈ table.columns) :=
      (clean head member).1
    rw [read_write valid fits whole]
    have same : (table.columns.map fun head =>
        String.ofList (dropReturn head.toList)) = table.columns := by
      conv_rhs => rw [← Array.map_id table.columns]
      apply Array.map_congr_left
      intro head member
      rw [dropReturn_of_getLast?_ne (clean head member).2,
        String.ofList_toList]
      rfl
    rw [same]

end Table

end LRTables
