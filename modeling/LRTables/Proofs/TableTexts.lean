import LRTables.Proofs.Numerals
import LRTables.Proofs.TextLines
import LRTables.Proofs.ValidTables
import LRTables.Table.Writer

/-!
# Reading what was written

Every section of the written form is taken in by its reader, which moves on to
the line after it and yields what was written.
-/

namespace LRTables

namespace Line

theorem isField_digits (number : Nat) : IsField (Numeral.digits number) := by
  constructor
  · exact Numeral.digits_ne_nil number
  · exact Numeral.forall_mem_digits Numeral.isBlank_digit number

theorem isField_text (number : Nat) :
    IsField (Numeral.text number).toList := by
  rw [Numeral.toList_text]
  exact isField_digits number

theorem isField_integerText (number : Int) :
    IsField (Numeral.integerText number).toList := by
  cases number with
  | ofNat number => exact isField_text number
  | negSucc number =>
      rw [Numeral.integerText, String.toList_append, Numeral.toList_text]
      obtain ⟨-, solid⟩ := isField_digits (number + 1)
      constructor
      · exact List.append_ne_nil_of_left_ne_nil (List.cons_ne_nil _ _) _
      · intro character member
        rcases List.mem_append.mp member with sign | digit
        · have minus : character = '-' := List.mem_singleton.mp sign
          subst minus
          decide
        · exact solid character digit

theorem isField_flagText (flag : Bool) :
    IsField (Table.flagText flag).toList := by
  cases flag with
  | false => decide
  | true => decide

/-- The texts are fields of a line. -/
def AreFields (texts : List String) : Prop :=
  ∀ text ∈ texts, IsField text.toList

theorem areFields_texts (numbers : List Nat) :
    AreFields (numbers.map Numeral.text) := by
  intro text member
  obtain ⟨number, -, rfl⟩ := List.mem_map.mp member
  exact isField_text number

theorem areFields_integerTexts (numbers : List Int) :
    AreFields (numbers.map Numeral.integerText) := by
  intro text member
  obtain ⟨number, -, rfl⟩ := List.mem_map.mp member
  exact isField_integerText number

theorem areFields_shape (shape : RuleShape) :
    AreFields [shape.column.elim "-" Numeral.text, Numeral.text shape.length,
      Table.flagText shape.hasCode] := by
  intro text member
  simp only [List.mem_cons, List.not_mem_nil, or_false] at member
  rcases member with rfl | rfl | rfl
  · cases shape.column with
    | none =>
        rw [Option.elim_none]
        decide
    | some column => exact isField_text column
  · exact isField_text shape.length
  · exact isField_flagText shape.hasCode

theorem fields_toList_spaced {texts : List String}
    (areFields : AreFields texts) :
    fields (Table.spaced texts).toList = texts.map String.toList := by
  rw [Table.spaced, String.toList_intercalate]
  apply fields_intercalate
  intro field member
  obtain ⟨text, listed, rfl⟩ := List.mem_map.mp member
  exact areFields text listed

theorem not_mem_toList_spaced {texts : List String}
    (areFields : AreFields texts) {blank : Char}
    (isBlank : isBlank blank = true) (noSpace : blank ≠ ' ') :
    blank ∉ (Table.spaced texts).toList := by
  rw [Table.spaced, String.toList_intercalate]
  apply not_mem_intercalate _ isBlank noSpace
  intro field member
  obtain ⟨text, listed, rfl⟩ := List.mem_map.mp member
  exact areFields text listed

end Line

namespace Reading

/-- The step takes in these lines and yields this value. -/
def Takes {α : Type} (step : Reading α) (texts : List (List Char))
    (value : α) : Prop :=
  ∀ rest line, step { rest := texts ++ rest, line } =
    .ok (value, { rest, line := line + texts.length })

section Takes

variable {α β : Type} {step : Reading α} {texts later : List (List Char)}
  {value : α}

theorem takes_pure (value : α) : Takes (pure value) [] value := by
  intro rest line
  rfl

theorem Takes.bind {next : α → Reading β} {result : β}
    (takes : Takes step texts value)
    (others : Takes (next value) later result) :
    Takes (step >>= next) (texts ++ later) result := by
  intro rest line
  have before := takes (later ++ rest) line
  have after := others rest (line + texts.length)
  show (step _ >>= fun found => next found.1 found.2) = _
  rw [List.append_assoc, before]
  show next value _ = _
  rw [after, List.length_append, Nat.add_assoc]

theorem Takes.andThen {next : α → Reading β} {result : β}
    (takes : Takes step [] value) (others : Takes (next value) later result) :
    Takes (step >>= next) later result :=
  takes.bind others

theorem Takes.cons {next : α → Reading β} {result : β} {text : List Char}
    (takes : Takes step [text] value)
    (others : Takes (next value) later result) :
    Takes (step >>= next) (text :: later) result :=
  takes.bind others

theorem takes_nextLine (line : List Char) : Takes nextLine [line] line := by
  intro rest number
  rfl

theorem takes_require {fault : FormatFault} {option : Option α}
    (present : option = some value) :
    Takes (require fault option) [] value := by
  subst present
  exact takes_pure value

theorem takes_discard (takes : Takes step texts value) :
    Takes (discard step) texts () := by
  intro rest line
  have taken := takes rest line
  show (fun found => ((), found.2)) <$> step _ = _
  rw [taken]
  rfl

theorem takes_mapM {items : List α} {next : α → Reading β} {result : α → β}
    (each : ∀ item ∈ items, Takes (next item) [] (result item)) :
    Takes (items.mapM next) [] (items.map result) := by
  induction items with
  | nil => exact takes_pure []
  | cons item rest ih =>
      rw [List.mapM_cons]
      refine (each item List.mem_cons_self).andThen ?_
      refine (ih fun other member =>
        each other (List.mem_cons_of_mem _ member)).andThen ?_
      exact takes_pure _

theorem takes_forM {items : List α} {check : α → Reading Unit}
    (each : ∀ item ∈ items, Takes (check item) [] ()) :
    Takes (items.forM check) [] () := by
  induction items with
  | nil => exact takes_pure ()
  | cons item rest ih =>
      refine (each item List.mem_cons_self).andThen ?_
      exact ih fun other member => each other (List.mem_cons_of_mem _ member)

theorem takes_times {values : List α} {textOf : α → List Char}
    (each : ∀ value ∈ values, Takes step [textOf value] value) :
    Takes (times step values.length) (values.map textOf) values := by
  induction values with
  | nil => exact takes_pure []
  | cons value rest ih =>
      have own := each value List.mem_cons_self
      have others := ih fun other member =>
        each other (List.mem_cons_of_mem _ member)
      refine own.cons ?_
      rw [← List.append_nil (rest.map textOf)]
      exact others.bind (takes_pure _)

theorem takes_lines {values : Array α} {lineOf : α → String}
    (each : ∀ value ∈ values, Takes step [(lineOf value).toList] value) :
    Takes (times step values.size)
      ((values.toList.map lineOf).map String.toList) values.toList := by
  rw [List.map_map, ← Array.length_toList]
  apply takes_times
  intro value member
  exact each value (Array.mem_toList_iff.mp member)

end Takes

theorem takes_size {number : Nat} (small : number < sizeBound) :
    Takes (size (Numeral.digits number)) [] number :=
  takes_require (Numeral.natural?_digits small)

theorem takes_sizes {text : List Char} {numbers : List Nat}
    (fields : Line.fields text = numbers.map Numeral.digits)
    (small : ∀ number ∈ numbers, number < sizeBound) :
    Takes (sizes text) [] numbers := by
  rw [sizes, fields]
  have taken : Takes ((numbers.map Numeral.digits).mapM size) []
      (numbers.map id) := by
    rw [List.mapM_map]
    exact takes_mapM fun number member => takes_size (small number member)
  rwa [List.map_id] at taken

theorem takes_integers {bound : Nat} {numbers : List Int}
    (bounds : ∀ number ∈ numbers,
      -(bound : Int) ≤ number ∧ number < bound) :
    Takes
      (((numbers.map Numeral.integerText).map String.toList).mapM fun field =>
        require .invalidNumber (Numeral.integer? bound field))
      [] numbers := by
  rw [List.map_map, List.mapM_map]
  have each : ∀ number ∈ numbers, Takes
      (require .invalidNumber
        (Numeral.integer? bound (Numeral.integerText number).toList))
      [] (id number) := fun number member => takes_require
    (Numeral.integer?_integerText (bounds number member).1
      (bounds number member).2)
  have taken := takes_mapM each
  rwa [List.map_id] at taken

theorem afterTag?_append (tag text : List Char) :
    afterTag? tag (tag ++ text) = some text := by
  induction tag with
  | nil => cases text <;> rfl
  | cons character tag ih =>
      rw [List.cons_append, afterTag?, if_pos rfl]
      exact ih

/-- A section opens with its tag and its counts. -/
theorem takes_header (tag : String) {count : Nat} {counts : List Nat}
    (small : ∀ number ∈ count :: counts, number < sizeBound) :
    Takes (header tag) [(Table.headerLine tag (count :: counts)).toList]
      (count :: counts) := by
  have opening : (Table.headerLine tag (count :: counts)).toList =
      tag.toList ++ ' ' ::
        (Table.spaced ((count :: counts).map Numeral.text)).toList := by
    rw [Table.headerLine, Table.spaced, Table.spaced, List.map_cons,
      String.intercalate_cons_cons, String.toList_append,
      String.toList_append, List.append_assoc]
    rfl
  have areFields := Line.areFields_texts (count :: counts)
  refine (takes_nextLine _).cons ?_
  have tagged := afterTag?_append tag.toList
    (' ' :: (Table.spaced ((count :: counts).map Numeral.text)).toList)
  rw [← opening] at tagged
  refine (takes_require tagged).andThen ?_
  apply takes_sizes _ small
  rw [Line.fields_space, Line.fields_toList_spaced areFields, List.map_map]
  apply List.map_congr_left
  intro number _
  exact Numeral.toList_text number

theorem takes_state {stateCount number : Nat} (inside : number < stateCount)
    (small : number < stateBound) :
    Takes (state stateCount number) [] number := by
  rw [state, if_pos ⟨inside, small⟩]
  exact takes_pure number

theorem takes_rule {ruleCount number : Nat} (inside : number < ruleCount)
    (small : number < Action.ruleBound) :
    Takes (rule ruleCount number) [] number := by
  rw [rule, if_pos ⟨inside, small⟩]
  exact takes_pure number

theorem toList_flagText (flag : Bool) :
    (Table.flagText flag).toList = Numeral.digits flag.toNat := by
  cases flag with
  | false =>
      rw [Numeral.digits]
      rfl
  | true =>
      rw [Numeral.digits]
      rfl

/-- A column and a length, as the rest of the line of a rule gives them. -/
theorem takes_shapeEnd {written : RuleShape} (fits : written.Fits) :
    Takes
      (do
        let length ← size (Numeral.text written.length).toList
        let hasCode ← require .invalidNumber
          (Numeral.natural? 256 (Table.flagText written.hasCode).toList)
        return { column := written.column, length, hasCode := hasCode != 0 })
      [] written := by
  have flagRead : Numeral.natural? 256
      (Table.flagText written.hasCode).toList = some written.hasCode.toNat := by
    rw [toList_flagText]
    exact Numeral.natural?_digits (by cases written.hasCode <;> decide)
  have flag : (written.hasCode.toNat != 0) = written.hasCode := by
    cases written.hasCode <;> rfl
  rw [Numeral.toList_text]
  refine (takes_size fits.length).andThen ?_
  refine (takes_require flagRead).andThen ?_
  rw [flag]
  exact takes_pure _

theorem text_ne_dash (number : Nat) :
    (Numeral.text number).toList ≠ ['-'] := by
  rw [Numeral.toList_text]
  intro equal
  have signless : ∀ character ∈ Numeral.digits number, character ≠ '-' :=
    Numeral.forall_mem_digits Numeral.digit_ne_minus number
  rw [equal] at signless
  exact signless '-' List.mem_cons_self rfl

theorem takes_shape {written : RuleShape} (fits : written.Fits) :
    Takes shape [(Table.shapeLine written).toList] written := by
  have ending := takes_shapeEnd fits
  refine (takes_nextLine _).cons ?_
  rw [Table.shapeLine,
    Line.fields_toList_spaced (Line.areFields_shape written)]
  cases found : written.column with
  | none =>
      rw [found] at ending
      exact (takes_pure none).andThen ending
  | some column =>
      rw [found] at ending
      show Takes (if (Numeral.text column).toList = ['-'] then
          pure none >>= _ else some <$> size _ >>= _) [] written
      rw [if_neg (text_ne_dash column)]
      have read : Takes (some <$> size (Numeral.text column).toList) []
          (some column) := by
        have small := fits.column column found
        rw [map_eq_pure_bind, Numeral.toList_text]
        exact (takes_size small).andThen (takes_pure _)
      refine read.andThen ?_
      exact ending

/-- The code of an action that stands in a cell passes its check. -/
theorem takes_checkCode {stateCount ruleCount : Nat} {action : Action}
    {onTerminal : Bool} (ofKind : action.OfKind onTerminal)
    (below : action.Below stateCount ruleCount)
    (fits : action.Below codeBound Action.ruleBound) :
    Takes (checkCode stateCount ruleCount action.code) [] () := by
  have target {number : Nat} (positive : 0 < number)
      (inside : number < stateCount) (small : number < codeBound) :
      Takes (checkCode stateCount ruleCount (number : Int)) [] () := by
    have plain : ¬ ((number : Int) = 0 ∨
        (number : Int) = Action.acceptCode) := by
      simp only [Action.acceptCode]
      omega
    have isTarget : (number : Int) > 0 := by omega
    rw [checkCode, if_neg plain, if_pos isTarget]
    apply takes_discard (takes_state inside _)
    exact Nat.lt_trans small (by decide)
  cases action with
  | shift state => exact target ofKind.2 below fits
  | goto state => exact target ofKind.2 below fits
  | reduce number =>
      have small : number < Action.ruleBound := fits
      have positive : 0 < number := ofKind
      have plain : ¬ (-(number : Int) = 0 ∨
          -(number : Int) = Action.acceptCode) := by
        simp only [Action.acceptCode, Action.ruleBound] at small ⊢
        omega
      have noTarget : ¬ -(number : Int) > 0 := by omega
      show Takes (checkCode stateCount ruleCount (-(number : Int))) [] ()
      rw [checkCode, if_neg plain, if_neg noTarget, Int.natAbs_neg,
        Int.natAbs_natCast]
      exact takes_discard (takes_rule below small)
  | accept => exact takes_pure ()
  | error => exact takes_pure ()

theorem takes_row {table : Table} {written : Array Action}
    (valid : table.ValidRow written)
    (fits : ∀ action ∈ written,
      action.Below codeBound Action.ruleBound) :
    Takes (row table.columns.size table.terminalCount table.stateCount
        table.rules.size)
      [(Table.rowLine written).toList] written := by
  let codes := written.toList.map Action.code
  have line : Table.rowLine written =
      Table.spaced (codes.map Numeral.integerText) := by
    rw [Table.rowLine, List.map_map]
    rfl
  have read : Takes
      (((codes.map Numeral.integerText).map String.toList).mapM fun field =>
        require .invalidNumber (Numeral.integer? codeBound field))
      [] codes := by
    apply takes_integers
    intro code member
    obtain ⟨action, listed, rfl⟩ := List.mem_map.mp member
    exact Action.code_bounds (fits action (Array.mem_toList_iff.mp listed))
  have width : ¬ codes.length ≠ table.columns.size := by
    rw [List.length_map, Array.length_toList, valid.size]
    exact fun differs => differs rfl
  have checks : Takes (codes.forM
      (checkCode table.stateCount table.rules.size)) [] () := by
    apply takes_forM
    intro code member
    obtain ⟨action, listed, rfl⟩ := List.mem_map.mp member
    obtain ⟨column, inside, rfl⟩ :=
      Array.mem_iff_getElem.mp (Array.mem_toList_iff.mp listed)
    have present := Array.getElem_mem inside
    exact takes_checkCode (valid.ofKind column inside)
      (valid.below _ present) (fits _ present)
  have actions : (codes.mapIdx fun column code =>
      Action.ofCode (decide (column < table.terminalCount)) code).toArray =
        written := by
    apply Array.ext
    · simp [codes]
    · intro column _ inside
      have present := Array.getElem_mem inside
      simp [codes, Action.ofCode_code (valid.ofKind column inside)
        (fits _ present)]
  refine (takes_nextLine _).cons ?_
  rw [line, Line.fields_toList_spaced (Line.areFields_integerTexts codes)]
  refine read.andThen ?_
  rw [if_neg width]
  refine checks.andThen ?_
  rw [actions]
  exact takes_pure written

theorem takes_final {stateCount ruleCount : Nat} {written : Nat × Nat}
    (stateInside : written.1 < stateCount) (ruleInside : written.2 < ruleCount)
    (stateSmall : written.1 < stateBound)
    (ruleSmall : written.2 < Action.ruleBound) :
    Takes (final stateCount ruleCount) [(Table.finalLine written).toList]
      written := by
  obtain ⟨number, reduction⟩ := written
  have areFields := Line.areFields_texts [number, reduction]
  have read : Takes
      (sizes (Table.spaced ([number, reduction].map Numeral.text)).toList) []
      [number, reduction] := by
    apply takes_sizes
    · rw [Line.fields_toList_spaced areFields, List.map_map]
      simp
    · intro field member
      simp only [List.mem_cons, List.not_mem_nil, or_false] at member
      rcases member with rfl | rfl
      · exact Nat.lt_trans stateSmall (by decide)
      · exact Nat.lt_trans ruleSmall (by decide)
  refine (takes_nextLine _).cons ?_
  refine read.andThen ?_
  refine (takes_state stateInside stateSmall).andThen ?_
  exact (takes_rule ruleInside ruleSmall).andThen (takes_pure _)

theorem takes_conflictAction {action : Action} (ofKind : action.OfKind true)
    (fits : action.Below codeBound Action.ruleBound) :
    Takes (conflictAction action.code) [] action := by
  rw [conflictAction, if_pos (Action.code_bounds fits),
    Action.ofCode_code ofKind fits]
  exact takes_pure action

/-- The numbers on the line of a conflict. -/
def conflictNumbers (conflict : Conflict) : List Int :=
  [conflict.state, conflict.lookahead, conflict.reduce, conflict.other.code,
    conflict.decision.code, conflict.byPrecedence.toNat]

theorem conflictLine_eq (conflict : Conflict) :
    Table.conflictLine conflict =
      Table.spaced ((conflictNumbers conflict).map Numeral.integerText) := by
  have flag : Table.flagText conflict.byPrecedence =
      Numeral.integerText conflict.byPrecedence.toNat := by
    rw [← String.toList_inj, toList_flagText,
      Numeral.toList_integerText_natCast]
  rw [Table.conflictLine, flag]
  rfl

theorem takes_conflict {terminalCount stateCount ruleCount : Nat}
    {written : Conflict}
    (valid : written.Valid terminalCount stateCount ruleCount)
    (fits : written.Fits) (states : stateCount < stateBound) :
    Takes (conflict terminalCount stateCount ruleCount)
      [(Table.conflictLine written).toList] written := by
  have stateSmall := Nat.lt_trans valid.state states
  let numbers := conflictNumbers written
  have small {code : Int} (least : -(codeBound : Int) ≤ code)
      (below : code < codeBound) :
      -(fieldBound : Int) ≤ code ∧ code < fieldBound := by
    simp only [codeBound, fieldBound] at least below ⊢
    omega
  have natural {number : Nat} (below : number < sizeBound / 2) :
      -(fieldBound : Int) ≤ (number : Int) ∧ (number : Int) < fieldBound := by
    simp only [sizeBound, fieldBound] at below ⊢
    omega
  have bounds : ∀ number ∈ numbers,
      -(fieldBound : Int) ≤ number ∧ number < fieldBound := by
    obtain ⟨otherLeast, otherBelow⟩ := Action.code_bounds fits.other
    obtain ⟨decisionLeast, decisionBelow⟩ := Action.code_bounds fits.decision
    intro number member
    simp only [numbers, conflictNumbers, List.mem_cons, List.not_mem_nil,
      or_false] at member
    rcases member with rfl | rfl | rfl | rfl | rfl | rfl
    · exact natural (Nat.lt_trans stateSmall (by decide))
    · exact natural (Nat.lt_trans fits.lookahead (by decide))
    · exact natural (Nat.lt_trans fits.reduce (by decide))
    · exact small otherLeast otherBelow
    · exact small decisionLeast decisionBelow
    · exact natural (by cases written.byPrecedence <;> decide)
  refine (takes_nextLine _).cons ?_
  rw [conflictLine_eq,
    Line.fields_toList_spaced (Line.areFields_integerTexts numbers)]
  refine (takes_integers bounds).andThen ?_
  have lookahead : ¬ ((written.lookahead : Int) < 0 ∨
      terminalCount ≤ (written.lookahead : Int).natAbs ∨
        Terminal.numberBound ≤ (written.lookahead : Int).natAbs) := by
    have inside := valid.lookahead
    have fitting := fits.lookahead
    simp only [Int.natAbs_natCast]
    omega
  have natural : ¬ (written.state : Int) < 0 ∧
      ¬ (written.reduce : Int) < 0 := by
    omega
  have flagRead : ((written.byPrecedence.toNat : Int) != 0) =
      written.byPrecedence := by
    cases written.byPrecedence <;> rfl
  dsimp only [numbers, conflictNumbers]
  rw [if_neg lookahead]
  refine (takes_conflictAction valid.other fits.other).andThen ?_
  refine (takes_conflictAction valid.decision fits.decision).andThen ?_
  rw [if_neg natural.1, Int.natAbs_natCast]
  refine (takes_state valid.state stateSmall).andThen ?_
  rw [if_neg natural.2, Int.natAbs_natCast]
  refine (takes_rule valid.reduce fits.reduce).andThen ?_
  rw [flagRead, Int.natAbs_natCast]
  exact takes_pure written

theorem takes_inadequate {stateCount number : Nat}
    (inside : number < stateCount) (states : stateCount < stateBound) :
    Takes (inadequate stateCount) [(Numeral.text number).toList] number := by
  have small := Nat.lt_trans inside states
  have read : Takes (sizes (Numeral.text number).toList) [] [number] := by
    apply takes_sizes
    · rw [Line.fields_singleton (Line.isField_text number),
        Numeral.toList_text]
      rfl
    · intro field member
      rw [List.mem_singleton] at member
      subst member
      exact Nat.lt_trans small (by decide)
  refine (takes_nextLine _).cons ?_
  refine read.andThen ?_
  exact takes_state inside small

end Reading

namespace Table

/-- The line that opens the written form. -/
def opening (table : Table) : String :=
  headerLine "%columns" [table.columns.size, table.terminalCount]

/-- The lines after the column headers. -/
def body (table : Table) : List String :=
  headerLine "%rules" [table.rules.size] ::
    (table.rules.toList.map shapeLine ++
  (headerLine "%states" [table.rows.size] ::
    (table.rows.toList.map rowLine ++
  (headerLine "%final" [table.finals.size] ::
    (table.finals.toList.map finalLine ++
  (headerLine "%conflicts"
      [table.log.conflicts.size, table.log.shiftReduce,
        table.log.reduceReduce, table.log.shiftShift] ::
    (table.log.conflicts.toList.map conflictLine ++
  (headerLine "%inadequate" [table.log.inadequate.length] ::
    table.log.inadequate.map Numeral.text))))))))

theorem lines_eq (table : Table) :
    table.lines = table.opening :: (table.columns.toList ++ table.body) := by
  simp [lines, opening, body]

end Table

namespace Reading

theorem takes_table {written : Table} (valid : written.Valid)
    (fits : written.Fits) {heads : List (List Char)}
    (size : heads.length = written.columns.size) :
    Takes table
      (written.opening.toList :: (heads ++ written.body.map String.toList))
      { written with columns := (heads.map String.ofList).toArray } := by
  have terminalsSmall :=
    Nat.lt_of_le_of_lt valid.terminals fits.columns
  have noMore : ¬ written.terminalCount > written.columns.size := by
    have terminals := valid.terminals
    omega
  have someStates : ¬ (written.rows.size ≥ stateBound ∨
      written.rows.size * written.columns.size ≥ sizeBound) := by
    have states : written.rows.size < stateBound := fits.states
    have cells : written.rows.size * written.columns.size < sizeBound :=
      fits.cellCount
    omega
  have headers : Takes (times nextLine written.columns.size) heads heads := by
    have each : ∀ head ∈ heads, Takes nextLine [id head] head :=
      fun head _ => takes_nextLine head
    have taken := takes_times each
    rwa [List.map_id, size] at taken
  have inadequates : Takes
      (times (inadequate written.rows.size) written.log.inadequate.length)
      ((written.log.inadequate.map Numeral.text).map String.toList)
      written.log.inadequate := by
    rw [List.map_map]
    exact takes_times fun number member =>
      takes_inadequate (valid.inadequate number member) fits.states
  have members : written.log.inadequate.foldl Ordered.insert [] =
      written.log.inadequate := Ordered.foldl_insert valid.distinct
  refine (takes_header "%columns" ?_).cons ?_
  · simpa using ⟨fits.columns, terminalsSmall⟩
  dsimp only
  rw [if_neg noMore]
  refine headers.bind ?_
  refine (takes_header "%rules" ?_).cons ?_
  · simpa using fits.rules
  rw [List.map_append]
  refine (takes_lines fun own member =>
    takes_shape (fits.shapes own member)).bind ?_
  refine (takes_header "%states" ?_).cons ?_
  · have states : written.rows.size < sizeBound :=
      Nat.lt_trans fits.states (by decide)
    simpa using states
  dsimp only
  rw [if_neg someStates, List.map_append]
  refine (takes_lines fun own member =>
    takes_row (valid.rows own member) (fits.cells own member)).bind ?_
  refine (takes_header "%final" ?_).cons ?_
  · simpa using fits.finalCount
  rw [List.map_append]
  refine (takes_lines fun own member =>
    takes_final (valid.finals own member).1 (valid.finals own member).2
      (Nat.lt_trans (valid.finals own member).1 fits.states)
      (fits.finals own member)).bind ?_
  refine (takes_header "%conflicts" ?_).cons ?_
  · simpa using ⟨fits.log.conflicts, fits.log.shiftReduce,
      fits.log.reduceReduce, fits.log.shiftShift⟩
  rw [List.map_append]
  refine (takes_lines fun own member =>
    takes_conflict (valid.conflicts own member) (fits.log.each own member)
      fits.states).bind ?_
  refine (takes_header "%inadequate" ?_).cons ?_
  · simpa using fits.log.inadequate
  rw [← List.append_nil ((written.log.inadequate.map _).map _)]
  refine inadequates.bind ?_
  rw [members]
  exact takes_pure _

end Reading

namespace Line

/-- A line of fields reads back as it is. -/
def IsPlain (line : String) : Prop :=
  ∃ texts, AreFields texts ∧ line = Table.spaced texts

namespace IsPlain

variable {line : String}

theorem whole (plain : IsPlain line) : '\n' ∉ line.toList := by
  obtain ⟨texts, areFields, rfl⟩ := plain
  exact not_mem_toList_spaced areFields (by decide) (by decide)

theorem dropReturn_eq (plain : IsPlain line) :
    dropReturn line.toList = line.toList := by
  obtain ⟨texts, areFields, rfl⟩ := plain
  apply dropReturn_of_getLast?_ne
  intro ending
  exact not_mem_toList_spaced areFields (by decide) (by decide)
    (List.mem_of_getLast? ending)

end IsPlain

theorem isPlain_headerLine {tag : String} (isField : IsField tag.toList)
    (counts : List Nat) : IsPlain (Table.headerLine tag counts) := by
  refine ⟨_, ?_, rfl⟩
  intro text member
  rcases List.mem_cons.mp member with rfl | count
  · exact isField
  · obtain ⟨number, -, rfl⟩ := List.mem_map.mp count
    exact isField_text number

theorem isPlain_text (number : Nat) : IsPlain (Numeral.text number) := by
  refine ⟨[Numeral.text number], ?_, String.intercalate_singleton.symm⟩
  intro text member
  rw [List.mem_singleton] at member
  exact member ▸ isField_text number

end Line

namespace Table

open Line

theorem isPlain_opening (table : Table) : IsPlain table.opening :=
  isPlain_headerLine (by decide) _

/-- No line after the column headers depends on texts. -/
theorem isPlain_of_mem_body {table : Table} {line : String}
    (member : line ∈ table.body) : IsPlain line := by
  simp only [body, List.mem_cons, List.mem_append, List.mem_map] at member
  rcases member with rfl | ⟨shape, -, rfl⟩ | rfl | ⟨row, -, rfl⟩ | rfl |
    ⟨final, -, rfl⟩ | rfl | ⟨conflict, -, rfl⟩ | rfl | ⟨number, -, rfl⟩
  · exact isPlain_headerLine (by decide) _
  · exact ⟨_, areFields_shape shape, rfl⟩
  · exact isPlain_headerLine (by decide) _
  · refine ⟨_, areFields_integerTexts (row.toList.map Action.code), ?_⟩
    rw [rowLine, List.map_map]
    rfl
  · exact isPlain_headerLine (by decide) _
  · exact ⟨_, areFields_texts [final.1, final.2], rfl⟩
  · exact isPlain_headerLine (by decide) _
  · exact ⟨_, areFields_integerTexts _, Reading.conflictLine_eq conflict⟩
  · exact isPlain_headerLine (by decide) _
  · exact isPlain_text number

theorem toList_write (table : Table) :
    table.write.toList =
      (table.lines.map String.toList).flatMap fun line => line ++ ['\n'] := by
  rw [write, String.toList_join, List.flatMap_map, List.flatMap_map]
  apply List.flatMap_congr
  intro line _
  exact String.toList_append

/-- Without line feeds in its headers, a table reads back as it is, except
that its headers lose carriage returns at their ends. -/
theorem read_write {table : Table} (valid : table.Valid) (fits : table.Fits)
    (whole : ∀ head ∈ table.columns, '\n' ∉ head.toList) :
    read table.write = .ok
      { table with
        columns := table.columns.map fun head =>
          String.ofList (dropReturn head.toList) } := by
  let heads := table.columns.toList.map fun head => dropReturn head.toList
  have plain {line : String} (member : line ∈ table.opening :: table.body) :
      IsPlain line := by
    rcases List.mem_cons.mp member with rfl | inBody
    · exact table.isPlain_opening
    · exact isPlain_of_mem_body inBody
  have noFeeds : ∀ line ∈ table.lines.map String.toList, '\n' ∉ line := by
    intro line member
    obtain ⟨text, listed, rfl⟩ := List.mem_map.mp member
    rw [lines_eq] at listed
    rcases List.mem_cons.mp listed with rfl | later
    · exact (plain List.mem_cons_self).whole
    · rcases List.mem_append.mp later with head | inBody
      · exact whole text (Array.mem_toList_iff.mp head)
      · exact (plain (List.mem_cons_of_mem _ inBody)).whole
  have read : Line.lines table.write.toList =
      table.opening.toList :: (heads ++ table.body.map String.toList) := by
    rw [toList_write, lines_flatMap noFeeds, lines_eq, List.map_map,
      List.map_cons, List.map_append]
    congr 1
    · exact (plain List.mem_cons_self).dropReturn_eq
    · congr 1
      apply List.map_congr_left
      intro line inBody
      exact (plain (List.mem_cons_of_mem _ inBody)).dropReturn_eq
  have size : heads.length = table.columns.size := by
    rw [List.length_map, Array.length_toList]
  have taken := Reading.takes_table valid fits size [] 0
  have columns : (heads.map String.ofList).toArray =
      table.columns.map fun head =>
        String.ofList (dropReturn head.toList) := by
    rw [List.map_map, ← Array.toList_inj, Array.toList_map]
    rfl
  rw [List.append_nil, columns, ← read] at taken
  show Except.map Prod.fst (Reading.table _) = _
  rw [taken]
  rfl

end Table

end LRTables
