import LRTables.Grammar.Basic
import LRTables.Table.Basic
import LRTables.Text.Line
import LRTables.Text.Numeral

/-!
# Reading tables

The reader takes what the writer produces and refuses anything that does not
describe a table.  Counts are not trusted: as many lines as they announce have
to be there.
-/

namespace LRTables

/-- What is wrong with a line. -/
inductive FormatFault where
  | endOfText
  | missingTag (tag : String)
  | invalidNumber
  | fieldCount
  | moreTerminals
  | shapeFields
  | tooManyStates
  | cellCount
  | stateRange
  | ruleRange
  | conflictFields
  | badLookahead
  | badAction
  | badState
  | badRule
  deriving DecidableEq

namespace FormatFault

def reason : FormatFault → String
  | .endOfText => "unexpected end of input"
  | .missingTag tag => "expected `" ++ tag ++ "`"
  | .invalidNumber => "invalid number"
  | .fieldCount => "wrong number of fields"
  | .moreTerminals => "more terminals than columns"
  | .shapeFields => "expected `<lhs> <rhs_len> <has_code>`"
  | .tooManyStates => "too many states"
  | .cellCount => "wrong number of cells"
  | .stateRange => "state out of range"
  | .ruleRange => "rule out of range"
  | .conflictFields => "expected six fields in a conflict"
  | .badLookahead => "bad lookahead"
  | .badAction => "bad action"
  | .badState => "bad state"
  | .badRule => "bad rule"

end FormatFault

/-- A fault and the number of the line at which it was found. -/
structure FormatError where
  line : Nat
  fault : FormatFault
  deriving DecidableEq

namespace FormatError

def message (error : FormatError) : String :=
  "line " ++ toString error.line ++ ": " ++ error.fault.reason

end FormatError

/-- The lines not yet read, and the number of the current line. -/
structure TextCursor where
  rest : List (List Char)
  line : Nat

/-- A step of reading, which may move the cursor or fail. -/
abbrev Reading := StateT TextCursor (Except FormatError)

namespace Reading

/-- Fail at the current line. -/
def fail {α : Type} (fault : FormatFault) : Reading α :=
  fun cursor => .error { line := cursor.line, fault }

/-- The value, if there is one, or else a failure. -/
def require {α : Type} (fault : FormatFault) : Option α → Reading α
  | some value => pure value
  | none => fail fault

/-- Move to the next line. -/
def nextLine : Reading (List Char) :=
  fun cursor =>
    match cursor.rest with
    | [] => .error { line := cursor.line + 1, fault := .endOfText }
    | line :: rest => .ok (line, { rest, line := cursor.line + 1 })

/-- Run a step a number of times and collect what it yields. -/
def times {α : Type} (step : Reading α) : Nat → Reading (List α)
  | 0 => pure []
  | count + 1 => do
    let value ← step
    let values ← times step count
    return value :: values

/-- Sizes and counts are 64-bit numbers. -/
def sizeBound : Nat := 18446744073709551616

/-- State numbers are 32-bit numbers. -/
def stateBound : Nat := 4294967296

/-- Codes of actions are 32-bit numbers with a sign. -/
def codeBound : Nat := 2147483648

/-- The fields of a conflict are 64-bit numbers with a sign. -/
def fieldBound : Nat := 9223372036854775808

def size (field : List Char) : Reading Nat :=
  require .invalidNumber (Numeral.natural? sizeBound field)

def sizes (text : List Char) : Reading (List Nat) :=
  (Line.fields text).mapM size

/-- The text after a tag at the start of a line. -/
def afterTag? : (tag text : List Char) → Option (List Char)
  | [], text => some text
  | _ :: _, [] => none
  | expected :: tag, found :: text =>
    if expected = found then afterTag? tag text else none

/-- The counts on the line that opens a section. -/
def header (tag : String) : Reading (List Nat) := do
  let line ← nextLine
  let counts ← require (.missingTag tag) (afterTag? tag.toList line)
  sizes counts

/-- Check the number of a state. -/
def state (stateCount number : Nat) : Reading Nat :=
  if number < stateCount ∧ number < stateBound then pure number
  else fail .stateRange

/-- Check the number of a rule. -/
def rule (ruleCount number : Nat) : Reading Nat :=
  if number < ruleCount ∧ number < Action.ruleBound then pure number
  else fail .ruleRange

def shape : Reading RuleShape := do
  let line ← nextLine
  let [left, length, hasCode] := Line.fields line | fail .shapeFields
  let column ← if left = ['-'] then pure none else some <$> size left
  let length ← size length
  let hasCode ← require .invalidNumber (Numeral.natural? 256 hasCode)
  return { column, length, hasCode := hasCode != 0 }

/-- Check the code of a cell. -/
def checkCode (stateCount ruleCount : Nat) (code : Int) : Reading Unit :=
  if code = 0 ∨ code = Action.acceptCode then pure ()
  else if code > 0 then discard (state stateCount code.natAbs)
  else discard (rule ruleCount code.natAbs)

/-- One row of cells. -/
def row (columnCount terminalCount stateCount ruleCount : Nat) :
    Reading (Array Action) := do
  let line ← nextLine
  let codes ← (Line.fields line).mapM fun field =>
    require .invalidNumber (Numeral.integer? codeBound field)
  if codes.length ≠ columnCount then fail .cellCount
  codes.forM (checkCode stateCount ruleCount)
  return (codes.mapIdx fun column code =>
    Action.ofCode (decide (column < terminalCount)) code).toArray

def final (stateCount ruleCount : Nat) : Reading (Nat × Nat) := do
  let line ← nextLine
  let [number, reduction] ← sizes line | fail .fieldCount
  return (← state stateCount number, ← rule ruleCount reduction)

/-- The code of the action of a conflict, read under the column of its
lookahead, which belongs to a terminal. -/
def conflictAction (code : Int) : Reading Action :=
  if -(codeBound : Int) ≤ code ∧ code < (codeBound : Int) then
    pure (Action.ofCode true code)
  else fail .badAction

def conflict (terminalCount stateCount ruleCount : Nat) :
    Reading Conflict := do
  let line ← nextLine
  let numbers ← (Line.fields line).mapM fun field =>
    require .invalidNumber (Numeral.integer? fieldBound field)
  let [number, lookahead, reduction, other, decision, byPrecedence] := numbers
    | fail .conflictFields
  if lookahead < 0 ∨ terminalCount ≤ lookahead.natAbs ∨
      Terminal.numberBound ≤ lookahead.natAbs then
    fail .badLookahead
  let other ← conflictAction other
  let decision ← conflictAction decision
  if number < 0 then fail .badState
  let number ← state stateCount number.natAbs
  if reduction < 0 then fail .badRule
  let reduction ← rule ruleCount reduction.natAbs
  return {
    state := number
    lookahead := lookahead.natAbs
    reduce := reduction
    other
    decision
    byPrecedence := byPrecedence != 0 }

def inadequate (stateCount : Nat) : Reading Nat := do
  let line ← nextLine
  let [number] ← sizes line | fail .fieldCount
  state stateCount number

def table : Reading Table := do
  let [columnCount, terminalCount] ← header "%columns" | fail .fieldCount
  if terminalCount > columnCount then fail .moreTerminals
  let columns ← times nextLine columnCount
  let [ruleCount] ← header "%rules" | fail .fieldCount
  let rules ← times shape ruleCount
  let [stateCount] ← header "%states" | fail .fieldCount
  if stateCount ≥ stateBound ∨ stateCount * columnCount ≥ sizeBound then
    fail .tooManyStates
  let rows ←
    times (row columnCount terminalCount stateCount ruleCount) stateCount
  let [finalCount] ← header "%final" | fail .fieldCount
  let finals ← times (final stateCount ruleCount) finalCount
  let [conflictCount, shiftReduce, reduceReduce, shiftShift] ←
    header "%conflicts" | fail .fieldCount
  let conflicts ←
    times (conflict terminalCount stateCount ruleCount) conflictCount
  let [inadequateCount] ← header "%inadequate" | fail .fieldCount
  let states ← times (inadequate stateCount) inadequateCount
  return {
    columns := (columns.map String.ofList).toArray
    terminalCount
    rules := rules.toArray
    rows := rows.toArray
    finals := finals.toArray
    log :=
      { conflicts := conflicts.toArray
        shiftReduce
        reduceReduce
        shiftShift
        inadequate := states.foldl Ordered.insert [] } }

end Reading

namespace Table

/-- Read a table.  Lines after the last section are left out of account. -/
def read (text : String) : Except FormatError Table :=
  (Reading.table.run { rest := Line.lines text.toList, line := 0 }).map
    Prod.fst

end Table

end LRTables
