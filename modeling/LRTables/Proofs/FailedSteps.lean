import LRTables.Proofs.GeneratedParsers
import LRTables.Proofs.ReadTables

/-!
# Failed steps

A step that fails leaves the parser as it was, but for one case: when a
reduction finds no state to enter, the states that it took off stay off.  A
generated table never comes to that, so its calls can be repeated with another
lookahead as if the failed ones had not been made.
-/

namespace LRTables

namespace Parser

variable {table : Table} {parser next : Parser} {lookahead : Option Nat}
  {error : StepError}

/-- A reduction took its states off the stack, and then there was no state to
enter. -/
inductive Stranded (table : Table) (parser : Parser)
    (lookahead : Option Nat) : Parser → Prop where
  | stuck {current top rule column length : Nat} {rest : List Nat} :
      parser.stack.head? = some current →
      table.action current lookahead = .reduce rule column length →
      parser.stack.drop length = top :: rest →
      table.goto? top column = none →
      Stranded table parser lookahead { parser with stack := top :: rest }

theorem reduce_error {rule column length : Nat}
    (failed : parser.reduce table rule column length = (.error error, next)) :
    error ≠ .missingGoto ∧ next = parser ∨
      error = .missingGoto ∧ ∃ top rest,
        parser.stack.drop length = top :: rest ∧
          table.goto? top column = none ∧
          next = { parser with stack := top :: rest } := by
  simp only [reduce] at failed
  cases left : parser.stack.drop length with
  | nil =>
      simp only [left, Prod.mk.injEq, Except.error.injEq] at failed
      obtain ⟨rfl, rfl⟩ := failed
      left
      simp
  | cons top rest =>
      cases entered : table.goto? top column with
      | none =>
          simp only [left, entered, Prod.mk.injEq,
            Except.error.injEq] at failed
          obtain ⟨rfl, rfl⟩ := failed
          right
          exact ⟨rfl, top, rest, rfl, entered, rfl⟩
      | some state => simp [left, entered] at failed

/-- All that a failed step can do. -/
theorem step_error
    (failed : parser.step table lookahead = (.error error, next)) :
    error ≠ .missingGoto ∧ next = parser ∨
      error = .missingGoto ∧ Stranded table parser lookahead next := by
  unfold step at failed
  split at failed
  · cases failed
    left
    simp
  · split at failed
    · cases failed
      left
      simp
    · rename_i current below isStack
      split at failed
      · cases failed
      · rename_i rule column length isReduce
        rcases reduce_error failed with kept | ⟨isMissing, stuck⟩
        · exact Or.inl kept
        · obtain ⟨top, rest, left, noGoto, rfl⟩ := stuck
          right
          refine ⟨isMissing, .stuck ?_ isReduce left noGoto⟩
          simp [isStack]
      · cases failed
      · cases failed
        left
        simp

theorem Stranded.accepted (stranded : Stranded table parser lookahead next) :
    next.accepted = parser.accepted := by
  cases stranded
  rfl

theorem Stranded.suffix (stranded : Stranded table parser lookahead next) :
    next.stack ≠ [] ∧ next.stack <:+ parser.stack := by
  cases stranded with
  | stuck _ _ left _ =>
      rw [← left]
      exact ⟨by simp [left], List.drop_suffix _ _⟩

/-- The states of the right-hand side are lost, if there are any. -/
theorem Stranded.loses (stranded : Stranded table parser lookahead next) :
    next = parser ↔ ∃ current rule column,
      parser.stack.head? = some current ∧
        table.action current lookahead = .reduce rule column 0 := by
  cases stranded with
  | @stuck current top rule column length rest isTop isReduce left _ =>
      constructor
      · intro same
        have kept : parser.stack.drop length = parser.stack := by
          rw [left]
          exact congrArg Parser.stack same
        have none : length = 0 := by
          have sizes := congrArg List.length kept
          have some : parser.stack.length ≠ 0 := by
            intro zero
            simp [List.length_eq_zero_iff.mp zero] at isTop
          rw [List.length_drop] at sizes
          omega
        subst none
        exact ⟨current, rule, column, isTop, isReduce⟩
      · rintro ⟨other, otherRule, otherColumn, isOther, isEmpty⟩
        rw [isTop, Option.some.injEq] at isOther
        subst isOther
        rw [isReduce] at isEmpty
        cases isEmpty
        rw [List.drop_zero] at left
        rw [← left]

/-- What a failed step leaves.  The flag is kept, and of the stack at least
the lowest state.  The whole parser is kept exactly if no goto is missing, or
if the reduction has nothing to take off. -/
theorem failed_step_leaves
    (failed : parser.step table lookahead = (.error error, next)) :
    next.accepted = parser.accepted ∧ next.stack <:+ parser.stack ∧
      (parser.stack ≠ [] → next.stack ≠ []) ∧
      (next = parser ↔ error = .missingGoto →
        ∃ current rule column, parser.stack.head? = some current ∧
          table.action current lookahead = .reduce rule column 0) := by
  rcases step_error failed with ⟨noMissing, rfl⟩ | ⟨isMissing, stranded⟩
  · refine ⟨rfl, List.suffix_refl _, fun nonempty => nonempty, ?_⟩
    simp [noMissing]
  · obtain ⟨nonempty, suffix⟩ := stranded.suffix
    refine ⟨stranded.accepted, suffix, fun _ => nonempty, ?_⟩
    rw [stranded.loses]
    simp [isMissing]

/-- A table that reduces a token to a symbol for which no state has a goto. -/
def gotoless : Table :=
  { columns := #["$end", "a", "S"]
    terminalCount := 2
    rules :=
      #[{ column := none, length := 1, hasCode := false },
        { column := some 2, length := 1, hasCode := false }]
    rows := #[#[.error, .shift 1, .error], #[.reduce 1, .error, .error]]
    finals := #[]
    log := .empty }

def gotolessText : String :=
  "%columns 3 2\n$end\na\nS\n%rules 2\n- 1 0\n2 1 0\n%states 2\n" ++
  "0 1 0\n-1 0 0\n%final 0\n%conflicts 0 0 0 0\n%inadequate 0\n"

/-- The table is read without complaint.  The failed reduction takes the token
off, so that a second one is shifted, which the parser before it refuses. -/
theorem failed_step_forgets_gotoless :
    Table.read gotolessText = .ok gotoless ∧
      (after gotoless [some 1]).stack = [1, 0] ∧
      (after gotoless [some 1]).step gotoless none =
        (.error .missingGoto, { stack := [0], accepted := false }) ∧
      ((after gotoless [some 1]).step gotoless (some 1)).1 =
        .error .unexpected ∧
      ((after gotoless [some 1, none]).step gotoless (some 1)).1 =
        .ok (.shift 1) := by
  decide +kernel

/-- The lookaheads of a run on which its steps succeed. -/
def succeeding (table : Table) (parser : Parser) :
    List (Option Nat) → List (Option Nat)
  | [] => []
  | lookahead :: rest =>
    let (result, next) := parser.step table lookahead
    match result with
    | .ok _ => lookahead :: succeeding table next rest
    | .error _ => succeeding table next rest

/-- No step after any run misses a goto. -/
def NeverStranded (table : Table) : Prop :=
  ∀ lookaheads lookahead,
    ((after table lookaheads).step table lookahead).1 ≠ .error .missingGoto

theorem NeverStranded.restores (never : NeverStranded table)
    {lookaheads : List (Option Nat)}
    (failed : (after table lookaheads).step table lookahead =
      (.error error, next)) : next = after table lookaheads := by
  rcases step_error failed with ⟨-, same⟩ | ⟨isMissing, -⟩
  · exact same
  · subst isMissing
    have missing := never lookaheads lookahead
    simp [failed] at missing

/-- From any parser of a run, all further calls come to what the successful
ones among them come to. -/
theorem NeverStranded.foldl_succeeding (never : NeverStranded table)
    (earlier later : List (Option Nat)) :
    later.foldl (fun parser lookahead => (parser.step table lookahead).2)
        (after table earlier) =
      (succeeding table (after table earlier) later).foldl
        (fun parser lookahead => (parser.step table lookahead).2)
        (after table earlier) := by
  induction later generalizing earlier with
  | nil => rfl
  | cons lookahead rest ih =>
      rw [List.foldl_cons, succeeding]
      cases result : (after table earlier).step table lookahead with
      | mk event next =>
          cases event with
          | ok event =>
              have reached : after table (earlier ++ [lookahead]) = next := by
                simp only [after, List.foldl_append, List.foldl_cons,
                  List.foldl_nil]
                exact congrArg Prod.snd result
              have further := ih (earlier ++ [lookahead])
              rw [reached] at further
              simpa [result] using further
          | error error =>
              have same := never.restores result
              subst same
              exact ih earlier

end Parser

/-- Over a generated table a failed step changes nothing, whatever the calls
before it were.  A run therefore comes to the parser to which its successful
calls come alone. -/
theorem generated_failures_restore {grammar : Grammar} {options : Options}
    {limit : Nat} {output : Output} (accepted : grammar.Accepted)
    (unused : grammar.GoalUnused)
    (result : grammar.generateWithin limit options = .ok output) :
    (∀ lookaheads lookahead error next,
      (Parser.after output.table lookaheads).step output.table lookahead =
          (.error error, next) →
        next = Parser.after output.table lookaheads) ∧
    ∀ lookaheads, Parser.after output.table lookaheads =
      Parser.after output.table
        (Parser.succeeding output.table Parser.begin lookaheads) := by
  have wellFormed := accepted.wellFormed
  obtain ⟨anyLookahead, automaton, adequate, filled⟩ :=
    Grammar.adequate_generateWithin wellFormed unused result
  have represents := adequate.represents wellFormed filled
  have never : Parser.NeverStranded output.table := fun lookaheads lookahead =>
    (represents.step_safe wellFormed unused lookaheads lookahead).2
  constructor
  · intro lookaheads lookahead error next failed
    exact never.restores failed
  · intro lookaheads
    exact never.foldl_succeeding [] lookaheads

end LRTables
