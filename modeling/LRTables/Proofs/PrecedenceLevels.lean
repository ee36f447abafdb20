import LRTables.Proofs.Registers
import LRTables.Table.Filling

/-!
# Precedence levels

Each level that a draft allocates binds tighter than all earlier ones, as long
as priorities last.  The levels past the highest priority share it, so that
between two of them associativity decides.
-/

namespace LRTables

/-- What an operator does between two others of its own strength. -/
def Associativity.preference : Associativity → Preference
  | .left => .reduce
  | .right => .shift
  | .nonassoc => .shift

namespace Declaration

/-- The associativity of the level that a declaration asks for. -/
def associativity? : Declaration → Option Associativity
  | .precedence associativity => some associativity
  | _ => none

end Declaration

namespace Declared

def level? : Declared → Option Precedence
  | .level precedence => some precedence
  | _ => none

end Declared

namespace Draft

/-- The levels among the results of declarations, in order of allocation. -/
def levels (results : List (Except GrammarError Declared)) : List Precedence :=
  results.filterMap fun result => result.toOption.bind Declared.level?

/-- The level allocated when so many have been allocated before it. -/
def levelAt (earlier : Nat) (associativity : Associativity) : Precedence :=
  { priority := min earlier maxPriority
    associativity }

variable {draft : Draft} {declaration : Declaration}

theorem attempt_precedence [Alphabet] (draft : Draft)
    (associativity : Associativity) :
    draft.attempt (.precedence associativity) =
      (.ok (.level (draft.addLevel associativity).1),
        (draft.addLevel associativity).2) :=
  rfl

theorem level?_numbered {added : Except GrammarError (Nat × Draft)}
    {declared : Declared} {next : Draft}
    (result : declare.numbered added = .ok (declared, next)) :
    declared.level? = none := by
  cases added with
  | error error => cases result
  | ok pair =>
      cases result
      rfl

/-- Other declarations yield no level and do not touch the priorities. -/
theorem attempt_of_associativity? [Alphabet]
    (other : declaration.associativity? = none) :
    (draft.attempt declaration).1.toOption.bind Declared.level? = none ∧
      (draft.attempt declaration).2.nextPriority = draft.nextPriority := by
  unfold attempt
  cases result : draft.declare declaration with
  | error error => exact ⟨rfl, rfl⟩
  | ok pair =>
      obtain ⟨declared, next⟩ := pair
      show declared.level? = none ∧ next.nextPriority = draft.nextPriority
      have step := step_of_declare result
      cases declaration with
      | precedence associativity => cases other
      | terminal name precedence =>
          refine ⟨level?_numbered result, ?_⟩
          cases step
          rfl
      | quoted literal precedence =>
          refine ⟨level?_numbered result, ?_⟩
          cases step
          rfl
      | nonterminal name =>
          refine ⟨level?_numbered result, ?_⟩
          cases step
          rfl
      | rule left right override =>
          refine ⟨level?_numbered result, ?_⟩
          cases step
          rfl
      | code rule =>
          cases result
          refine ⟨rfl, ?_⟩
          cases rule <;> rfl
      | start nonterminal =>
          cases result
          exact ⟨rfl, rfl⟩
      | expect count =>
          cases result
          exact ⟨rfl, rfl⟩

/-- The levels that a draft allocates are numbered on from its next
priority. -/
theorem levels_attemptAll [Alphabet] (declarations : List Declaration)
    (earlier : Nat) (next : draft.nextPriority = min earlier maxPriority) :
    levels (draft.attemptAll declarations).1 =
      (declarations.filterMap Declaration.associativity?).mapIdx
        fun index => levelAt (earlier + index) := by
  induction declarations generalizing draft earlier with
  | nil => rfl
  | cons declaration rest ih =>
      have first : levels (draft.attemptAll (declaration :: rest)).1 =
          ((draft.attempt declaration).1.toOption.bind
              Declared.level?).toList ++
            levels ((draft.attempt declaration).2.attemptAll rest).1 := by
        simp only [attemptAll, attemptEach_cons, levels, List.filterMap_cons]
        cases (draft.attempt declaration).1.toOption.bind
          Declared.level? <;> rfl
      rw [first]
      cases asks : declaration.associativity? with
      | none =>
          obtain ⟨noLevel, same⟩ := attempt_of_associativity? asks
          rw [noLevel, ih _ (same.trans next)]
          simp [asks]
      | some associativity =>
          cases declaration with
          | precedence level =>
              cases asks
              have after : (draft.addLevel associativity).2.nextPriority =
                  min (earlier + 1) maxPriority := by
                simp only [addLevel, next]
                omega
              rw [attempt_precedence, ih _ after]
              simp [addLevel, next, Declared.level?, levelAt,
                Declaration.associativity?, Nat.add_assoc, Nat.add_comm 1,
                Except.toOption]
          | _ => cases asks

theorem eq_levelAt_of_levels [Alphabet] {declarations : List Declaration}
    {index : Nat} {level : Precedence}
    (found : (levels (empty.attemptAll declarations).1)[index]? =
      some level) : level = levelAt index level.associativity := by
  rw [levels_attemptAll declarations 0 rfl,
    List.getElem?_mapIdx] at found
  obtain ⟨associativity, -, rfl⟩ := Option.map_eq_some_iff.mp found
  simp [levelAt]

end Draft

theorem Grammar.preference?_of_precedences {grammar : Grammar}
    {terminal rule : Nat} {shifted reduced : Precedence}
    (onShift : grammar.terminalPrecedence terminal = some shifted)
    (onReduce : grammar.rulePrecedence rule = some reduced) :
    grammar.preference? terminal rule =
      some (if shifted.priority < reduced.priority then .reduce
        else if reduced.priority < shifted.priority then .shift
        else shifted.associativity.preference) := by
  simp only [preference?, onShift, onReduce, Option.bind_eq_bind,
    Option.bind_some, gt_iff_lt]
  split
  · rfl
  · split
    · rfl
    · cases shifted.associativity <;> rfl

/-- Of two levels the later one is strictly higher exactly if the earlier one
lies below the highest priority.  A rule of one level and a terminal of another
are told apart by the order of the levels as long as that is so, and otherwise
by the associativity of the terminal. -/
theorem later_levels_bind_tighter [Alphabet] (declarations : List Declaration)
    {i j : Nat} {one other : Precedence}
    (atOne : (Draft.levels (Draft.empty.attemptAll declarations).1)[i]? =
      some one)
    (atOther : (Draft.levels (Draft.empty.attemptAll declarations).1)[j]? =
      some other) :
    (i < j → (one.priority < other.priority ↔ i < Draft.maxPriority) ∧
      one.priority ≤ other.priority) ∧
    ∀ (grammar : Grammar) (terminal rule : Nat),
      grammar.rulePrecedence rule = some one →
      grammar.terminalPrecedence terminal = some other →
        (j < i → j < Draft.maxPriority →
          grammar.preference? terminal rule = some .reduce) ∧
        (i < j → i < Draft.maxPriority →
          grammar.preference? terminal rule = some .shift) ∧
        (i = j ∨ Draft.maxPriority ≤ i ∧ Draft.maxPriority ≤ j →
          grammar.preference? terminal rule =
            some other.associativity.preference) := by
  have first : one.priority = min i Draft.maxPriority :=
    congrArg Precedence.priority (Draft.eq_levelAt_of_levels atOne)
  have second : other.priority = min j Draft.maxPriority :=
    congrArg Precedence.priority (Draft.eq_levelAt_of_levels atOther)
  constructor
  · intro earlier
    rw [first, second]
    omega
  · intro grammar terminal rule onReduce onShift
    rw [Grammar.preference?_of_precedences onShift onReduce, first, second]
    refine ⟨?_, ?_, ?_⟩
    · intro later below
      rw [if_pos (by omega)]
    · intro earlier below
      rw [if_neg (by omega), if_pos (by omega)]
    · intro tied
      rw [if_neg (by omega), if_neg (by omega)]

theorem levels_replicate [Alphabet] {count index : Nat} (inside : index < count)
    (associativity : Associativity) :
    (Draft.levels (Draft.empty.attemptAll
      (List.replicate count (.precedence associativity))).1)[index]? =
        some (Draft.levelAt index associativity) := by
  have asked : (List.replicate count
      (Declaration.precedence associativity)).filterMap
        Declaration.associativity? = List.replicate count associativity :=
    List.filterMap_replicate_of_some rfl
  rw [Draft.levels_attemptAll _ 0 rfl, asked,
    List.getElem?_mapIdx, List.getElem?_replicate, if_pos inside]
  simp

/-- The last two of so many levels are the same, and a rule of the last one
does not win against a terminal of the one before it. -/
theorem levels_tie_at_limit [Alphabet] :
    let levels := Draft.levels (Draft.empty.attemptAll
      (List.replicate 65537 (.precedence .right))).1
    levels[65535]? = levels[65536]? ∧
      ∀ (grammar : Grammar) (terminal rule : Nat),
        grammar.rulePrecedence rule = levels[65536]? →
        grammar.terminalPrecedence terminal = levels[65535]? →
        grammar.preference? terminal rule = some .shift := by
  intro levels
  have last : levels[65536]? = some ⟨65535, .right⟩ :=
    levels_replicate (by decide) .right
  have before : levels[65535]? = some ⟨65535, .right⟩ :=
    levels_replicate (by decide) .right
  rw [last, before]
  refine ⟨rfl, ?_⟩
  intro grammar terminal rule onReduce onShift
  rw [Grammar.preference?_of_precedences onShift onReduce]
  rfl

end LRTables
