import LRTables.Proofs.BuiltTables
import LRTables.Proofs.ClosedRegisters
import LRTables.Proofs.FinishedDrafts

/-!
# Defined grammars

A refused declaration might as well not have been made.  Whatever is declared,
and whatever is refused, a grammar that passes the final checks is in order:
its numbers have no gaps, no name and no rule is declared twice, and the
headers of its tables tell the columns apart.
-/

namespace LRTables

open Ordered

namespace Draft

theorem attempt_of_error [Alphabet] {draft : Draft} {declaration : Declaration}
    {error : GrammarError}
    (refused : (draft.attempt declaration).1 = .error error) :
    (draft.attempt declaration).2 = draft := by
  unfold attempt at refused ⊢
  cases declared : draft.declare declaration with
  | ok result =>
      rw [declared] at refused
      cases refused
  | error other => rfl

/-- A refused declaration may be left out. -/
theorem attemptAll_eraseIdx [Alphabet] {draft : Draft}
    {declarations : List Declaration}
    {position : Nat} {error : GrammarError}
    (refused : (draft.attemptAll declarations).1[position]? =
      some (.error error)) :
    draft.attemptAll (declarations.eraseIdx position) =
      ((draft.attemptAll declarations).1.eraseIdx position,
        (draft.attemptAll declarations).2) := by
  unfold attemptAll at refused ⊢
  induction declarations generalizing draft position with
  | nil => cases refused
  | cons declaration rest ih =>
      rw [attemptEach_cons] at refused ⊢
      cases position with
      | zero =>
          have same := attempt_of_error (Option.some.inj refused)
          rw [same]
          rfl
      | succ position =>
          rw [List.getElem?_cons_succ] at refused
          rw [List.eraseIdx_cons_succ, attemptEach_cons, ih refused]
          rfl

end Draft

def Rule.sides (rule : Rule) : Nat × List Symbol :=
  (rule.left, rule.right)

namespace Draft

/-- The names of all symbols. -/
def names (draft : Draft) : List String :=
  draft.terminals.toList.map Terminal.name ++ draft.nonterminals.toList

/-- No name is declared twice and no rule either. -/
structure Distinct (draft : Draft) : Prop where
  goal : draft.nonterminals[goalSymbol]? = some "$accept"
  names : draft.names.Nodup
  sides : (draft.rules.toList.map Rule.sides).Nodup

/-- Apostrophes occur in literals only. -/
structure Unmarked (draft : Draft) : Prop where
  terminals : ∀ terminal ∈ draft.terminals,
    terminal.quoted = false → '\'' ∉ terminal.name.toList
  nonterminals : ∀ name ∈ draft.nonterminals, '\'' ∉ name.toList

variable {draft next : Draft} {declaration : Declaration}

theorem isDeclared_iff {name : String} :
    draft.isDeclared name = true ↔ name ∈ draft.names := by
  simp only [isDeclared, names, Bool.or_eq_true, Array.any_eq_true',
    beq_iff_eq, List.mem_append, List.mem_map, Array.mem_toList_iff,
    exists_eq_right]

theorem not_mem_names {name : String}
    (absent : draft.isDeclared name = false) : name ∉ draft.names := by
  rw [← isDeclared_iff, absent]
  exact Bool.false_ne_true

theorem distinct_empty : empty.Distinct := by
  constructor
  · rfl
  · decide
  · decide

theorem unmarked_empty : empty.Unmarked := by
  constructor
  · intro terminal member _
    simp only [empty, List.mem_toArray, List.mem_cons, List.not_mem_nil,
      or_false] at member
    rcases member with rfl | rfl
    · decide
    · decide
  · intro name member
    simp only [empty, List.mem_toArray, List.mem_singleton] at member
    subst member
    decide

theorem Distinct.nodup_of_perm {name : String} {names : List String}
    (distinct : draft.Distinct) (absent : draft.isDeclared name = false)
    (added : names.Perm (name :: draft.names)) : names.Nodup :=
  added.nodup_iff.mpr
    (List.nodup_cons.mpr ⟨not_mem_names absent, distinct.names⟩)

theorem Distinct.pushTerminal {terminal : Terminal} (distinct : draft.Distinct)
    (absent : draft.isDeclared terminal.name = false) :
    { draft with
      terminals := draft.terminals.push terminal }.Distinct := by
  constructor
  · exact distinct.goal
  · refine distinct.nodup_of_perm absent ?_
    rw [Draft.names, Array.toList_push, List.map_append, List.append_assoc]
    exact List.perm_middle
  · exact distinct.sides

theorem Distinct.pushNonterminal {name : String} (distinct : draft.Distinct)
    (absent : draft.isDeclared name = false) :
    { draft with
      nonterminals := draft.nonterminals.push name }.Distinct := by
  constructor
  · have inside := (Array.getElem?_eq_some_iff.mp distinct.goal).choose
    rw [Array.getElem?_push, if_neg (Nat.ne_of_lt inside)]
    exact distinct.goal
  · refine distinct.nodup_of_perm absent ?_
    rw [Draft.names, Array.toList_push, ← List.append_assoc]
    exact List.perm_append_singleton _ _
  · exact distinct.sides

theorem Distinct.pushRule {rule : Rule} (distinct : draft.Distinct)
    (unlike : ∀ old ∈ draft.rules,
      old.left = rule.left → old.right ≠ rule.right) :
    { draft with rules := draft.rules.push rule }.Distinct := by
  have absent : rule.sides ∉ draft.rules.toList.map Rule.sides := by
    intro listed
    obtain ⟨old, member, same⟩ := List.mem_map.mp listed
    obtain ⟨left, right⟩ := Prod.mk.inj same
    exact unlike old (Array.mem_toList_iff.mp member) left right
  refine { distinct with sides := ?_ }
  rw [Array.toList_push, List.map_append]
  exact (List.perm_append_singleton _ _).nodup_iff.mpr
    (List.nodup_cons.mpr ⟨absent, distinct.sides⟩)

theorem sides_markCode (rule : Nat) :
    (draft.markCode rule).rules.toList.map Rule.sides =
      draft.rules.toList.map Rule.sides := by
  cases rule with
  | zero => rfl
  | succ index =>
      apply List.ext_getElem?
      intro position
      simp only [markCode, Array.toList_modify, List.getElem?_map,
        List.getElem?_modify]
      cases draft.rules.toList[position]? with
      | none => rfl
      | some rule =>
          by_cases here : index = position
          · simp [here, Rule.sides]
          · simp [here]

theorem Unmarked.pushTerminal {terminal : Terminal} (unmarked : draft.Unmarked)
    (own : terminal.quoted = false → '\'' ∉ terminal.name.toList) :
    { draft with
      terminals := draft.terminals.push terminal }.Unmarked := by
  refine { unmarked with terminals := ?_ }
  intro other member
  rcases Array.mem_push.mp member with old | rfl
  · exact unmarked.terminals other old
  · exact own

theorem Unmarked.pushNonterminal {name : String} (unmarked : draft.Unmarked)
    (own : '\'' ∉ name.toList) :
    { draft with
      nonterminals := draft.nonterminals.push name }.Unmarked := by
  refine { unmarked with nonterminals := ?_ }
  intro other member
  rcases Array.mem_push.mp member with old | rfl
  · exact unmarked.nonterminals other old
  · exact own

section Declarations

variable [Alphabet]

theorem Distinct.step (distinct : draft.Distinct)
    (step : draft.Step declaration next) : next.Distinct := by
  cases step with
  | terminal isName absent => exact distinct.pushTerminal absent
  | quoted filled absent => exact distinct.pushTerminal absent
  | nonterminal isName absent => exact distinct.pushNonterminal absent
  | rule resolved unlike => exact distinct.pushRule unlike
  | @code rule =>
      have sides := (sides_markCode rule).symm ▸ distinct.sides
      cases rule with
      | zero => exact distinct
      | succ index => exact { distinct with sides }
  | _ => exact { distinct with }

theorem Unmarked.step (unmarked : draft.Unmarked)
    (apostrophe : Alphabet.Excludes '\'')
    (step : draft.Step declaration next) : next.Unmarked := by
  have plain {name : String} (isName : Name.isName name = true) :
      '\'' ∉ name.toList :=
    Name.not_mem_of_isName apostrophe (by decide) (by decide) isName
  cases step with
  | terminal isName => exact unmarked.pushTerminal fun _ => plain isName
  | quoted => exact unmarked.pushTerminal Bool.noConfusion
  | nonterminal isName => exact unmarked.pushNonterminal (plain isName)
  | @code rule =>
      cases rule with
      | zero => exact unmarked
      | succ index => exact { unmarked with }
  | _ => exact { unmarked with }

theorem attemptAll_keeps {good : Draft → Prop}
    (keeps : ∀ {draft next : Draft} {declaration : Declaration},
      good draft → draft.Step declaration next → good next)
    (holds : good draft) (declarations : List Declaration) :
    good (draft.attemptAll declarations).2 := by
  induction declarations generalizing draft with
  | nil => exact holds
  | cons declaration rest ih =>
      have step : good (draft.attempt declaration).2 := by
        unfold Draft.attempt
        cases declared : draft.declare declaration with
        | ok result => exact keeps holds (step_of_declare declared)
        | error error => exact holds
      exact ih step

end Declarations

end Draft

/-- Unless a name has apostrophes of its own, the text tells it from the text
of a literal. -/
theorem Terminal.name_eq_of_text_eq {one other : Terminal}
    (plainOne : one.quoted = false → '\'' ∉ one.name.toList)
    (plainOther : other.quoted = false → '\'' ∉ other.name.toList)
    (same : one.text = other.text) : one.name = other.name := by
  have apostrophe {terminal : Terminal} (quoted : terminal.quoted = true) :
      '\'' ∈ terminal.text.toList := by
    rw [toList_text_of_quoted quoted]
    exact List.mem_cons_self
  cases quotedOne : one.quoted with
  | false =>
      rw [text_of_not_quoted quotedOne] at same
      cases quotedOther : other.quoted with
      | false => rw [same, text_of_not_quoted quotedOther]
      | true =>
          exact absurd (same ▸ apostrophe quotedOther) (plainOne quotedOne)
  | true =>
      cases quotedOther : other.quoted with
      | false =>
          rw [text_of_not_quoted quotedOther] at same
          exact absurd (same ▸ apostrophe quotedOne) (plainOther quotedOther)
      | true =>
          have characters := congrArg String.toList same
          rw [toList_text_of_quoted quotedOne,
            toList_text_of_quoted quotedOther, List.cons.injEq] at characters
          exact String.toList_injective
            (List.append_cancel_right characters.2)

theorem Draft.Distinct.nodup_headers {draft : Draft} (distinct : draft.Distinct)
    (unmarked : draft.Unmarked) (start : Nat) :
    ((draft.toGrammar start).columns.map
      (draft.toGrammar start).symbolText).Nodup := by
  obtain ⟨terminalNames, nonterminalNames, apart⟩ :=
    List.nodup_append.mp distinct.names
  rw [Grammar.map_symbolText_columns, List.nodup_append]
  refine ⟨?_, nonterminalNames.sublist (List.tail_sublist _), ?_⟩
  · refine List.Nodup.map_on ?_ (List.Nodup.of_map _ terminalNames)
    intro one member other listed same
    exact List.inj_on_of_nodup_map terminalNames member listed
      (Terminal.name_eq_of_text_eq
        (unmarked.terminals one (Array.mem_toList_iff.mp member))
        (unmarked.terminals other (Array.mem_toList_iff.mp listed)) same)
  · intro text headed name later
    obtain ⟨terminal, member, rfl⟩ := List.mem_map.mp headed
    have named := List.mem_of_mem_tail later
    rintro rfl
    cases quoted : terminal.quoted with
    | false =>
        rw [Terminal.text_of_not_quoted quoted] at named
        exact apart _ (List.mem_map_of_mem member) _ named rfl
    | true =>
        refine unmarked.nonterminals _ (Array.mem_toList_iff.mp named) ?_
        rw [Terminal.toList_text_of_quoted quoted]
        exact List.mem_cons_self

namespace Table

theorem columnNamed?_eq_some_iff {table : Table}
    (distinct : table.columns.toList.Nodup) {name : String} {column : Nat} :
    table.columnNamed? name = some column ↔
      table.columns[column]? = some name := by
  rw [columnNamed?, Array.findIdx?_eq_some_iff_getElem,
    Array.getElem?_eq_some_iff]
  constructor
  · rintro ⟨inside, found, -⟩
    exact ⟨inside, beq_iff_eq.mp found⟩
  · rintro ⟨inside, rfl⟩
    refine ⟨inside, beq_self_eq_true _, ?_⟩
    intro other before same
    have equal := distinct.getElem_inj_iff.mp (beq_iff_eq.mp same)
    exact Nat.ne_of_lt before equal

end Table

theorem Grammar.columnOf_columns {grammar : Grammar} {column : Nat}
    (inside : column < grammar.columnCount) :
    grammar.columns[column]?.bind grammar.columnOf = some column := by
  rw [columnCount] at inside
  rw [columns, List.getElem?_append, List.length_map, List.length_range]
  split
  · rename_i isTerminal
    simp [isTerminal, columnOf]
  · rename_i beyond
    have declared : column - grammar.terminals.size <
        grammar.nonterminals.size - 1 := by omega
    simp [declared, columnOf]
    omega

namespace Registered

/-- What the other parts rely on when they are given a grammar. -/
structure Orderly (registered : Registered) : Prop where
  terminals : registered.terminals.map Prod.fst =
    List.range registered.terminals.length
  nonterminals : registered.nonterminals.map Prod.fst =
    List.range registered.nonterminals.length
  rules : registered.rules.map Prod.fst = List.range registered.rules.length
  goalName : find? registered.nonterminals goalSymbol = some "$accept"
  startRule : find? registered.rules goalRule = some
    { left := goalSymbol
      right := [.nonterminal registered.start]
      override := none
      hasCode := false }
  names : (registered.terminals.map (·.2.name) ++
    registered.nonterminals.map Prod.snd).Nodup
  /-- No two declared rules have the same sides. -/
  sides : ∀ one ∈ registered.rules, ∀ other ∈ registered.rules,
    one.1 ≠ goalRule → other.1 ≠ goalRule →
      one.2.left = other.2.left → one.2.right = other.2.right → one = other
  defined : ∀ entry ∈ registered.rules, ∀ nonterminal,
    .nonterminal nonterminal ∈ entry.2.right →
      ∃ other ∈ registered.rules, other.2.left = nonterminal
  increasing : ∀ nonterminal,
    (registered.rulesOf nonterminal).Pairwise (· < ·)
  mem_rulesOf : ∀ nonterminal number,
    number ∈ registered.rulesOf nonterminal ↔
      ∃ rule, (number, rule) ∈ registered.rules ∧ rule.left = nonterminal
  columns : registered.columns.length = registered.columnCount ∧
    ∀ column < registered.columnCount,
      registered.columns[column]?.bind registered.columnOf = some column
  /-- Nothing is lost with the numbers and the index. -/
  same : registered.rulesOf = registered.grammar.rulesOf ∧
    registered.columnCount = registered.grammar.columnCount ∧
    registered.columns = registered.grammar.columns ∧
    registered.columnOf = registered.grammar.columnOf

/-- The headers of a table tell its columns apart. -/
def Headed (registered : Registered) : Prop :=
  ∀ automaton anyLookahead table,
    Table.ofAutomaton registered.grammar automaton anyLookahead = .ok table →
      table.columns =
          (registered.columns.map registered.grammar.symbolText).toArray ∧
        table.columns.toList.Nodup ∧
        ∀ name column, table.columnNamed? name = some column ↔
          table.columns[column]? = some name

variable {draft : Draft} {start : Nat}

theorem mem_rules_iff {grammar : Grammar} {rule : Rule} :
    rule ∈ grammar.rules ↔
      ∃ entry ∈ (ofGrammar grammar).rules, entry.2 = rule :=
  Array.mem_toList_iff.symm.trans mem_values_iff

/-- The goal rule alone may have the sides of a declared rule. -/
theorem sides_ofGrammar (distinct : draft.Distinct) :
    ∀ one ∈ (ofGrammar (draft.toGrammar start)).rules,
      ∀ other ∈ (ofGrammar (draft.toGrammar start)).rules,
        one.1 ≠ goalRule → other.1 ≠ goalRule →
          one.2.left = other.2.left → one.2.right = other.2.right →
            one = other := by
  have declared {entry : Nat × Rule}
      (member : entry ∈ (ofGrammar (draft.toGrammar start)).rules)
      (own : entry.1 ≠ goalRule) : entry ∈ numbered 1 draft.rules.toList := by
    rw [Register.rules_ofGrammar, List.mem_cons] at member
    rcases member with rfl | later
    · exact absurd rfl own
    · exact later
  have apart := distinct.sides
  rw [← @map_numbered _ 1] at apart
  intro one member other listed ownOne ownOther left right
  exact List.inj_on_of_nodup_map apart (declared member ownOne)
    (declared listed ownOther) (Prod.ext left right)

theorem orderly_ofGrammar (distinct : draft.Distinct)
    (complete : (draft.toGrammar start).firstUndefined? = none) :
    (ofGrammar (draft.toGrammar start)).Orderly := by
  constructor
  · exact keys_numbered
  · exact keys_numbered
  · exact keys_numbered
  · have found := @find?_numbered _ 0 draft.nonterminals.toList goalSymbol
    rw [Nat.zero_add, Array.getElem?_toList] at found
    exact found.trans distinct.goal
  · rw [Register.rules_ofGrammar, find?_cons, if_pos rfl]
    rfl
  · rw [ofGrammar, map_numbered, map_snd_numbered]
    exact distinct.names
  · exact sides_ofGrammar distinct
  · intro entry member nonterminal onRight
    obtain ⟨rule, listed, left⟩ :=
      Grammar.firstUndefined?_eq_none.mp complete nonterminal
        ⟨entry.2, mem_rules_iff.mpr ⟨entry, member, rfl⟩, onRight⟩
    obtain ⟨other, found, rfl⟩ := mem_rules_iff.mp listed
    exact ⟨other, found, left⟩
  · intro nonterminal
    rw [rulesOf_eq_filter]
    exact increasing_numbered.sublist (List.filter_sublist.map Prod.fst)
  · intro nonterminal number
    rw [rulesOf_eq_filter]
    simp
  · rw [columns_ofGrammar, columnCount_ofGrammar]
    refine ⟨Grammar.length_columns_of_pos ?_, ?_⟩
    · exact (Array.getElem?_eq_some_iff.mp distinct.goal).choose
    · intro column inside
      rw [funext columnOf_ofGrammar]
      exact Grammar.columnOf_columns inside
  · rw [grammar_ofGrammar]
    exact ⟨funext fun _ => rulesOf_ofGrammar, columnCount_ofGrammar,
      columns_ofGrammar, funext columnOf_ofGrammar⟩

theorem headed_ofGrammar (distinct : draft.Distinct)
    (unmarked : draft.Unmarked) :
    (ofGrammar (draft.toGrammar start)).Headed := by
  intro automaton anyLookahead table result
  rw [grammar_ofGrammar] at result ⊢
  have columns := Table.columns_ofAutomaton result
  have headed : table.columns.toList.Nodup := by
    rw [columns]
    exact distinct.nodup_headers unmarked start
  refine ⟨columns_ofGrammar ▸ columns, headed, ?_⟩
  exact fun _ _ => Table.columnNamed?_eq_some_iff headed

end Registered

namespace Register

/-- Refused declarations leave no trace, and what is accepted in the end is in
order.  A register and a draft have the same results and the same outcome.  The
headers of tables are told apart over every alphabet without the apostrophe. -/
theorem orderly_definition [Alphabet] (declarations : List Declaration) :
    (∀ position error,
      (empty.attemptAll declarations).1[position]? = some (.error error) →
        empty.attemptAll (declarations.eraseIdx position) =
          ((empty.attemptAll declarations).1.eraseIdx position,
            (empty.attemptAll declarations).2)) ∧
      (empty.attemptAll declarations).1 =
        (Draft.empty.attemptAll declarations).1 ∧
      (empty.attemptAll declarations).2.finish =
        (Draft.empty.attemptAll declarations).2.finish.map
          Registered.ofGrammar ∧
      ∀ registered,
        (empty.attemptAll declarations).2.finish = .ok registered →
          registered.Orderly ∧
            (Alphabet.Excludes '\'' → registered.Headed) := by
  rw [← ofDraft_empty]
  simp only [attemptAll_ofDraft, finish_ofDraft]
  refine ⟨?_, trivial, trivial, ?_⟩
  · intro position error refused
    rw [Draft.attemptAll_eraseIdx refused]
  · intro registered finished
    cases closed : (Draft.empty.attemptAll declarations).2.finish with
    | error error =>
        rw [closed] at finished
        cases finished
    | ok grammar =>
        rw [closed] at finished
        cases finished
        obtain ⟨start, -, rfl, complete, -⟩ := Draft.finish_eq_ok closed
        have distinct := Draft.attemptAll_keeps
          (fun before step => before.step step) Draft.distinct_empty
          declarations
        refine ⟨Registered.orderly_ofGrammar distinct complete, ?_⟩
        intro apostrophe
        have unmarked := Draft.attemptAll_keeps
          (fun before step => before.step apostrophe step)
          Draft.unmarked_empty declarations
        exact Registered.headed_ofGrammar distinct unmarked

/-- Declarations of which half are refused, each for a reason of its own. -/
def stumbling : List Declaration :=
  [.terminal "a" none, .quoted "a" none, .nonterminal "S", .quoted "" none,
    .rule 1 [.terminal 2] none, .rule 1 [.terminal 2] (some "a"),
    .rule 1 [.terminal 2, .nonterminal 1] (some "b"),
    .rule 1 [.terminal 2, .nonterminal 1] (some "a")]

theorem orderly_definition_stumbling :
    (empty.attemptAll stumbling).1 =
        [.ok (.number 2), .error (.duplicateSymbol "a"), .ok (.number 1),
          .error .emptyQuotedToken, .ok (.number 1),
          .error (.duplicateRule "S a"), .error (.undeclaredPrecedence "b"),
          .ok (.number 2)] ∧
      empty.attemptAll (stumbling.eraseIdx 5) =
        ((empty.attemptAll stumbling).1.eraseIdx 5,
          (empty.attemptAll stumbling).2) ∧
      ∃ registered, (empty.attemptAll stumbling).2.finish = .ok registered ∧
        registered.rulesOf 1 = [1, 2] ∧ registered.Orderly ∧
          registered.Headed := by
  obtain ⟨leaveOut, results, finished, orderly⟩ := orderly_definition stumbling
  have attempts : (Draft.empty.attemptAll stumbling).1 =
      [.ok (.number 2), .error (.duplicateSymbol "a"), .ok (.number 1),
        .error .emptyQuotedToken, .ok (.number 1),
        .error (.duplicateRule "S a"), .error (.undeclaredPrecedence "b"),
        .ok (.number 2)] := by
    decide +kernel
  have closed : (Draft.empty.attemptAll stumbling).2.finish.map
      (fun grammar => (Registered.ofGrammar grammar).rulesOf 1) =
        .ok [1, 2] := by
    decide +kernel
  rw [attempts] at results
  refine ⟨results, leaveOut 5 (.duplicateRule "S a") (by rw [results]; rfl), ?_⟩
  cases accepted : (Draft.empty.attemptAll stumbling).2.finish with
  | error error =>
      rw [accepted] at closed
      cases closed
  | ok grammar =>
      rw [accepted] at closed finished
      obtain ⟨inOrder, headed⟩ := orderly _ finished
      exact ⟨_, finished, Except.ok.inj closed, inOrder,
        headed ⟨by decide +kernel, by decide +kernel⟩⟩

end Register

end LRTables
