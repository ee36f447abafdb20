import LRTables.Grammar.Register
import LRTables.Proofs.Transitions

/-!
# Registers and drafts

Carried out in place, a declaration does to a register what it does to a draft.
So one that is refused leaves the register as it was.
-/

namespace LRTables

namespace Ordered

variable {α : Type} {first : Nat} {values : List α}

/-- The values under consecutive numbers. -/
def numbered (first : Nat) : List α → List (Nat × α)
  | [] => []
  | value :: rest => (first, value) :: numbered (first + 1) rest

@[simp] theorem map_snd_numbered :
    (numbered first values).map Prod.snd = values := by
  induction values generalizing first with
  | nil => rfl
  | cons value rest ih => rw [numbered, List.map_cons, ih]

theorem map_numbered {β : Type} {change : α → β} :
    (numbered first values).map (fun entry => change entry.2) =
      values.map change := by
  rw [← @map_snd_numbered α first values, List.map_map, map_snd_numbered]
  rfl

theorem mem_values_iff {value : α} :
    value ∈ values ↔ ∃ entry ∈ numbered first values, entry.2 = value := by
  rw [← @map_snd_numbered α first values, List.mem_map, map_snd_numbered]

@[simp] theorem map_fst_numbered :
    (numbered first values).map Prod.fst =
      List.range' first values.length := by
  induction values generalizing first with
  | nil => rfl
  | cons value rest ih =>
      rw [numbered, List.map_cons, ih, List.length_cons, List.range'_succ]

@[simp] theorem length_numbered :
    (numbered first values).length = values.length := by
  rw [← List.length_map Prod.snd, map_snd_numbered]

theorem any_numbered {test : α → Bool} :
    (numbered first values).any (fun entry => test entry.2) =
      values.any test := by
  rw [← @map_snd_numbered α first values, List.any_map, map_snd_numbered]
  rfl

theorem numbered_append {others : List α} :
    numbered first (values ++ others) =
      numbered first values ++ numbered (first + values.length) others := by
  induction values generalizing first with
  | nil => rfl
  | cons head rest ih =>
      have next : first + 1 + rest.length = first + (head :: rest).length := by
        rw [List.length_cons]
        omega
      rw [List.cons_append, numbered, numbered, ih, next, List.cons_append]

theorem put_numbered {value : α} :
    put (numbered first values) (first + values.length) value =
      numbered first (values ++ [value]) := by
  rw [put, update_of_absent, numbered_append]
  · rfl
  · rw [map_fst_numbered, List.mem_range'_1]
    omega

theorem keys_numbered :
    (numbered 0 values).map Prod.fst =
      List.range (numbered 0 values).length := by
  rw [List.range_eq_range', map_fst_numbered, length_numbered]

theorem increasing_numbered :
    ((numbered first values).map Prod.fst).Pairwise (· < ·) := by
  rw [map_fst_numbered]
  exact List.pairwise_lt_range' 1

theorem keyed_numbered : Keyed (numbered first values) :=
  increasing_numbered.imp Nat.ne_of_lt

theorem find?_numbered {index : Nat} :
    find? (numbered first values) (first + index) = values[index]? := by
  induction values generalizing first index with
  | nil => rfl
  | cons head rest ih =>
      rw [numbered, find?_cons]
      cases index with
      | zero => simp
      | succ index =>
          have next : first + (index + 1) = first + 1 + index := by omega
          rw [if_neg (by omega), next, ih]
          rfl

theorem find?_snd_numbered {test : α → Bool} :
    ((numbered first values).find? fun entry => test entry.2).map Prod.fst =
      (values.findIdx? test).map (first + ·) := by
  induction values generalizing first with
  | nil => rfl
  | cons head rest ih =>
      rw [numbered, List.find?_cons, List.findIdx?_cons]
      cases test head with
      | true => rfl
      | false =>
          rw [ih]
          cases rest.findIdx? test with
          | none => rfl
          | some index =>
              have next : first + 1 + index = first + (index + 1) := by omega
              exact congrArg some next

theorem le_of_mem_numbered {entry : Nat × α}
    (member : entry ∈ numbered first values) : first ≤ entry.1 := by
  have listed : entry.1 ∈ (numbered first values).map Prod.fst :=
    List.mem_map.mpr ⟨entry, member, rfl⟩
  rw [map_fst_numbered, List.mem_range'_1] at listed
  exact listed.1

/-- A change of what stands under one number. -/
theorem map_numbered_modify {index : Nat} {change : α → α} :
    ((numbered first values).map fun entry =>
        if entry.1 = first + index then (entry.1, change entry.2)
        else entry) =
      numbered first (values.modify index change) := by
  induction values generalizing first index with
  | nil => simp [numbered]
  | cons head rest ih =>
      rw [numbered, List.map_cons]
      cases index with
      | zero =>
          have others : ((numbered (first + 1) rest).map fun entry =>
                if entry.1 = first + 0 then (entry.1, change entry.2)
                else entry) = numbered (first + 1) rest := by
            refine (List.map_congr_left ?_).trans (List.map_id _)
            intro entry member
            have later := le_of_mem_numbered member
            exact if_neg (by omega)
          rw [others]
          exact congrArg (· :: _) (if_pos rfl)
      | succ index =>
          have next : first + (index + 1) = first + 1 + index := by omega
          rw [if_neg (by omega), next, ih]
          rfl

end Ordered

open Ordered Registering

namespace Register

variable {α : Type} {draft : Draft}

/-- The declared rules take the numbers from one on. -/
def ofDraft (draft : Draft) : Register :=
  { terminals := numbered 0 draft.terminals.toList
    nonterminals := numbered 0 draft.nonterminals.toList
    rules := numbered 1 draft.rules.toList
    start := draft.start
    expect := draft.expect
    nextTerminal := draft.terminals.size
    nextNonterminal := draft.nonterminals.size
    nextRule := draft.rules.size + 1
    nextPriority := draft.nextPriority }

theorem nextTerminal_ofDraft :
    (ofDraft draft).nextTerminal = draft.terminals.size :=
  rfl

theorem nextNonterminal_ofDraft :
    (ofDraft draft).nextNonterminal = draft.nonterminals.size :=
  rfl

theorem nextRule_ofDraft :
    (ofDraft draft).nextRule = draft.rules.size + 1 :=
  rfl

theorem ofDraft_empty : ofDraft .empty = empty :=
  rfl

/-- Where a draft refuses a declaration, the register stays as it is. -/
def outcome (draft : Draft) :
    Except GrammarError (α × Draft) → Except GrammarError α × Register
  | .ok (value, next) => (.ok value, ofDraft next)
  | .error error => (.error error, ofDraft draft)

theorem symbolText_ofDraft (symbol : Symbol) :
    (ofDraft draft).symbolText symbol = draft.symbolText symbol := by
  cases symbol with
  | terminal index =>
      have found := @find?_numbered _ 0 draft.terminals.toList index
      rw [Nat.zero_add, Array.getElem?_toList] at found
      rw [symbolText, ofDraft, found]
      rfl
  | nonterminal index =>
      have found := @find?_numbered _ 0 draft.nonterminals.toList index
      rw [Nat.zero_add, Array.getElem?_toList] at found
      rw [symbolText, ofDraft, found, Draft.symbolText,
        Array.getD_eq_getD_getElem?]

section Steps

variable {β : Type} {rest : α → Registering β}

theorem exec_following_bind {kind : Numbered} {number : Nat}
    {rest : Nat → Registering β} {register : Register} :
    exec (following kind number >>= rest) register =
      if number ≥ Draft.numberLimit then (.error (.tooMany kind), register)
      else exec (rest (number + 1)) register := by
  unfold following
  by_cases room : number < Draft.numberLimit
  · rw [if_pos room, if_neg (Nat.not_le_of_lt room)]
    rfl
  · rw [if_neg room, if_pos (Nat.le_of_not_lt room)]
    rfl

theorem exec_checkUnique_bind {name : String} {rest : Unit → Registering β} :
    exec (checkUnique name >>= rest) (ofDraft draft) =
      if draft.isDeclared name then
        (.error (.duplicateSymbol name), ofDraft draft)
      else exec (rest ⟨⟩) (ofDraft draft) := by
  have declared : ((ofDraft draft).terminals.any (·.2.name == name) ||
      (ofDraft draft).nonterminals.any (·.2 == name)) =
      draft.isDeclared name := by
    have terminals := (@any_numbered Terminal 0 draft.terminals.toList
      fun terminal => terminal.name == name).trans Array.any_toList
    have nonterminals := (@any_numbered String 0 draft.nonterminals.toList
      fun other => other == name).trans Array.any_toList
    exact congr (congrArg or terminals) nonterminals
  have checked : exec (checkUnique name) (ofDraft draft) =
      if draft.isDeclared name then
        (.error (.duplicateSymbol name), ofDraft draft)
      else (.ok ⟨⟩, ofDraft draft) := by
    unfold checkUnique
    rw [exec_get_bind, declared]
    split <;> rfl
  split
  · rename_i taken
    rw [if_pos taken] at checked
    exact exec_bind_of_error checked
  · rename_i unique
    rw [if_neg unique] at checked
    exact exec_bind_of_ok checked

theorem terminalNamed?_ofDraft (draft : Draft) (name : String) :
    ((ofDraft draft).terminals.find? (·.2.name == name)).map Prod.fst =
      draft.terminalNamed? name := by
  have found := @find?_snd_numbered Terminal 0 draft.terminals.toList
    fun terminal => terminal.name == name
  refine found.trans ?_
  simp only [Nat.zero_add, Option.map_id', Draft.terminalNamed?]
  exact (List.findIdx?_toArray _ _).symm

theorem exec_resolveOverride_bind {override : Option String}
    {rest : Option Nat → Registering β} :
    exec (resolveOverride override >>= rest) (ofDraft draft) =
      match draft.resolveOverride override with
      | .ok terminal => exec (rest terminal) (ofDraft draft)
      | .error error => (.error error, ofDraft draft) := by
  cases override with
  | none => rfl
  | some name =>
      rw [exec_bind]
      unfold resolveOverride Draft.resolveOverride
      dsimp only
      rw [exec_get_bind, ← terminalNamed?_ofDraft]
      cases (ofDraft draft).terminals.find? (·.2.name == name) with
      | none => rfl
      | some entry => rfl

end Steps

theorem exec_addTerminal {name : String} {precedence : Option Precedence}
    {quoted : Bool} :
    exec (addTerminal name precedence quoted) (ofDraft draft) =
      outcome draft (draft.addTerminal name precedence quoted) := by
  unfold addTerminal Draft.addTerminal
  simp only [exec_checkUnique_bind, exec_get_bind, exec_following_bind,
    exec_modify_bind, exec_pure, nextTerminal_ofDraft]
  split
  · rfl
  · split
    · rfl
    · have put := @put_numbered _ 0 draft.terminals.toList
        { name, precedence, quoted }
      rw [Nat.zero_add, Array.length_toList] at put
      simp only [ofDraft, put, outcome, Array.toList_push, Array.size_push]

theorem exec_addNonterminal [Alphabet] {name : String} :
    exec (addNonterminal name) (ofDraft draft) =
      outcome draft (draft.addNonterminal name) := by
  unfold addNonterminal Draft.addNonterminal
  simp only [exec_ite, exec_throw_bind, exec_checkUnique_bind,
    exec_get_bind, exec_following_bind, exec_modify_bind, exec_pure,
    nextNonterminal_ofDraft]
  split
  · rfl
  · split
    · rfl
    · split
      · rfl
      · have put := @put_numbered _ 0 draft.nonterminals.toList name
        rw [Nat.zero_add, Array.length_toList] at put
        simp only [ofDraft, put, outcome, Array.toList_push, Array.size_push]

theorem exec_addRule {left : Nat} {right : List Symbol}
    {override : Option String} :
    exec (addRule left right override) (ofDraft draft) =
      outcome draft (draft.addRule left right override) := by
  unfold addRule
  rw [exec_resolveOverride_bind]
  cases resolved : draft.resolveOverride override with
  | error error =>
      unfold Draft.addRule
      rw [resolved]
      rfl
  | ok terminal =>
      have listed := (@any_numbered Rule 1 draft.rules.toList fun rule =>
        rule.left == left && rule.right == right).trans Array.any_toList
      have texts : (ofDraft draft).symbolText = draft.symbolText :=
        funext symbolText_ofDraft
      rw [Draft.addRule_of_resolved resolved]
      simp only [exec_get_bind, exec_ite, exec_throw_bind,
        exec_following_bind, exec_modify_bind, exec_pure, nextRule_ofDraft,
        texts]
      rw [show (ofDraft draft).rules.any _ = _ from listed]
      split
      · rfl
      · split
        · rfl
        · have put := @put_numbered _ 1 draft.rules.toList
            { left, right, override := terminal, hasCode := false }
          rw [Nat.add_comm, Array.length_toList] at put
          simp only [ofDraft, put, outcome, Array.toList_push,
            Array.size_push]

theorem markCode_ofDraft (rule : Nat) :
    { ofDraft draft with
      rules := (ofDraft draft).rules.map fun entry =>
        if entry.1 = rule then (entry.1, { entry.2 with hasCode := true })
        else entry } = ofDraft (draft.markCode rule) := by
  have rules : ((ofDraft draft).rules.map fun entry =>
        if entry.1 = rule then (entry.1, { entry.2 with hasCode := true })
        else entry) = (ofDraft (draft.markCode rule)).rules := by
    cases rule with
    | zero =>
        refine (List.map_congr_left ?_).trans (List.map_id _)
        intro entry member
        have positive := le_of_mem_numbered member
        exact if_neg (by omega)
    | succ index =>
        have marked := @map_numbered_modify Rule 1 draft.rules.toList index
          fun rule => { rule with hasCode := true }
        rw [Nat.add_comm] at marked
        refine marked.trans ?_
        simp [ofDraft, Draft.markCode]
  rw [rules]
  cases rule with
  | zero => rfl
  | succ index => simp [ofDraft, Draft.markCode]

/-- Carried out in place, a declaration does what it does to a draft. -/
theorem attempt_ofDraft_eq_outcome [Alphabet] (draft : Draft)
    (declaration : Declaration) :
    (ofDraft draft).attempt declaration =
      outcome draft (draft.declare declaration) := by
  have number {step : Registering Nat}
      {result : Except GrammarError (Nat × Draft)}
      (same : exec step (ofDraft draft) = outcome draft result) :
      exec (step >>= fun index => pure (.number index)) (ofDraft draft) =
        outcome draft (Draft.declare.numbered result) := by
    rw [exec_bind, same]
    cases result with
    | error error => rfl
    | ok pair => rfl
  cases declaration with
  | precedence associativity => rfl
  | terminal name precedence =>
      apply number
      unfold addNamed Draft.addNamed
      simp only [exec_ite, exec_throw_bind, exec_addTerminal]
      cases Name.isName name with
      | false => rfl
      | true => rfl
  | quoted literal precedence =>
      apply number
      unfold addQuoted Draft.addQuoted
      simp only [exec_ite, exec_throw_bind, exec_addTerminal]
      split
      · rfl
      · rfl
  | nonterminal name => exact number exec_addNonterminal
  | rule left right override => exact number exec_addRule
  | code rule =>
      exact congrArg (Prod.mk (Except.ok Declared.done)) (markCode_ofDraft rule)
  | start nonterminal => rfl
  | expect count => rfl

end Register

namespace Draft

/-- The result of a declaration, and the draft after it. -/
def attempt [Alphabet] (draft : Draft) (declaration : Declaration) :
    Except GrammarError Declared × Draft :=
  match draft.declare declaration with
  | .ok (declared, next) => (.ok declared, next)
  | .error error => (.error error, draft)

def attemptAll [Alphabet] (draft : Draft)
    (declarations : List Declaration) :
    List (Except GrammarError Declared) × Draft :=
  attemptEach attempt draft declarations

end Draft

namespace Register

theorem attempt_ofDraft [Alphabet] (draft : Draft) (declaration : Declaration) :
    (ofDraft draft).attempt declaration =
      ((draft.attempt declaration).1,
        ofDraft (draft.attempt declaration).2) := by
  rw [attempt_ofDraft_eq_outcome, Draft.attempt]
  cases draft.declare declaration with
  | ok result => rfl
  | error error => rfl

theorem attemptAll_ofDraft [Alphabet] (draft : Draft)
    (declarations : List Declaration) :
    (ofDraft draft).attemptAll declarations =
      ((draft.attemptAll declarations).1,
        ofDraft (draft.attemptAll declarations).2) := by
  unfold attemptAll Draft.attemptAll
  induction declarations generalizing draft with
  | nil => rfl
  | cons declaration rest ih =>
      rw [attemptEach_cons, attempt_ofDraft, ih]
      rfl

end Register

end LRTables
