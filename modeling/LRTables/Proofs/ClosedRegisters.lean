import LRTables.Proofs.Registers

/-!
# Closed registers

Closing the register of a draft yields what finishing the draft does: the same
error, or the same grammar with its entries numbered and its rules indexed.
-/

namespace LRTables

open Ordered

namespace Registered

variable {grammar : Grammar} {nonterminal : Nat}

/-- A grammar with its numbers, and its rules indexed. -/
def ofGrammar (grammar : Grammar) : Registered :=
  { terminals := numbered 0 grammar.terminals.toList
    nonterminals := numbered 0 grammar.nonterminals.toList
    rules := numbered 0 grammar.rules.toList
    rulesByLeft := indexRules (numbered 0 grammar.rules.toList)
    start := grammar.start
    expect := grammar.expect }

@[simp] theorem grammar_ofGrammar : (ofGrammar grammar).grammar = grammar := by
  simp [Registered.grammar, ofGrammar]

theorem find?_foldl_update (entries : List (Nat × Rule))
    (index : List (Nat × List Nat)) :
    (find? (entries.foldl (fun index entry =>
        update index entry.2.left [] fun numbers => numbers ++ [entry.1])
        index) nonterminal).getD [] =
      (find? index nonterminal).getD [] ++
        (entries.filter (·.2.left == nonterminal)).map Prod.fst := by
  induction entries generalizing index with
  | nil => exact (List.append_nil _).symm
  | cons entry rest ih =>
      rw [List.foldl_cons, ih, getD_find?_update, List.filter_cons]
      by_cases own : nonterminal = entry.2.left
      · simp [own]
      · simp [own, Ne.symm own]

theorem mem_keys_foldl_update (entries : List (Nat × Rule))
    (index : List (Nat × List Nat)) :
    nonterminal ∈ (entries.foldl (fun index entry =>
        update index entry.2.left [] fun numbers => numbers ++ [entry.1])
        index).map Prod.fst ↔
      nonterminal ∈ index.map Prod.fst ∨
        ∃ entry ∈ entries, entry.2.left = nonterminal := by
  induction entries generalizing index with
  | nil => simp
  | cons entry rest ih =>
      rw [List.foldl_cons, ih, keys_update, mem_insert, or_assoc,
        List.exists_mem_cons_iff, eq_comm]

theorem rulesOf_eq_filter :
    (ofGrammar grammar).rulesOf nonterminal =
      ((ofGrammar grammar).rules.filter (·.2.left == nonterminal)).map
        Prod.fst :=
  find?_foldl_update _ []

theorem rulesOf_ofGrammar :
    (ofGrammar grammar).rulesOf nonterminal = grammar.rulesOf nonterminal := by
  have same : ∀ entry ∈ (ofGrammar grammar).rules,
      (entry.2.left == nonterminal) =
        (grammar.left entry.1 == nonterminal) := by
    intro entry member
    have found := keyed_numbered.mem_iff.mp member
    rw [← Nat.zero_add entry.1, find?_numbered, Array.getElem?_toList]
      at found
    rw [Grammar.left, found]
    rfl
  rw [rulesOf_eq_filter, List.filter_congr same, Grammar.rulesOf,
    List.range_eq_range', ← Array.length_toList, ← @map_fst_numbered _ 0,
    List.filter_map]
  rfl

theorem contains_keys_ofGrammar :
    ((ofGrammar grammar).rulesByLeft.map Prod.fst).contains nonterminal =
      grammar.isDefined nonterminal := by
  rw [Bool.eq_iff_iff, List.contains_iff_mem]
  refine (mem_keys_foldl_update _ _).trans ?_
  have present : grammar.isDefined nonterminal =
      (numbered 0 grammar.rules.toList).any (·.2.left == nonterminal) :=
    Array.any_toList.symm.trans (@any_numbered _ 0 grammar.rules.toList
      fun rule => rule.left == nonterminal).symm
  rw [present, List.any_eq_true]
  simp

theorem firstUndefined?_ofGrammar :
    (ofGrammar grammar).firstUndefined? = grammar.firstUndefined? := by
  have symbols : (ofGrammar grammar).rules.flatMap (·.2.right) =
      grammar.rules.toList.flatMap Rule.right := by
    rw [ofGrammar, ← List.flatMap_map, map_snd_numbered]
  simp only [firstUndefined?, symbols, contains_keys_ofGrammar]
  rfl

theorem columnCount_ofGrammar :
    (ofGrammar grammar).columnCount = grammar.columnCount := by
  simp [columnCount, ofGrammar, Grammar.columnCount]

theorem filter_range'_ne_goalSymbol (count : Nat) :
    (List.range' 0 count).filter (· != goalSymbol) =
      (List.range (count - 1)).map (· + 1) := by
  cases count with
  | zero => rfl
  | succ rest =>
      have others : ∀ number ∈ List.range' 1 rest,
          (number != goalSymbol) = true := by
        intro number member
        rw [List.mem_range'_1] at member
        exact bne_iff_ne.mpr (Nat.ne_of_gt member.1)
      rw [List.range'_succ, List.filter_cons_of_neg (by decide),
        List.filter_eq_self.mpr others, List.range'_eq_map_range]
      simp only [Nat.add_comm, Nat.add_sub_cancel]

theorem columns_ofGrammar : (ofGrammar grammar).columns = grammar.columns := by
  have terminals : (ofGrammar grammar).terminals.map (Symbol.terminal ·.1) =
      (List.range grammar.terminals.size).map .terminal := by
    rw [List.range_eq_range', ← Array.length_toList, ← @map_fst_numbered _ 0,
      List.map_map]
    rfl
  have nonterminals : ((ofGrammar grammar).nonterminals.map Prod.fst).filter
      (· != goalSymbol) =
      (List.range (grammar.nonterminals.size - 1)).map (· + 1) := by
    rw [← filter_range'_ne_goalSymbol, ← Array.length_toList,
      ← @map_fst_numbered _ 0]
    rfl
  rw [columns, terminals, nonterminals, List.map_map]
  rfl

theorem columnOf_ofGrammar (symbol : Symbol) :
    (ofGrammar grammar).columnOf symbol = grammar.columnOf symbol := by
  have count : (ofGrammar grammar).terminals.length =
      grammar.terminals.size :=
    length_numbered.trans Array.length_toList
  cases symbol with
  | terminal index => rfl
  | nonterminal index =>
      cases index with
      | zero => rfl
      | succ index =>
          have other : index + 1 ≠ goalSymbol := Nat.succ_ne_zero index
          rw [columnOf, count, if_neg other]
          rfl

end Registered

namespace Register

variable {draft : Draft}

theorem startSymbol?_ofDraft :
    (ofDraft draft).startSymbol? = draft.startSymbol? := by
  have first : ((ofDraft draft).nonterminals.map Prod.fst).find?
      (· != goalSymbol) =
      if draft.nonterminals.size > 1 then some 1 else none := by
    rw [← List.head?_filter]
    have keys : (ofDraft draft).nonterminals.map Prod.fst =
        List.range' 0 draft.nonterminals.size := by
      rw [← Array.length_toList]
      exact map_fst_numbered
    rw [keys, Registered.filter_range'_ne_goalSymbol]
    rcases draft.nonterminals.size with _ | _ | count
    · rfl
    · rfl
    · simp [List.range_succ_eq_map]
  rw [startSymbol?, first]
  rfl

theorem rules_ofGrammar {start : Nat} :
    (Registered.ofGrammar (draft.toGrammar start)).rules =
      (goalRule,
        { left := goalSymbol
          right := [.nonterminal start]
          override := none
          hasCode := false }) :: (ofDraft draft).rules := by
  simp [Registered.ofGrammar, Draft.toGrammar, numbered, ofDraft, goalRule]

theorem orderedRules_ofDraft {start : Nat} :
    (ofDraft draft).orderedRules start =
      (Registered.ofGrammar (draft.toGrammar start)).rules := by
  have absent : goalRule ∉ (ofDraft draft).rules.map Prod.fst := by
    rw [ofDraft, map_fst_numbered, List.mem_range'_1]
    exact fun bounds => absurd bounds.1 (by decide)
  have sorted : (Registered.ofGrammar (draft.toGrammar start)).rules.Pairwise
      fun one other => decide (one.1 ≤ other.1) = true := by
    have keys := @increasing_numbered _ 0 (draft.toGrammar start).rules.toList
    rw [List.pairwise_map] at keys
    exact keys.imp fun less => decide_eq_true (Nat.le_of_lt less)
  have permuted : ((ofDraft draft).orderedRules start).Perm
      (Registered.ofGrammar (draft.toGrammar start)).rules := by
    rw [orderedRules, put, update_of_absent absent, rules_ofGrammar]
    exact (List.mergeSort_perm _ _).trans (List.perm_append_singleton _ _)
  refine permuted.eq_of_pairwise ?_ (List.pairwise_mergeSort ?_ ?_ _) sorted
  · intro one other ordered listed below above
    have same := Nat.le_antisymm (of_decide_eq_true below)
      (of_decide_eq_true above)
    have value := keyed_numbered.mem_iff.mp (permuted.mem_iff.mp ordered)
    rw [same, keyed_numbered.mem_iff.mp listed] at value
    exact Prod.ext same (Option.some.inj value).symm
  · intro one other third below above
    exact decide_eq_true (Nat.le_trans (of_decide_eq_true below)
      (of_decide_eq_true above))
  · intro one other
    rw [← Bool.decide_or]
    exact decide_eq_true (Nat.le_total _ _)

theorem toRegistered_ofDraft {start : Nat} :
    (ofDraft draft).toRegistered start =
      Registered.ofGrammar (draft.toGrammar start) := by
  rw [toRegistered, orderedRules_ofDraft]
  rfl

theorem finish_ofDraft (draft : Draft) :
    (ofDraft draft).finish = draft.finish.map Registered.ofGrammar := by
  rw [finish, Draft.finish, startSymbol?_ofDraft]
  cases draft.startSymbol? with
  | none => rfl
  | some start =>
      simp only [toRegistered_ofDraft, Registered.firstUndefined?_ofGrammar,
        Registered.grammar_ofGrammar, symbolText_ofDraft]
      cases (draft.toGrammar start).firstUndefined? with
      | some nonterminal => rfl
      | none =>
          dsimp only
          split
          · rfl
          · rfl

end Register

end LRTables
