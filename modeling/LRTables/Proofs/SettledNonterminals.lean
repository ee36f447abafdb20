import LRTables.Proofs.Admission
import LRTables.Proofs.Derivation
import Mathlib.Data.Finset.Card
import Mathlib.Data.Finset.Range

/-!
# Settled nonterminals

The marking rounds reach their fixpoint within the number of nonterminals, so
the marked nonterminals are exactly those that derive a settled string.
-/

namespace LRTables

namespace Grammar

variable {grammar : Grammar}

/-- The nonterminal is marked. -/
def IsMarked (marked : Array Bool) (nonterminal : Nat) : Prop :=
  marked.getD nonterminal false = true

instance (marked : Array Bool) (nonterminal : Nat) :
    Decidable (IsMarked marked nonterminal) :=
  inferInstanceAs (Decidable (_ = _))

theorem isMarked_set {marked : Array Bool} {left nonterminal : Nat} :
    IsMarked (marked.setIfInBounds left true) nonterminal ↔
      IsMarked marked nonterminal ∨
        nonterminal = left ∧ left < marked.size := by
  simp only [IsMarked, Array.getD_eq_getD_getElem?,
    Array.getElem?_setIfInBounds]
  by_cases same : left = nonterminal
  · subst same
    by_cases inside : left < marked.size
    · simp [inside]
    · simp [inside]
  · simp [same, Ne.symm same]

theorem allSettled_iff {terminals : Bool} {marked : Array Bool}
    {symbols : List Symbol} :
    allSettled terminals marked symbols = true ↔
      ∀ symbol ∈ symbols,
        (∀ index, symbol = .terminal index → terminals = true) ∧
          ∀ index, symbol = .nonterminal index → IsMarked marked index := by
  simp only [allSettled, List.all_eq_true]
  refine forall_congr' fun symbol => forall_congr' fun _ => ?_
  cases symbol <;> simp [IsMarked]

theorem allSettled_mono {terminals : Bool} {marked more : Array Bool}
    {symbols : List Symbol}
    (grows : ∀ index, IsMarked marked index → IsMarked more index)
    (settled : allSettled terminals marked symbols = true) :
    allSettled terminals more symbols = true := by
  rw [allSettled_iff] at settled ⊢
  intro symbol member
  obtain ⟨onTerminal, onNonterminal⟩ := settled symbol member
  exact ⟨onTerminal, fun index equal => grows index (onNonterminal index equal)⟩

/-- The left-hand side of every rule with a settled right-hand side is
marked. -/
def MarksClosed (grammar : Grammar) (terminals : Bool) (marked : Array Bool) :
    Prop :=
  ∀ rule ∈ grammar.rules, allSettled terminals marked rule.right = true →
    rule.left < marked.size → IsMarked marked rule.left

/-- Mark the left-hand side of one rule if its right-hand side is settled. -/
def markRule (terminals : Bool) (marked : Array Bool) (rule : Rule) :
    Array Bool :=
  if allSettled terminals marked rule.right then
    marked.setIfInBounds rule.left true
  else marked

theorem markRound_eq (grammar : Grammar) (terminals : Bool)
    (marked : Array Bool) :
    grammar.markRound terminals marked =
      grammar.rules.toList.foldl (markRule terminals) marked := by
  rw [Array.foldl_toList]
  rfl

@[simp] theorem size_markRule (terminals : Bool) (marked : Array Bool)
    (rule : Rule) : (markRule terminals marked rule).size = marked.size := by
  unfold markRule
  split
  · exact Array.size_setIfInBounds
  · rfl

theorem isMarked_markRule {terminals : Bool} {marked : Array Bool}
    {rule : Rule} {nonterminal : Nat} (mark : IsMarked marked nonterminal) :
    IsMarked (markRule terminals marked rule) nonterminal := by
  unfold markRule
  split
  · exact isMarked_set.mpr (Or.inl mark)
  · exact mark

theorem size_markRules (terminals : Bool) (rules : List Rule)
    (marked : Array Bool) :
    (rules.foldl (markRule terminals) marked).size = marked.size := by
  induction rules generalizing marked with
  | nil => rfl
  | cons rule rest ih => rw [List.foldl_cons, ih, size_markRule]

theorem isMarked_markRules {terminals : Bool} {marked : Array Bool}
    {nonterminal : Nat} (rules : List Rule)
    (mark : IsMarked marked nonterminal) :
    IsMarked (rules.foldl (markRule terminals) marked) nonterminal := by
  induction rules generalizing marked with
  | nil => exact mark
  | cons rule rest ih => exact ih (isMarked_markRule mark)

theorem isMarked_of_settled {terminals : Bool} {marked : Array Bool}
    {rule : Rule} {rules : List Rule} (member : rule ∈ rules)
    (settled : allSettled terminals marked rule.right = true)
    (inside : rule.left < marked.size) :
    IsMarked (rules.foldl (markRule terminals) marked) rule.left := by
  induction rules generalizing marked with
  | nil => cases member
  | cons first rest ih =>
      rw [List.foldl_cons]
      rcases List.mem_cons.mp member with rfl | later
      · refine isMarked_markRules rest ?_
        rw [markRule, if_pos settled]
        exact isMarked_set.mpr (Or.inr ⟨rfl, inside⟩)
      · refine ih later (allSettled_mono (fun _ => isMarked_markRule) settled) ?_
        rwa [size_markRule]

theorem markRules_eq_of_closed {terminals : Bool} {marked : Array Bool}
    {rules : List Rule}
    (closed : ∀ rule ∈ rules, allSettled terminals marked rule.right = true →
      rule.left < marked.size → IsMarked marked rule.left) :
    rules.foldl (markRule terminals) marked = marked := by
  induction rules with
  | nil => rfl
  | cons rule rest ih =>
      have same : markRule terminals marked rule = marked := by
        unfold markRule
        split
        · rename_i settled
          apply Array.ext Array.size_setIfInBounds
          intro index _ inside
          rw [Array.getElem_setIfInBounds inside]
          split
          · rename_i equal
            subst equal
            have mark := closed rule List.mem_cons_self settled inside
            rw [IsMarked, Array.getD_eq_getD_getElem?,
              Array.getElem?_eq_getElem inside] at mark
            exact mark.symm
          · rfl
        · rfl
      rw [List.foldl_cons, same]
      exact ih fun other member => closed other (List.mem_cons_of_mem _ member)

/-- The number of marked nonterminals. -/
def markCount (marked : Array Bool) : Nat :=
  ((Finset.range marked.size).filter (IsMarked marked)).card

theorem markCount_lt {marked more : Array Bool} {nonterminal : Nat}
    (size : more.size = marked.size)
    (grows : ∀ index, IsMarked marked index → IsMarked more index)
    (inside : nonterminal < marked.size)
    (old : ¬ IsMarked marked nonterminal)
    (new : IsMarked more nonterminal) : markCount marked < markCount more := by
  apply Finset.card_lt_card
  rw [Finset.ssubset_iff_of_subset]
  · exact ⟨nonterminal,
      Finset.mem_filter.mpr ⟨Finset.mem_range.mpr (size ▸ inside), new⟩,
      fun member => old (Finset.mem_filter.mp member).2⟩
  · intro index member
    obtain ⟨bound, mark⟩ := Finset.mem_filter.mp member
    exact Finset.mem_filter.mpr ⟨size ▸ bound, grows index mark⟩

theorem isMarked_of_full {marked : Array Bool}
    (full : marked.size ≤ markCount marked) {index : Nat}
    (inside : index < marked.size) : IsMarked marked index := by
  have whole : (Finset.range marked.size).filter (IsMarked marked) =
      Finset.range marked.size := by
    apply Finset.eq_of_subset_of_card_le (Finset.filter_subset _ _)
    rw [Finset.card_range]
    exact full
  have member := Finset.mem_range.mpr inside
  rw [← whole] at member
  exact (Finset.mem_filter.mp member).2

/-- The rounds end in a fixpoint when there are as many of them as there are
nonterminals without a mark. -/
theorem markRounds_closed {terminals : Bool} {rounds : Nat}
    {marked : Array Bool} (enough : marked.size ≤ markCount marked + rounds) :
    grammar.MarksClosed terminals
        (grammar.markRounds terminals rounds marked) ∧
      (grammar.markRounds terminals rounds marked).size = marked.size := by
  induction rounds generalizing marked with
  | zero => exact ⟨fun rule _ _ inside => isMarked_of_full enough inside, rfl⟩
  | succ rounds ih =>
      have size : (grammar.markRound terminals marked).size = marked.size := by
        rw [markRound_eq, size_markRules]
      by_cases closed : grammar.MarksClosed terminals marked
      · have same : grammar.markRound terminals marked = marked := by
          rw [markRound_eq]
          exact markRules_eq_of_closed fun rule member =>
            closed rule (Array.mem_toList_iff.mp member)
        have stop : grammar.markRounds terminals (rounds + 1) marked =
            marked := by
          simp [markRounds, same]
        rw [stop]
        exact ⟨closed, rfl⟩
      · have due : ∃ rule ∈ grammar.rules,
            allSettled terminals marked rule.right = true ∧
              rule.left < marked.size ∧ ¬ IsMarked marked rule.left := by
          unfold MarksClosed at closed
          push Not at closed
          exact closed
        obtain ⟨rule, member, settled, inside, unmarked⟩ := due
        have grows : ∀ index, IsMarked marked index →
            IsMarked (grammar.markRound terminals marked) index := by
          intro index mark
          rw [markRound_eq]
          exact isMarked_markRules _ mark
        have newMark :
            IsMarked (grammar.markRound terminals marked) rule.left := by
          rw [markRound_eq]
          exact isMarked_of_settled (Array.mem_toList_iff.mpr member) settled
            inside
        have more := markCount_lt size grows inside unmarked newMark
        have changed : grammar.markRound terminals marked ≠ marked := by
          intro same
          exact unmarked (same ▸ newMark)
        have continues : grammar.markRounds terminals (rounds + 1) marked =
            grammar.markRounds terminals rounds
              (grammar.markRound terminals marked) := by
          simp [markRounds, changed]
        rw [continues]
        obtain ⟨resultClosed, resultSize⟩ :=
          @ih (grammar.markRound terminals marked) (by omega)
        exact ⟨resultClosed, resultSize.trans size⟩

/-- The nonterminal derives a token string, or the empty one if terminals do
not count as settled. -/
def Settles (grammar : Grammar) (terminals : Bool) (nonterminal : Nat) :
    Prop :=
  ∃ tokens : List Nat, (terminals = false → tokens = []) ∧
    grammar.Derives [.nonterminal nonterminal] (tokens.map .terminal)

theorem derives_of_allSettled {terminals : Bool} {marked : Array Bool}
    (sound : ∀ index, IsMarked marked index →
      grammar.Settles terminals index)
    {symbols : List Symbol}
    (settled : allSettled terminals marked symbols = true) :
    ∃ tokens : List Nat, (terminals = false → tokens = []) ∧
      grammar.Derives symbols (tokens.map .terminal) := by
  rw [allSettled_iff] at settled
  induction symbols with
  | nil => exact ⟨[], fun _ => rfl, .refl []⟩
  | cons symbol rest ih =>
      obtain ⟨onTerminal, onNonterminal⟩ := settled symbol List.mem_cons_self
      obtain ⟨tokens, restNone, restDerives⟩ := ih fun other member =>
        settled other (List.mem_cons_of_mem _ member)
      cases symbol with
      | terminal index =>
          refine ⟨index :: tokens, ?_, ?_⟩
          · intro none
            rw [onTerminal index rfl] at none
            cases none
          · exact (Derives.refl [.terminal index]).append restDerives
      | nonterminal index =>
          obtain ⟨front, frontNone, frontDerives⟩ :=
            sound index (onNonterminal index rfl)
          refine ⟨front ++ tokens, ?_, ?_⟩
          · intro none
            rw [frontNone none, restNone none, List.nil_append]
          · rw [List.map_append]
            exact frontDerives.append restDerives

theorem settles_of_markRules {terminals : Bool} {marked : Array Bool}
    {rules : List Rule} (own : ∀ rule ∈ rules, rule ∈ grammar.rules)
    (sound : ∀ index, IsMarked marked index →
      grammar.Settles terminals index)
    {index : Nat}
    (mark : IsMarked (rules.foldl (markRule terminals) marked) index) :
    grammar.Settles terminals index := by
  induction rules generalizing marked with
  | nil => exact sound index mark
  | cons rule rest ih =>
      refine ih (fun other member => own other (List.mem_cons_of_mem _ member))
        ?_ mark
      intro other otherMark
      unfold markRule at otherMark
      split at otherMark
      · rename_i settled
        rcases isMarked_set.mp otherMark with old | ⟨rfl, -⟩
        · exact sound other old
        · obtain ⟨tokens, none, derives⟩ := derives_of_allSettled sound settled
          refine ⟨tokens, none, ?_⟩
          obtain ⟨number, inside, found⟩ :=
            Array.getElem_of_mem (own rule List.mem_cons_self)
          have lookup : grammar.rules[number]? = some rule :=
            Array.getElem?_eq_some_iff.mpr ⟨inside, found⟩
          have step : grammar.Derives _ _ := .single inside
          simp only [Grammar.left, Grammar.right, lookup,
            Option.elim_some] at step
          exact step.trans derives
      · exact sound other otherMark

theorem settles_of_markRounds {terminals : Bool} {rounds : Nat}
    {marked : Array Bool}
    (sound : ∀ index, IsMarked marked index →
      grammar.Settles terminals index)
    {index : Nat}
    (mark : IsMarked (grammar.markRounds terminals rounds marked) index) :
    grammar.Settles terminals index := by
  induction rounds generalizing marked with
  | zero => exact sound index mark
  | succ rounds ih =>
      rw [markRounds] at mark
      split at mark
      · exact sound index mark
      · refine ih ?_ mark
        intro other otherMark
        rw [markRound_eq] at otherMark
        exact settles_of_markRules
          (fun rule member => Array.mem_toList_iff.mp member) sound otherMark

theorem isMarked_of_expands {terminals : Bool} {marked : Array Bool}
    (closed : grammar.MarksClosed terminals marked)
    (lefts : ∀ rule, grammar.left rule < marked.size)
    {symbols target : List Symbol} (expands : grammar.Expands symbols target)
    {tokens : List Nat} (plain : target = tokens.map .terminal)
    (none : terminals = false → tokens = []) :
    allSettled terminals marked symbols = true := by
  induction expands generalizing tokens with
  | nil => rfl
  | keep symbol _ ih =>
      cases tokens with
      | nil => cases plain
      | cons token tokens =>
          rw [List.map_cons, List.cons.injEq] at plain
          obtain ⟨rfl, restPlain⟩ := plain
          have counted : terminals = true := by
            cases terminals with
            | true => rfl
            | false => cases none rfl
          subst counted
          have rest := ih restPlain nofun
          rw [allSettled, List.all_cons, Bool.and_eq_true]
          exact ⟨rfl, rest⟩
  | @replace rule rest front back valid _ _ headIh tailIh =>
      obtain ⟨first, second, rfl, frontPlain, backPlain⟩ :=
        List.map_eq_append_iff.mp plain.symm
      have head := headIh frontPlain.symm fun empty =>
        (List.append_eq_nil_iff.mp (none empty)).1
      have tail := tailIh backPlain.symm fun empty =>
        (List.append_eq_nil_iff.mp (none empty)).2
      have lookup := Array.getElem?_eq_getElem valid
      have own := closed _ (Array.getElem_mem valid)
      have inside := lefts rule
      simp only [Grammar.left, Grammar.right, lookup,
        Option.elim_some] at head inside ⊢
      rw [allSettled, List.all_cons, Bool.and_eq_true]
      exact ⟨own head inside, tail⟩

/-- The marking is exact. -/
theorem isMarked_settled (wellFormed : grammar.WellFormed) {terminals : Bool}
    {nonterminal : Nat} :
    IsMarked (grammar.settled terminals) nonterminal ↔
      grammar.Settles terminals nonterminal := by
  have blank : ∀ index, ¬ IsMarked
      (Array.replicate grammar.nonterminals.size false) index := by
    intro index mark
    rw [IsMarked, Array.getD_eq_getD_getElem?,
      Array.getElem?_replicate] at mark
    split at mark <;> cases mark
  constructor
  · intro mark
    exact settles_of_markRounds (fun index old => absurd old (blank index)) mark
  · rintro ⟨tokens, none, derives⟩
    have enough : (Array.replicate grammar.nonterminals.size false).size ≤
        markCount (Array.replicate grammar.nonterminals.size false) +
          grammar.nonterminals.size := by
      rw [Array.size_replicate]
      exact Nat.le_add_left _ _
    obtain ⟨closed, size⟩ :=
      @markRounds_closed grammar terminals _ _ enough
    have settled := isMarked_of_expands closed
      (fun rule => by
        rw [size, Array.size_replicate]
        exact wellFormed.left_declared rule)
      (expands_iff_derives.mpr derives) rfl none
    exact (allSettled_iff.mp settled _ (List.mem_singleton_self _)).2 _ rfl

/-- The nonterminals marked nullable are those that derive the empty string. -/
theorem isMarked_nullables (wellFormed : grammar.WellFormed)
    {nonterminal : Nat} :
    IsMarked grammar.nullables nonterminal ↔
      grammar.Vanishes [.nonterminal nonterminal] := by
  rw [nullables, isMarked_settled wellFormed]
  constructor
  · rintro ⟨tokens, none, derives⟩
    rw [none rfl] at derives
    exact derives
  · intro vanishes
    exact ⟨[], fun _ => rfl, vanishes⟩

end Grammar

end LRTables
