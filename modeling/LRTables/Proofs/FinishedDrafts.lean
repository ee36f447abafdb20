import LRTables.Grammar.Warning
import LRTables.Proofs.FirstTerminals
import LRTables.Proofs.Reachability

/-!
# Finished drafts

A finished draft is refused for the first of three reasons that applies: it has
no nonterminal, it needs one that has no rule, or its start symbol derives no
string of terminals.  Otherwise it is a grammar, whose warnings name exactly
the symbols that were declared in vain.
-/

namespace LRTables

namespace Grammar

variable {grammar : Grammar} {nonterminal terminal : Nat}

def HasRule (grammar : Grammar) (nonterminal : Nat) : Prop :=
  ∃ rule ∈ grammar.rules, rule.left = nonterminal

/-- The nonterminal is the start symbol or stands on a right-hand side. -/
def Needs (grammar : Grammar) (nonterminal : Nat) : Prop :=
  nonterminal = grammar.start ∨
    ∃ rule ∈ grammar.rules, .nonterminal nonterminal ∈ rule.right

/-- Every nonterminal that is needed has a rule. -/
def Complete (grammar : Grammar) : Prop :=
  ∀ nonterminal, grammar.Needs nonterminal → grammar.HasRule nonterminal

/-- The nonterminal derives a string of terminals. -/
def Productive (grammar : Grammar) (nonterminal : Nat) : Prop :=
  ∃ tokens : List Nat,
    grammar.Derives [.nonterminal nonterminal] (tokens.map .terminal)

/-- The nonterminal occurs in a form derived from the goal symbol. -/
def Occurs (grammar : Grammar) (nonterminal : Nat) : Prop :=
  ∃ form, grammar.Derives [.nonterminal goalSymbol] form ∧
    .nonterminal nonterminal ∈ form

theorem isDefined_iff :
    grammar.isDefined nonterminal = true ↔ grammar.HasRule nonterminal := by
  simp only [isDefined, Array.any_eq_true', beq_iff_eq, HasRule]

theorem hasRule_iff_mem_rulesOf :
    grammar.HasRule nonterminal ↔
      ∃ rule, rule ∈ grammar.rulesOf nonterminal := by
  constructor
  · rintro ⟨entry, member, left⟩
    obtain ⟨rule, inside, rfl⟩ := Array.getElem_of_mem member
    refine ⟨rule, mem_rulesOf.mpr ⟨inside, ?_⟩⟩
    rw [Grammar.left, Array.getElem?_eq_getElem inside]
    exact left
  · rintro ⟨rule, member⟩
    obtain ⟨inside, left⟩ := mem_rulesOf.mp member
    refine ⟨grammar.rules[rule], Array.getElem_mem inside, ?_⟩
    rw [Grammar.left, Array.getElem?_eq_getElem inside] at left
    exact left

theorem mem_right_iff {symbol : Symbol} :
    (∃ rule ∈ grammar.rules, symbol ∈ rule.right) ↔
      symbol ∈ grammar.rules.toList.flatMap Rule.right := by
  simp only [List.mem_flatMap, Array.mem_toList_iff]

theorem exists_of_mem_right {rule : Nat} {symbol : Symbol}
    (member : symbol ∈ grammar.right rule) :
    ∃ entry ∈ grammar.rules, symbol ∈ entry.right := by
  unfold right at member
  cases found : grammar.rules[rule]? with
  | none =>
      rw [found] at member
      cases member
  | some entry =>
      rw [found] at member
      exact ⟨entry, Array.mem_of_getElem? found, member⟩

theorem firstUndefined?_eq_none :
    grammar.firstUndefined? = none ↔
      ∀ nonterminal,
        (∃ rule ∈ grammar.rules, .nonterminal nonterminal ∈ rule.right) →
          grammar.HasRule nonterminal := by
  simp only [mem_right_iff, firstUndefined?, List.findSome?_eq_none_iff]
  constructor
  · intro defined nonterminal member
    have test := defined _ member
    by_contra lacking
    rw [← isDefined_iff] at lacking
    simp [lacking] at test
  · intro hasRule symbol member
    cases symbol with
    | terminal index => rfl
    | nonterminal index =>
        exact if_pos (isDefined_iff.mpr (hasRule index member))

theorem of_firstUndefined?
    (found : grammar.firstUndefined? = some nonterminal) :
    grammar.Needs nonterminal ∧ ¬ grammar.HasRule nonterminal := by
  obtain ⟨symbol, member, test⟩ := List.exists_of_findSome?_eq_some found
  cases symbol with
  | terminal index => cases test
  | nonterminal index =>
      dsimp only at test
      split at test
      · cases test
      · rename_i lacking
        cases test
        exact ⟨Or.inr (mem_right_iff.mpr member), fun hasRule =>
          lacking (isDefined_iff.mpr hasRule)⟩

theorem isMarked_productives (wellFormed : grammar.WellFormed) :
    IsMarked grammar.productives nonterminal ↔
      grammar.Productive nonterminal := by
  rw [productives, isMarked_settled wellFormed]
  constructor
  · rintro ⟨tokens, -, derives⟩
    exact ⟨tokens, derives⟩
  · rintro ⟨tokens, derives⟩
    exact ⟨tokens, nofun, derives⟩

theorem mem_symbolsBelow {symbol : Symbol} :
    symbol ∈ grammar.symbolsBelow nonterminal ↔
      ∃ rule ∈ grammar.rulesOf nonterminal, symbol ∈ grammar.right rule :=
  List.mem_flatMap

theorem mem_nonterminalsBelow {other : Nat} :
    other ∈ grammar.nonterminalsBelow nonterminal ↔
      ∃ rule ∈ grammar.rulesOf nonterminal,
        .nonterminal other ∈ grammar.right rule := by
  rw [← mem_symbolsBelow, nonterminalsBelow, List.mem_filterMap]
  constructor
  · rintro ⟨symbol, member, equal⟩
    cases symbol with
    | terminal index => cases equal
    | nonterminal index =>
        cases equal
        exact member
  · intro member
    exact ⟨_, member, rfl⟩

/-- Every nonterminal of a derived form is found from the goal symbol; the
derivation is followed step by step. -/
theorem reachedFrom_of_derives {form : List Symbol}
    (derives : grammar.Derives [.nonterminal goalSymbol] form) :
    ∀ nonterminal, .nonterminal nonterminal ∈ form →
      ReachedFrom grammar.nonterminalsBelow [goalSymbol] nonterminal := by
  induction derives with
  | refl =>
      intro nonterminal member
      rw [List.mem_singleton] at member
      cases member
      exact ⟨goalSymbol, List.mem_singleton_self _, .refl⟩
  | tail _ step ih =>
      intro nonterminal member
      cases step with
      | @replace before after rule valid =>
          rw [List.append_assoc, List.mem_append, List.mem_append] at member
          rcases member with inFront | inRight | behind
          · exact ih nonterminal (List.mem_append_left _ inFront)
          · have left := ih (grammar.left rule)
              (List.mem_append_right _ List.mem_cons_self)
            exact left.step (mem_nonterminalsBelow.mpr
              ⟨rule, mem_rulesOf.mpr ⟨valid, rfl⟩, inRight⟩)
          · exact ih nonterminal
              (List.mem_append_right _ (List.mem_cons_of_mem _ behind))

theorem Occurs.step (occurs : grammar.Occurs nonterminal) {rule other : Nat}
    (own : rule ∈ grammar.rulesOf nonterminal)
    (member : .nonterminal other ∈ grammar.right rule) :
    grammar.Occurs other := by
  obtain ⟨form, derives, inForm⟩ := occurs
  obtain ⟨before, after, rfl⟩ := List.append_of_mem inForm
  obtain ⟨inside, rfl⟩ := mem_rulesOf.mp own
  refine ⟨_, derives.tail (.replace before after inside), ?_⟩
  exact List.mem_append_left _ (List.mem_append_right _ member)

theorem reachedFrom_iff_occurs :
    ReachedFrom grammar.nonterminalsBelow [goalSymbol] nonterminal ↔
      grammar.Occurs nonterminal := by
  constructor
  · rintro ⟨root, isGoal, path⟩
    rw [List.mem_singleton] at isGoal
    subst isGoal
    induction path with
    | refl => exact ⟨_, .refl _, List.mem_singleton_self _⟩
    | tail _ edge ih =>
        obtain ⟨rule, own, member⟩ := mem_nonterminalsBelow.mp edge
        exact ih.step own member
  · rintro ⟨form, derives, inForm⟩
    exact reachedFrom_of_derives derives nonterminal inForm

theorem Occurs.declared (wellFormed : grammar.WellFormed)
    (occurs : grammar.Occurs nonterminal) :
    nonterminal < grammar.nonterminals.size := by
  obtain ⟨root, isGoal, path⟩ := reachedFrom_iff_occurs.mpr occurs
  rw [List.mem_singleton] at isGoal
  subst isGoal
  cases path with
  | refl => exact wellFormed.left_goalRule ▸ wellFormed.left_declared goalRule
  | tail _ edge =>
      obtain ⟨rule, -, member⟩ := mem_nonterminalsBelow.mp edge
      exact wellFormed.right_declared rule _ member

theorem mem_reachableNonterminals (wellFormed : grammar.WellFormed) :
    nonterminal ∈ grammar.reachableNonterminals ↔
      grammar.Occurs nonterminal := by
  rw [← reachedFrom_iff_occurs]
  apply @mem_discover _ _ _ _ _ _ (List.range grammar.nonterminals.size)
  · intro node reached
    rw [List.mem_range]
    exact (reachedFrom_iff_occurs.mp reached).declared wellFormed
  · rw [List.length_range]
    exact Nat.lt_two_pow_self

theorem mem_usedSymbols (wellFormed : grammar.WellFormed) {symbol : Symbol} :
    symbol ∈ grammar.usedSymbols ↔
      ∃ rule < grammar.rules.size, grammar.Occurs (grammar.left rule) ∧
        symbol ∈ grammar.right rule := by
  simp only [usedSymbols, List.mem_flatMap, Array.mem_toList_iff,
    mem_reachableNonterminals wellFormed, mem_symbolsBelow, mem_rulesOf]
  constructor
  · rintro ⟨_, occurs, rule, ⟨inside, rfl⟩, member⟩
    exact ⟨rule, inside, occurs, member⟩
  · rintro ⟨rule, inside, occurs, member⟩
    exact ⟨_, occurs, rule, ⟨inside, rfl⟩, member⟩

theorem mem_unproductiveNonterminals (wellFormed : grammar.WellFormed) :
    nonterminal ∈ grammar.unproductiveNonterminals ↔
      grammar.HasRule nonterminal ∧ ¬ grammar.Productive nonterminal := by
  rw [unproductiveNonterminals, List.mem_filter, List.mem_range,
    ← isMarked_productives wellFormed, hasRule_iff_mem_rulesOf,
    Bool.and_eq_true, Bool.not_eq_true', Bool.not_eq_true',
    List.isEmpty_eq_false_iff_exists_mem, IsMarked, Bool.not_eq_true]
  constructor
  · exact And.right
  · intro both
    obtain ⟨rule, own⟩ := both.1
    exact ⟨(mem_rulesOf.mp own).2 ▸ wellFormed.left_declared rule, both⟩

theorem mem_unreachableNonterminals (wellFormed : grammar.WellFormed) :
    nonterminal ∈ grammar.unreachableNonterminals ↔
      nonterminal < grammar.nonterminals.size ∧
        ¬ grammar.Occurs nonterminal := by
  rw [unreachableNonterminals, List.mem_filter, List.mem_range,
    ← mem_reachableNonterminals wellFormed, Bool.not_eq_true',
    ← Bool.not_eq_true, Array.contains_iff_mem]

theorem mem_unusedTerminals (wellFormed : grammar.WellFormed) :
    terminal ∈ grammar.unusedTerminals ↔
      terminal < grammar.terminals.size ∧ terminal ≠ Terminal.endOfInput ∧
        terminal ≠ Terminal.errorToken ∧
        ¬ ∃ rule < grammar.rules.size, grammar.Occurs (grammar.left rule) ∧
          .terminal terminal ∈ grammar.right rule := by
  rw [unusedTerminals, List.mem_filter, List.mem_range,
    ← mem_usedSymbols wellFormed, Bool.and_eq_true, Bool.and_eq_true,
    bne_iff_ne, bne_iff_ne, Bool.not_eq_true', ← Bool.not_eq_true,
    List.contains_iff_mem, and_assoc]

/-- The marks and the warnings of a grammar tell what its nonterminals derive
and which symbols are declared in vain. -/
structure Diagnosed (grammar : Grammar) : Prop where
  nullable : ∀ nonterminal,
    grammar.nullables.getD nonterminal false = true ↔
      grammar.Derives [.nonterminal nonterminal] []
  unproductive : ∀ nonterminal,
    .unproductive nonterminal ∈ grammar.warnings ↔
      grammar.HasRule nonterminal ∧ ¬ grammar.Productive nonterminal
  unreachable : ∀ nonterminal,
    .unreachable nonterminal ∈ grammar.warnings ↔
      nonterminal < grammar.nonterminals.size ∧ ¬ grammar.Occurs nonterminal
  unused : ∀ terminal,
    .unusedTerminal terminal ∈ grammar.warnings ↔
      terminal < grammar.terminals.size ∧ terminal ≠ Terminal.endOfInput ∧
        terminal ≠ Terminal.errorToken ∧
        ¬ ∃ rule < grammar.rules.size, grammar.Occurs (grammar.left rule) ∧
          .terminal terminal ∈ grammar.right rule
  once : grammar.warnings.Nodup

theorem nodup_warnings (grammar : Grammar) : grammar.warnings.Nodup := by
  have distinct (kind : Nat → GrammarWarning)
      (injective : Function.Injective kind) (test : Nat → Bool) (size : Nat) :
      (((List.range size).filter test).map kind).Nodup :=
    (List.nodup_range.filter _).map injective
  unfold warnings
  refine List.Nodup.append (List.Nodup.append ?_ ?_ ?_) ?_ ?_
  · exact distinct _ (fun _ _ equal => GrammarWarning.unproductive.inj equal)
      _ _
  · exact distinct _ (fun _ _ equal => GrammarWarning.unusedTerminal.inj equal)
      _ _
  · intro warning first second
    obtain ⟨_, -, rfl⟩ := List.mem_map.mp first
    obtain ⟨_, -, equal⟩ := List.mem_map.mp second
    cases equal
  · exact distinct _ (fun _ _ equal => GrammarWarning.unreachable.inj equal) _ _
  · intro warning first second
    obtain ⟨_, -, rfl⟩ := List.mem_map.mp second
    simp at first

theorem WellFormed.diagnosed (wellFormed : grammar.WellFormed) :
    grammar.Diagnosed := by
  constructor
  · exact fun nonterminal => isMarked_nullables wellFormed
  · intro nonterminal
    rw [← mem_unproductiveNonterminals wellFormed]
    simp [warnings]
  · intro nonterminal
    rw [← mem_unreachableNonterminals wellFormed]
    simp [warnings]
  · intro terminal
    rw [← mem_unusedTerminals wellFormed]
    simp [warnings]
  · exact nodup_warnings grammar

end Grammar

namespace Draft

variable {draft : Draft}

/-- No start symbol has been set, and the goal symbol is the only
nonterminal. -/
def Blank (draft : Draft) : Prop :=
  draft.start = none ∧ draft.nonterminals.size = empty.nonterminals.size

/-- The grammar of the draft.  If no start symbol has been set, it is the first
nonterminal that was declared. -/
def candidate (draft : Draft) : Grammar :=
  draft.toGrammar (draft.start.getD 1)

/-- What becomes of a draft when it is finished: each outcome has its own
condition, and the conditions exclude each other. -/
structure Verdict (draft : Draft) (outcome : Except GrammarError Grammar) :
    Prop where
  noNonterminals : outcome = .error .noNonterminals ↔ draft.Blank
  undefined : (∃ name, outcome = .error (.undefinedNonterminal name)) ↔
    ¬ draft.Blank ∧ ¬ draft.candidate.Complete
  undefinedName : ∀ name, outcome = .error (.undefinedNonterminal name) →
    ∃ nonterminal, draft.candidate.Needs nonterminal ∧
      ¬ draft.candidate.HasRule nonterminal ∧
      name = draft.candidate.nonterminalText nonterminal
  unproductive : (∃ name, outcome = .error (.unproductiveStart name)) ↔
    ¬ draft.Blank ∧ draft.candidate.Complete ∧
      ¬ draft.candidate.Productive draft.candidate.start
  unproductiveName : ∀ name, outcome = .error (.unproductiveStart name) →
    name = draft.candidate.nonterminalText draft.candidate.start
  accepted : (∃ grammar, outcome = .ok grammar) ↔
    ¬ draft.Blank ∧ draft.candidate.Complete ∧
      draft.candidate.Productive draft.candidate.start
  grammar : ∀ grammar, outcome = .ok grammar →
    grammar = draft.candidate ∧ grammar.Diagnosed

theorem startSymbol?_eq (wellFormed : draft.WellFormed) :
    (draft.Blank ∧ draft.startSymbol? = none) ∨
      (¬ draft.Blank ∧ draft.startSymbol? = some (draft.start.getD 1)) := by
  have hasGoal : 0 < draft.nonterminals.size := wellFormed.hasGoal
  have one : empty.nonterminals.size = 1 := rfl
  unfold Blank startSymbol?
  rw [one]
  cases draft.start with
  | some start => exact Or.inr ⟨nofun, rfl⟩
  | none =>
      by_cases more : draft.nonterminals.size > 1
      · refine Or.inr ⟨fun blank => ?_, ?_⟩
        · exact absurd blank.2 (Nat.ne_of_gt more)
        · simp [more]
      · refine Or.inl ⟨⟨rfl, by omega⟩, ?_⟩
        simp [more]

theorem needs_candidate_iff {nonterminal : Nat} :
    draft.candidate.Needs nonterminal ↔
      ∃ rule ∈ draft.candidate.rules,
        .nonterminal nonterminal ∈ rule.right := by
  constructor
  · rintro (rfl | used)
    · exact ⟨_, Array.mem_append_left _ (List.mem_toArray.mpr
        (List.mem_singleton_self _)), List.mem_singleton_self _⟩
    · exact used
  · exact Or.inr

/-- The outcome of finishing a draft, and what is known in each case. -/
inductive Finished (draft : Draft) : Except GrammarError Grammar → Prop where
  | blank : draft.Blank → Finished draft (.error .noNonterminals)
  | undefined {nonterminal : Nat} :
      ¬ draft.Blank →
      draft.candidate.Needs nonterminal →
      ¬ draft.candidate.HasRule nonterminal →
      Finished draft (.error (.undefinedNonterminal
        (draft.candidate.nonterminalText nonterminal)))
  | unproductive :
      ¬ draft.Blank → draft.candidate.Complete →
      ¬ draft.candidate.Productive draft.candidate.start →
      Finished draft (.error (.unproductiveStart
        (draft.candidate.nonterminalText draft.candidate.start)))
  | accepted :
      ¬ draft.Blank → draft.candidate.Complete →
      draft.candidate.Productive draft.candidate.start →
      draft.candidate.WellFormed → Finished draft (.ok draft.candidate)

theorem WellFormed.finished (wellFormed : draft.WellFormed) :
    draft.Finished draft.finish := by
  rcases startSymbol?_eq wellFormed with ⟨blank, none⟩ | ⟨named, chosen⟩
  · rw [finish, none]
    exact .blank blank
  · have whole : draft.candidate.WellFormed :=
      wellFormed.toGrammar (wellFormed.startSymbol chosen)
    rw [finish, chosen]
    cases found :
        (draft.toGrammar (draft.start.getD 1)).firstUndefined? with
    | some nonterminal =>
        obtain ⟨needs, lacks⟩ := Grammar.of_firstUndefined? found
        simp only [found]
        exact .undefined named needs lacks
    | none =>
        have complete : draft.candidate.Complete := fun nonterminal needs =>
          Grammar.firstUndefined?_eq_none.mp found nonterminal
            (needs_candidate_iff.mp needs)
        have productive_iff :=
          @Grammar.isMarked_productives _ draft.candidate.start whole
        simp only [found]
        split
        · rename_i marked
          exact .accepted named complete (productive_iff.mp marked) whole
        · rename_i unmarked
          exact .unproductive named complete fun productive =>
            unmarked (productive_iff.mpr productive)

/-- The checks at the end of a definition are exact, and so are the warnings
about a grammar that passes them. -/
theorem finish_verdict [Alphabet] (reachable : draft.Reachable) :
    draft.Verdict draft.finish := by
  have finished := reachable.wellFormed.finished
  generalize draft.finish = outcome at finished
  cases finished with
  | blank blank => constructor <;> simp [blank]
  | @undefined nonterminal named needs lacks =>
      have incomplete : ¬ draft.candidate.Complete :=
        fun complete => lacks (complete nonterminal needs)
      constructor
      · simp [named]
      · exact iff_of_true ⟨_, rfl⟩ ⟨named, incomplete⟩
      · rintro _ ⟨⟩
        exact ⟨nonterminal, needs, lacks, rfl⟩
      all_goals simp [incomplete]
  | unproductive named complete unproductive =>
      constructor
      · simp [named]
      · simp [complete]
      · simp
      · exact iff_of_true ⟨_, rfl⟩ ⟨named, complete, unproductive⟩
      · rintro _ ⟨⟩
        rfl
      · simp [unproductive]
      · simp
  | accepted named complete productive whole =>
      constructor
      · simp [named]
      · simp [complete]
      · simp
      · simp [productive]
      · simp
      · exact iff_of_true ⟨_, rfl⟩ ⟨named, complete, productive⟩
      · rintro _ ⟨⟩
        exact ⟨rfl, whole.diagnosed⟩

/-- The draft of the tangled nonterminals passes the checks; one nonterminal
derives no string of terminals, another one is not reachable. -/
theorem finish_verdict_tangled : ∃ draft : Draft, draft.Reachable ∧
    draft.finish = .ok .tangled ∧ Grammar.tangled = draft.candidate ∧
    Grammar.tangled.Derives [.nonterminal 4] [] ∧
    (Grammar.tangled.HasRule 5 ∧ ¬ Grammar.tangled.Productive 5) ∧
    ¬ Grammar.tangled.Occurs 6 := by
  obtain ⟨draft, reachable, finished⟩ := definable_tangled
  obtain ⟨isCandidate, diagnosed⟩ :=
    (finish_verdict reachable).grammar _ finished
  have productive : Grammar.tangled.productives =
      #[true, true, true, true, true, false, false] := by
    decide +kernel
  have warnings : Grammar.tangled.warnings =
      [.unproductive 5, .unusedTerminal 5, .unreachable 5,
        .unreachable 6] := by
    rw [Grammar.warnings, Grammar.unproductiveNonterminals, productive]
    cbv
  have nullable : Grammar.tangled.nullables.getD 4 false = true := by
    rw [nullables_tangled]
    rfl
  refine ⟨draft, reachable, finished, isCandidate,
    (diagnosed.nullable 4).mp nullable,
    (diagnosed.unproductive 5).mp ?_, ((diagnosed.unreachable 6).mp ?_).2⟩
  · simp [warnings]
  · simp [warnings]

end Draft

end LRTables
