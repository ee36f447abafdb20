import LRTables.Proofs.LeftmostDerivations
import LRTables.Proofs.Reachability
import LRTables.Proofs.SettledNonterminals
import LRTables.Sentences
import Mathlib.Data.List.Lex
import Mathlib.Data.List.Sort

/-!
# Short sentences

The search for short sentences finds, in strictly increasing dictionary order,
those with a leftmost derivation through forms that are short as well.  It
misses no sentence of a grammar in which nothing vanishes, and may miss one
otherwise.
-/

namespace LRTables.Grammar

variable {grammar : Grammar}

theorem splitLeftmost_eq_none {form : List Symbol} :
    splitLeftmost form = none ↔
      ∃ tokens : List Nat, form = tokens.map .terminal := by
  induction form with
  | nil => simp [splitLeftmost]
  | cons symbol rest ih =>
      cases symbol with
      | nonterminal index =>
          simp only [splitLeftmost, reduceCtorEq, false_iff, not_exists]
          intro tokens equal
          cases tokens with
          | nil => cases equal
          | cons => cases equal
      | terminal index =>
          simp only [splitLeftmost, Option.map_eq_none_iff, ih]
          constructor
          · rintro ⟨tokens, rfl⟩
            exact ⟨index :: tokens, rfl⟩
          · rintro ⟨tokens, equal⟩
            cases tokens with
            | nil => cases equal
            | cons token tokens =>
                simp only [List.map_cons, List.cons.injEq] at equal
                exact ⟨tokens, equal.2⟩

theorem splitLeftmost_eq_some {form before after : List Symbol}
    {nonterminal : Nat} :
    splitLeftmost form = some (before, nonterminal, after) ↔
      ∃ tokens : List Nat, before = tokens.map .terminal ∧
        form = before ++ .nonterminal nonterminal :: after := by
  induction form generalizing before with
  | nil => simp [splitLeftmost]
  | cons symbol rest ih =>
      cases symbol with
      | nonterminal index =>
          simp only [splitLeftmost, Option.some.injEq, Prod.mk.injEq]
          constructor
          · rintro ⟨rfl, rfl, rfl⟩
            exact ⟨[], rfl, rfl⟩
          · rintro ⟨tokens, rfl, equal⟩
            cases tokens with
            | nil =>
                cases equal
                exact ⟨rfl, rfl, rfl⟩
            | cons => cases equal
      | terminal index =>
          simp only [splitLeftmost, Option.map_eq_some_iff, Prod.exists,
            Prod.mk.injEq]
          constructor
          · rintro ⟨front, other, back, split, rfl, rfl, rfl⟩
            obtain ⟨tokens, rfl, rfl⟩ := ih.mp split
            exact ⟨index :: tokens, rfl, rfl⟩
          · rintro ⟨tokens, rfl, equal⟩
            cases tokens with
            | nil => cases equal
            | cons token tokens =>
                simp only [List.map_cons, List.cons_append,
                  List.cons.injEq] at equal
                obtain ⟨same, rfl⟩ := equal
                cases same
                exact ⟨_, _, _, ih.mpr ⟨tokens, rfl, rfl⟩, rfl, rfl, rfl⟩

theorem mem_leftmostSteps {nullable : Array Bool} {length : Nat}
    {form next : List Symbol} :
    next ∈ grammar.leftmostSteps nullable length form ↔
      grammar.ProducesFirst form next ∧ weight nullable next ≤ length ∧
        next.length ≤ formLimit length := by
  unfold leftmostSteps
  cases split : splitLeftmost form with
  | none =>
      obtain ⟨tokens, rfl⟩ := splitLeftmost_eq_none.mp split
      simp only [List.not_mem_nil, false_iff, not_and]
      intro step
      generalize equal : tokens.map Symbol.terminal = form at step
      cases step with
      | @replace front after rule valid =>
          have member : Symbol.nonterminal (grammar.left rule) ∈
              tokens.map Symbol.terminal := by
            rw [equal]
            exact List.mem_append_right _ List.mem_cons_self
          simp at member
  | some parts =>
      obtain ⟨before, nonterminal, after⟩ := parts
      obtain ⟨tokens, rfl, rfl⟩ := splitLeftmost_eq_some.mp split
      simp only [List.mem_filter, List.mem_map, Bool.and_eq_true,
        decide_eq_true_eq, mem_rulesOf]
      apply and_congr_left'
      constructor
      · rintro ⟨rule, ⟨valid, rfl⟩, rfl⟩
        exact .replace tokens after valid
      · intro step
        generalize equal : tokens.map Symbol.terminal ++
          .nonterminal nonterminal :: after = form at step split
        cases step with
        | @replace front back rule valid =>
            have again : splitLeftmost (front.map .terminal ++
                .nonterminal (grammar.left rule) :: back) =
              some (front.map .terminal, grammar.left rule, back) :=
              splitLeftmost_eq_some.mpr ⟨front, rfl, rfl⟩
            rw [again] at split
            simp only [Option.some.injEq, Prod.mk.injEq] at split
            obtain ⟨same, rfl, rfl⟩ := split
            exact ⟨rule, ⟨valid, rfl⟩, by rw [same]⟩

@[simp] theorem tokens?_nil : tokens? [] = some [] :=
  rfl

@[simp] theorem tokens?_terminal {index : Nat} {rest : List Symbol} :
    tokens? (.terminal index :: rest) = (tokens? rest).map (index :: ·) := by
  simp [tokens?, Option.map_eq_bind]

@[simp] theorem tokens?_nonterminal {index : Nat} {rest : List Symbol} :
    tokens? (.nonterminal index :: rest) = none := by
  simp [tokens?]

theorem tokens?_eq_some {form : List Symbol} {tokens : List Nat} :
    tokens? form = some tokens ↔ form = tokens.map .terminal := by
  induction form generalizing tokens with
  | nil => cases tokens <;> simp
  | cons symbol rest ih =>
      cases symbol with
      | nonterminal index => cases tokens <;> simp
      | terminal index =>
          simp only [tokens?_terminal, Option.map_eq_some_iff, ih]
          cases tokens with
          | nil => simp
          | cons token tokens => simp [and_comm]

theorem weight_cons_le (nullable : Array Bool) (symbol : Symbol)
    (rest : List Symbol) :
    weight nullable (symbol :: rest) ≤ weight nullable rest + 1 := by
  unfold weight
  rw [List.countP_cons]
  apply Nat.add_le_add_left
  cases symbol with
  | terminal index => exact Nat.le_refl 1
  | nonterminal index =>
      show (if (!nullable.getD index false) = true then 1 else 0) ≤ 1
      split
      · exact Nat.le_refl 1
      · exact Nat.zero_le 1

theorem weight_cons_of_nullable {nullable : Array Bool} {nonterminal : Nat}
    (marked : IsMarked nullable nonterminal) (rest : List Symbol) :
    weight nullable (.nonterminal nonterminal :: rest) =
      weight nullable rest := by
  have weightless : nullable.getD nonterminal false = true := marked
  apply List.countP_cons_of_neg
  simp only [weightless]
  decide

theorem weight_tokens (nullable : Array Bool) (tokens : List Nat) :
    weight nullable (tokens.map .terminal) = tokens.length := by
  simp [weight, List.countP_map, Function.comp_def]

/-- Every symbol that cannot vanish yields at least one token. -/
theorem weight_le_of_derives (wellFormed : grammar.WellFormed)
    {form : List Symbol} {tokens : List Nat}
    (derives : grammar.Derives form (tokens.map .terminal)) :
    weight grammar.nullables form ≤ tokens.length := by
  have expands := expands_iff_derives.mpr derives
  clear derives
  have length : tokens.length = (tokens.map Symbol.terminal).length := by simp
  rw [length]
  generalize tokens.map Symbol.terminal = target at expands
  clear length
  induction expands with
  | nil => exact Nat.le_refl _
  | keep symbol _ ih =>
      have step := weight_cons_le grammar.nullables symbol
      simp only [List.length_cons]
      exact (step _).trans (Nat.succ_le_succ ih)
  | @replace rule rest front back valid head _ _ tailIh =>
      rw [List.length_append]
      cases front with
      | nil =>
          have vanishes : grammar.Vanishes [.nonterminal (grammar.left rule)] :=
            (Derives.single valid).trans head.derives
          rw [weight_cons_of_nullable
            ((isMarked_nullables wellFormed).mpr vanishes)]
          simpa using tailIh
      | cons symbol front =>
          have step := weight_cons_le grammar.nullables
            (.nonterminal (grammar.left rule)) rest
          simp only [List.length_cons]
          omega

/-- All forms of at most so many symbols. -/
def formsUpTo (symbols : List Symbol) : Nat → List (List Symbol)
  | 0 => [[]]
  | length + 1 =>
    [] :: (formsUpTo symbols length).flatMap fun form =>
      symbols.map (· :: form)

theorem mem_formsUpTo {symbols form : List Symbol} {length : Nat}
    (declared : ∀ symbol ∈ form, symbol ∈ symbols)
    (short : form.length ≤ length) : form ∈ formsUpTo symbols length := by
  induction length generalizing form with
  | zero =>
      cases form with
      | nil => simp [formsUpTo]
      | cons => simp at short
  | succ length ih =>
      cases form with
      | nil => simp [formsUpTo]
      | cons symbol rest =>
          apply List.mem_cons_of_mem
          apply List.mem_flatMap.mpr
          refine ⟨rest, ih ?_ (by simpa using short), ?_⟩
          · exact fun other member =>
              declared other (List.mem_cons_of_mem _ member)
          · exact List.mem_map.mpr
              ⟨symbol, declared symbol List.mem_cons_self, rfl⟩

theorem length_formsUpTo_succ (symbols : List Symbol) (length : Nat) :
    (formsUpTo symbols (length + 1)).length =
      (formsUpTo symbols length).length * symbols.length + 1 := by
  simp [formsUpTo, List.length_flatMap]

theorem length_formsUpTo_le (symbols : List Symbol) (length : Nat) :
    (formsUpTo symbols length).length ≤ (symbols.length + 1) ^ length := by
  induction length with
  | zero => simp [formsUpTo]
  | succ length ih =>
      have positive : 0 < (symbols.length + 1) ^ length :=
        Nat.pow_pos (Nat.succ_pos _)
      have step := Nat.mul_le_mul_right symbols.length ih
      rw [length_formsUpTo_succ, Nat.pow_succ, Nat.mul_succ]
      omega

theorem length_formsUpTo_lt {symbols : List Symbol} (some : symbols ≠ [])
    (length : Nat) :
    (formsUpTo symbols (length + 2)).length <
      (symbols.length + 1) ^ (length + 2) := by
  have positive := List.length_pos_iff.mpr some
  have power : 1 < (symbols.length + 1) ^ (length + 1) :=
    Nat.one_lt_pow (by omega) (by omega)
  have step := Nat.mul_le_mul_right symbols.length
    (length_formsUpTo_le symbols (length + 1))
  rw [length_formsUpTo_succ, Nat.pow_succ, Nat.mul_succ]
  omega

/-- All declared symbols. -/
def symbols (grammar : Grammar) : List Symbol :=
  (List.range grammar.terminals.size).map .terminal ++
    (List.range grammar.nonterminals.size).map .nonterminal

theorem mem_symbols {symbol : Symbol} :
    symbol ∈ grammar.symbols ↔ grammar.Declares symbol := by
  cases symbol <;> simp [symbols, Declares]

/-- The search has room for all forms of declared symbols. -/
theorem length_formsUpTo_symbols (wellFormed : grammar.WellFormed)
    (length : Nat) :
    (formsUpTo grammar.symbols (formLimit length)).length <
      2 ^ grammar.formBits length := by
  have last : .terminal Terminal.endOfInput ∈ grammar.symbols :=
    mem_symbols.mpr wellFormed.hasEnd
  have some : grammar.symbols ≠ [] := List.ne_nil_of_mem last
  have size : grammar.symbols.length =
      grammar.terminals.size + grammar.nonterminals.size := by
    simp [symbols]
  have fits : grammar.symbols.length + 1 ≤
      2 ^ (grammar.symbols.length.log2 + 1) :=
    Nat.lt_log2_self
  calc
    _ < (grammar.symbols.length + 1) ^ formLimit length :=
      length_formsUpTo_lt some (2 * length)
    _ ≤ (2 ^ (grammar.symbols.length.log2 + 1)) ^ formLimit length :=
      Nat.pow_le_pow_left fits _
    _ = 2 ^ grammar.formBits length := by
      rw [← Nat.pow_mul, Nat.mul_comm, size, formBits]

/-- A derivation that the search follows. -/
def Followed (grammar : Grammar) (length : Nat) :
    List Symbol → List Symbol → Prop :=
  Relation.ReflTransGen fun form next =>
    next ∈ grammar.leftmostSteps grammar.nullables length form

theorem Followed.declared (wellFormed : grammar.WellFormed) {length : Nat}
    {form : List Symbol}
    (followed : grammar.Followed length [.nonterminal grammar.start] form) :
    ∀ symbol ∈ form, grammar.Declares symbol := by
  have start := wellFormed.right_declared goalRule
  rw [wellFormed.right_goalRule] at start
  induction followed with
  | refl => exact start
  | tail _ step ih =>
      obtain ⟨produces, -, -⟩ := mem_leftmostSteps.mp step
      cases produces with
      | @replace tokens after rule valid =>
          intro symbol member
          simp only [List.append_assoc, List.mem_append] at member
          obtain before | right | back := member
          · exact ih symbol (List.mem_append_left _ before)
          · exact wellFormed.right_declared rule symbol right
          · exact ih symbol
              (List.mem_append_right _ (List.mem_cons_of_mem _ back))

theorem Followed.length_le {length : Nat} {form : List Symbol}
    (followed : grammar.Followed length [.nonterminal grammar.start] form) :
    form.length ≤ formLimit length := by
  cases followed with
  | refl => simp [formLimit]
  | tail _ step => exact (mem_leftmostSteps.mp step).2.2

theorem mem_forms (wellFormed : grammar.WellFormed) {length : Nat}
    {form : List Symbol} :
    form ∈ discover (grammar.leftmostSteps grammar.nullables length)
        (grammar.formBits length) [[.nonterminal grammar.start]] ↔
      grammar.Followed length [.nonterminal grammar.start] form := by
  have inDomain : ∀ other,
      ReachedFrom (grammar.leftmostSteps grammar.nullables length)
        [[.nonterminal grammar.start]] other →
      other ∈ formsUpTo grammar.symbols (formLimit length) := by
    intro other reached
    obtain ⟨root, member, path⟩ := reached
    rw [List.mem_singleton] at member
    subst member
    have followed : grammar.Followed length _ other := path
    apply mem_formsUpTo
    · intro symbol inOther
      exact mem_symbols.mpr (followed.declared wellFormed symbol inOther)
    · exact followed.length_le
  rw [mem_discover inDomain (length_formsUpTo_symbols wellFormed length)]
  simp [ReachedFrom, Followed]

/-- The search drops no form for its weight on the way to a short token
string. -/
theorem followed_iff (wellFormed : grammar.WellFormed) {length : Nat}
    {form : List Symbol} {tokens : List Nat}
    (short : tokens.length ≤ length) :
    grammar.Followed length form (tokens.map .terminal) ↔
      grammar.LeftmostWithin (formLimit length) form
        (tokens.map .terminal) := by
  constructor
  · intro followed
    refine Relation.ReflTransGen.mono ?_ _ _ followed
    intro source next step
    obtain ⟨produces, -, bounded⟩ := mem_leftmostSteps.mp step
    exact ⟨produces, bounded⟩
  · intro within
    induction within using Relation.ReflTransGen.head_induction_on with
    | refl => exact .refl
    | head step rest ih =>
        have derives := (LeftmostWithin.leftmost rest).derives
        have light := weight_le_of_derives wellFormed derives
        exact .head
          (mem_leftmostSteps.mpr ⟨step.1, light.trans short, step.2⟩) ih

theorem Followed.length_tokens_le {length : Nat} {tokens : List Nat}
    (followed : grammar.Followed length [.nonterminal grammar.start]
      (tokens.map .terminal)) : tokens.length ≤ length := by
  generalize equal : tokens.map Symbol.terminal = form at followed
  cases followed with
  | refl =>
      cases tokens with
      | nil => cases equal
      | cons => cases equal
  | tail _ step =>
      have light := (mem_leftmostSteps.mp step).2.1
      rwa [← equal, weight_tokens] at light

theorem inOrder_iff {left right : List Nat} :
    inOrder left right = true ↔ left ≤ right := by
  induction left generalizing right with
  | nil =>
      have least : [] ≤ right := not_lt.mp (List.not_lt_nil right)
      simp [inOrder, least]
  | cons token rest ih =>
      cases right with
      | nil =>
          have greater : [] < token :: rest := List.nil_lt_cons token rest
          simp [inOrder, greater]
      | cons other others =>
          have less : other :: others < token :: rest ↔
              other < token ∨ other = token ∧ others < rest :=
            List.cons_lt_cons_iff
          rw [← not_lt, less, ← not_le (a := rest), ← ih]
          simp only [inOrder, Bool.or_eq_true, decide_eq_true_eq,
            Bool.and_eq_true, beq_iff_eq]
          rcases Nat.lt_trichotomy token other with below | rfl | above
          · simp [below, below.not_gt, below.ne']
          · simp
          · simp [above, above.not_gt, above.ne']

theorem nodup_sentences (grammar : Grammar) (length : Nat) :
    (grammar.sentences length).Nodup := by
  have perm := List.mergeSort_perm
    ((discover (grammar.leftmostSteps grammar.nullables length)
      (grammar.formBits length)
      [[.nonterminal grammar.start]]).toList.filterMap tokens?) inOrder
  apply perm.nodup_iff.mpr
  apply List.Nodup.filterMap _ (nodup_discover _ _ _)
  intro form other tokens ofForm ofOther
  rw [tokens?_eq_some.mp ofForm, tokens?_eq_some.mp ofOther]

theorem pairwise_sentences (grammar : Grammar) (length : Nat) :
    (grammar.sentences length).Pairwise (· < ·) := by
  have sorted : (grammar.sentences length).Pairwise
      fun left right => inOrder left right = true := by
    apply List.pairwise_mergeSort
    · intro first second third before after
      rw [inOrder_iff] at before after ⊢
      exact le_trans before after
    · intro left right
      rw [Bool.or_eq_true, inOrder_iff, inOrder_iff]
      exact le_total left right
  have distinct := nodup_sentences grammar length
  apply (sorted.and distinct).imp
  intro left right both
  exact lt_of_le_of_ne (inOrder_iff.mp both.1) both.2

theorem mem_sentences (wellFormed : grammar.WellFormed) {length : Nat}
    {tokens : List Nat} :
    tokens ∈ grammar.sentences length ↔
      tokens.length ≤ length ∧
        grammar.LeftmostWithin (formLimit length)
          [.nonterminal grammar.start] (tokens.map .terminal) := by
  have found : tokens ∈ grammar.sentences length ↔
      grammar.Followed length [.nonterminal grammar.start]
        (tokens.map .terminal) := by
    simp only [sentences, List.mem_mergeSort, List.mem_filterMap,
      Array.mem_toList_iff, tokens?_eq_some, exists_eq_right,
      mem_forms wellFormed]
  rw [found]
  constructor
  · intro followed
    have short := followed.length_tokens_le
    exact ⟨short, (followed_iff wellFormed short).mp followed⟩
  · intro both
    obtain ⟨short, within⟩ := both
    exact (followed_iff wellFormed short).mpr within

/-- The search lists, in strictly increasing dictionary order, the sentences of
at most `length` tokens with a leftmost derivation in which no form has more
than `2 * length + 2` symbols. -/
theorem sentences_exact (accepted : grammar.Accepted) (length : Nat) :
    (grammar.sentences length).Pairwise (· < ·) ∧
      ∀ tokens, tokens ∈ grammar.sentences length ↔
        tokens.length ≤ length ∧
          grammar.LeftmostWithin (formLimit length)
            [.nonterminal grammar.start] (tokens.map .terminal) :=
  ⟨pairwise_sentences grammar length,
    fun _ => mem_sentences accepted.wellFormed⟩

/-- The search misses no short sentence of a grammar in which nothing
vanishes. -/
theorem mem_sentences_of_solid (accepted : grammar.Accepted)
    (solid : ∀ nonterminal, ¬ grammar.Vanishes [.nonterminal nonterminal])
    {length : Nat} {tokens : List Nat} :
    tokens ∈ grammar.sentences length ↔
      tokens.length ≤ length ∧
        grammar.Derives [.nonterminal grammar.start]
          (tokens.map .terminal) := by
  rw [mem_sentences accepted.wellFormed]
  apply and_congr_right
  intro short
  constructor
  · intro within
    exact within.leftmost.derives
  · intro derives
    apply LeftmostWithin.of_leftmost (Leftmost.of_derives derives)
    intro other derivesTokens
    have bounded := length_le_of_derives solid derivesTokens
    rw [List.length_map] at bounded
    unfold formLimit
    omega

end LRTables.Grammar

namespace LRTables

/-- Nothing, by way of three symbols that vanish. -/
def Sample.hollow : Sample :=
  { terminals := []
    nonterminals := ["S", "A"]
    rules :=
      [("S", ["A", "A", "A"]),
       ("A", [])]
    expect := none }

def Grammar.hollow : Grammar :=
  { terminals :=
      #[{ name := "$end", precedence := none, quoted := false },
        { name := "error", precedence := none, quoted := false }]
    nonterminals := #["$accept", "S", "A"]
    rules :=
      #[{ left := goalSymbol
          right := [.nonterminal 1]
          override := none
          hasCode := false },
        { left := 1
          right := [.nonterminal 2, .nonterminal 2, .nonterminal 2]
          override := none
          hasCode := false },
        { left := 2
          right := []
          override := none
          hasCode := false }]
    start := 1
    expect := none }

theorem accepted_hollow : Grammar.hollow.Accepted := by
  apply Sample.accepted
  show Sample.hollow.grammar = .ok Grammar.hollow
  decide +kernel

/-- The empty sentence is missed: three symbols are more than the search
allows on the way to no token. -/
theorem sentences_hollow :
    Grammar.hollow.sentences 0 = [] ∧
      Grammar.hollow.Derives [.nonterminal Grammar.hollow.start] [] := by
  constructor
  · cbv
  · have vanishes : Grammar.IsMarked Grammar.hollow.nullables
        Grammar.hollow.start := by
      decide +kernel
    exact (Grammar.isMarked_nullables accepted_hollow.wellFormed).mp vanishes

end LRTables
