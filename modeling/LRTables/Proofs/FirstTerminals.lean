import LRTables.FirstSets
import LRTables.Proofs.ComponentUnions
import LRTables.Proofs.SettledNonterminals

/-!
# First terminals

`FirstSets.heads` tells exactly which terminals can begin what a list of
symbols derives, and whether the list can vanish.
-/

namespace LRTables

theorem TerminalSet.mem_foldl_union {values : List TerminalSet}
    {initial : TerminalSet} {terminal : Nat} :
    terminal ∈ values.foldl (· ∪ ·) initial ↔
      terminal ∈ initial ∨ ∃ value ∈ values, terminal ∈ value := by
  induction values generalizing initial with
  | nil => simp
  | cons value rest ih =>
      rw [List.foldl_cons, ih]
      simp [or_assoc]

theorem TerminalSet.mem_ofList {terminals : List Nat} {terminal : Nat} :
    terminal ∈ ofList terminals ↔ terminal ∈ terminals := by
  have general : ∀ (initial : TerminalSet),
      terminal ∈ terminals.foldl insert initial ↔
        terminal ∈ initial ∨ terminal ∈ terminals := by
    induction terminals with
    | nil => simp
    | cons first rest ih =>
        intro initial
        rw [List.foldl_cons, ih, mem_insert, List.mem_cons, or_assoc]
  rw [ofList, general]
  simp

theorem Digraph.mem_unions {size : Nat}
    {edges : Fin size → List (Fin size)} {values : Vector TerminalSet size}
    (node : Fin size) {terminal : Nat} :
    terminal ∈ (unions TerminalSet.union edges values).get node ↔
      ∃ other, Reaches edges node other ∧ terminal ∈ values.get other := by
  obtain ⟨nodes, reached⟩ := exists_reached edges node
  have value : (unions TerminalSet.union edges values).get node =
      (nodes.map fun other => values.get other).foldl (· ∪ ·)
        (values.get node) := by
    rw [List.foldl_map]
    exact get_unionsIn TerminalSet.union values List.mem_finRange reached
  rw [value, TerminalSet.mem_foldl_union]
  simp only [List.mem_map, exists_exists_and_eq_and, reached]
  constructor
  · rintro (own | ⟨other, reaches, member⟩)
    · exact ⟨node, .refl, own⟩
    · exact ⟨other, reaches, member⟩
  · exact Or.inr

namespace FirstSets

variable {grammar : Grammar}

/-- The sets say what the grammar derives. -/
structure Exact (grammar : Grammar) (first : FirstSets) : Prop where
  begins : ∀ symbols : List Symbol,
    (∀ symbol ∈ symbols, grammar.Declares symbol) → ∀ terminal,
      terminal ∈ (first.heads symbols).1 ↔ grammar.Begins symbols terminal
  vanishes : ∀ symbols : List Symbol,
    (∀ symbol ∈ symbols, grammar.Declares symbol) →
      ((first.heads symbols).2 = true ↔ grammar.Vanishes symbols)

theorem leading_subset {nullable : Array Bool} {symbols : List Symbol} :
    ∀ symbol ∈ leading nullable symbols, symbol ∈ symbols := by
  intro symbol member
  induction symbols with
  | nil => cases member
  | cons head rest ih =>
      cases head with
      | terminal index =>
          rw [leading, List.mem_singleton] at member
          exact member ▸ List.mem_cons_self
      | nonterminal index =>
          rw [leading, List.mem_cons] at member
          rcases member with rfl | later
          · exact List.mem_cons_self
          · split at later
            · exact List.mem_cons_of_mem _ (ih later)
            · cases later

/-- What a leading symbol begins with, the whole list begins with. -/
theorem begins_of_leading (wellFormed : grammar.WellFormed)
    {symbols : List Symbol} {symbol : Symbol} {terminal : Nat}
    (member : symbol ∈ leading grammar.nullables symbols)
    (begins : grammar.Begins [symbol] terminal) :
    grammar.Begins symbols terminal := by
  induction symbols with
  | nil => cases member
  | cons head rest ih =>
      show grammar.Begins ([head] ++ rest) terminal
      rw [Grammar.begins_append]
      cases head with
      | terminal index =>
          rw [leading, List.mem_singleton] at member
          subst member
          exact Or.inl begins
      | nonterminal index =>
          rw [leading, List.mem_cons] at member
          rcases member with rfl | later
          · exact Or.inl begins
          · split at later
            · rename_i nullable
              exact Or.inr
                ⟨(Grammar.isMarked_nullables wellFormed).mp nullable, ih later⟩
            · cases later

/-- Whatever a list begins with, it owes to a leading symbol: the terminal
itself, or the right-hand side of a nonterminal with a shorter derivation. -/
theorem leading_of_expands (wellFormed : grammar.WellFormed)
    {symbols form rest : List Symbol} {terminal : Nat}
    (reached : Nat → Prop) (expands : grammar.Expands symbols form)
    (begins : form = .terminal terminal :: rest)
    (terminals : ∀ nonterminal,
      .terminal terminal ∈ leadingOf grammar grammar.nullables nonterminal →
        reached nonterminal)
    (nonterminals : ∀ nonterminal other,
      .nonterminal other ∈ leadingOf grammar grammar.nullables nonterminal →
        reached other → reached nonterminal) :
    .terminal terminal ∈ leading grammar.nullables symbols ∨
      ∃ nonterminal,
        .nonterminal nonterminal ∈ leading grammar.nullables symbols ∧
          reached nonterminal := by
  induction expands generalizing rest with
  | nil => cases begins
  | keep symbol _ _ =>
      cases begins
      exact Or.inl List.mem_cons_self
  | @replace rule tail front back valid head _ headIh tailIh =>
      have member : rule ∈ grammar.rulesOf (grammar.left rule) :=
        Grammar.mem_rulesOf.mpr ⟨valid, rfl⟩
      cases front with
      | nil =>
          have nullable : grammar.nullables.getD (grammar.left rule) false =
              true :=
            (Grammar.isMarked_nullables wellFormed).mpr
              (Grammar.vanishes_nonterminal.mpr ⟨rule, member, head.derives⟩)
          have later : ∀ symbol ∈ leading grammar.nullables tail,
              symbol ∈ leading grammar.nullables
                (.nonterminal (grammar.left rule) :: tail) := by
            intro symbol symbolMember
            rw [leading, if_pos nullable]
            exact List.mem_cons_of_mem _ symbolMember
          rcases tailIh begins with onTerminal | ⟨nonterminal, found, done⟩
          · exact Or.inl (later _ onTerminal)
          · exact Or.inr ⟨nonterminal, later _ found, done⟩
      | cons symbol front =>
          rw [List.cons_append, List.cons.injEq] at begins
          obtain ⟨rfl, -⟩ := begins
          refine Or.inr ⟨grammar.left rule, List.mem_cons_self, ?_⟩
          have own : ∀ other ∈ leading grammar.nullables (grammar.right rule),
              other ∈ leadingOf grammar grammar.nullables
                (grammar.left rule) :=
            fun other found => List.mem_flatMap.mpr ⟨rule, member, found⟩
          rcases headIh rfl with onTerminal | ⟨nonterminal, found, done⟩
          · exact terminals _ (own _ onTerminal)
          · exact nonterminals _ nonterminal (own _ found) done

theorem mem_terminalsOf {symbols : List Symbol} {terminal : Nat} :
    terminal ∈ terminalsOf symbols ↔ Symbol.terminal terminal ∈ symbols := by
  rw [terminalsOf, TerminalSet.mem_ofList, List.mem_filterMap]
  constructor
  · rintro ⟨symbol, member, equal⟩
    cases symbol with
    | terminal index =>
        cases equal
        exact member
    | nonterminal index => cases equal
  · intro member
    exact ⟨_, member, rfl⟩

theorem mem_nonterminalsOf {count : Nat} {symbols : List Symbol}
    {nonterminal : Fin count} :
    nonterminal ∈ nonterminalsOf count symbols ↔
      Symbol.nonterminal nonterminal ∈ symbols := by
  rw [nonterminalsOf, List.mem_filterMap]
  constructor
  · rintro ⟨symbol, member, equal⟩
    cases symbol with
    | terminal index => cases equal
    | nonterminal index =>
        obtain ⟨declared, same⟩ := Option.dite_none_right_eq_some.mp equal
        cases same
        exact member
  · intro member
    exact ⟨_, member, dif_pos nonterminal.isLt⟩

/-- The leading terminals of each nonterminal. -/
def leadingTerminals (grammar : Grammar) :
    Vector TerminalSet grammar.nonterminals.size :=
  .ofFn fun nonterminal =>
    terminalsOf (leadingOf grammar grammar.nullables nonterminal)

/-- The leading nonterminals of a nonterminal. -/
def leadingNonterminals (grammar : Grammar)
    (nonterminal : Fin grammar.nonterminals.size) :
    List (Fin grammar.nonterminals.size) :=
  nonterminalsOf _ (leadingOf grammar grammar.nullables nonterminal)

theorem first_ofGrammar :
    (ofGrammar grammar).first =
      (Digraph.unions TerminalSet.union (leadingNonterminals grammar)
        (leadingTerminals grammar)).toArray :=
  rfl

theorem mem_leadingTerminals {nonterminal : Fin grammar.nonterminals.size}
    {terminal : Nat} :
    terminal ∈ (leadingTerminals grammar).get nonterminal ↔
      .terminal terminal ∈
        leadingOf grammar grammar.nullables nonterminal := by
  have value : (leadingTerminals grammar).get nonterminal =
      terminalsOf (leadingOf grammar grammar.nullables nonterminal) :=
    Vector.getElem_ofFn nonterminal.isLt
  rw [value, mem_terminalsOf]

theorem mem_leadingNonterminals
    {nonterminal other : Fin grammar.nonterminals.size} :
    other ∈ leadingNonterminals grammar nonterminal ↔
      .nonterminal other ∈
        leadingOf grammar grammar.nullables nonterminal :=
  mem_nonterminalsOf

section Leading

variable (wellFormed : grammar.WellFormed)

include wellFormed in
theorem declared_of_mem_leadingOf {nonterminal : Nat} {symbol : Symbol}
    (member : symbol ∈ leadingOf grammar grammar.nullables nonterminal) :
    nonterminal < grammar.nonterminals.size := by
  obtain ⟨rule, ruleMember, -⟩ := List.mem_flatMap.mp member
  rw [← (Grammar.mem_rulesOf.mp ruleMember).2]
  exact wellFormed.left_declared rule

include wellFormed in
theorem begins_of_mem_leadingOf {nonterminal terminal : Nat} {symbol : Symbol}
    (member : symbol ∈ leadingOf grammar grammar.nullables nonterminal)
    (begins : grammar.Begins [symbol] terminal) :
    grammar.Begins [.nonterminal nonterminal] terminal := by
  obtain ⟨rule, ruleMember, found⟩ := List.mem_flatMap.mp member
  exact Grammar.begins_nonterminal.mpr
    ⟨rule, ruleMember, begins_of_leading wellFormed found begins⟩

include wellFormed in
/-- A nonterminal begins with the leading terminals of all to which it leads;
the path is followed backward. -/
theorem begins_of_reaches {nonterminal other : Fin grammar.nonterminals.size}
    {terminal : Nat}
    (reaches : Digraph.Reaches (leadingNonterminals grammar) nonterminal other)
    (member : .terminal terminal ∈
      leadingOf grammar grammar.nullables other) :
    grammar.Begins [.nonterminal nonterminal] terminal := by
  induction reaches using Relation.ReflTransGen.head_induction_on with
  | refl =>
      exact begins_of_mem_leadingOf wellFormed member
        (Grammar.begins_terminal.mpr rfl)
  | head edge _ ih =>
      exact begins_of_mem_leadingOf wellFormed
        (mem_leadingNonterminals.mp edge) ih

include wellFormed in
/-- Whatever a nonterminal begins with is a leading terminal of one to which it
leads. -/
theorem exists_reaches_of_begins
    (nonterminal : Fin grammar.nonterminals.size) {terminal : Nat}
    (begins : grammar.Begins [.nonterminal nonterminal] terminal) :
    ∃ other : Fin grammar.nonterminals.size,
      Digraph.Reaches (leadingNonterminals grammar) nonterminal other ∧
        .terminal terminal ∈ leadingOf grammar grammar.nullables other := by
  obtain ⟨rest, derives⟩ := begins
  have found := leading_of_expands wellFormed
    (fun source => ∃ start other : Fin grammar.nonterminals.size,
      start.val = source ∧
        Digraph.Reaches (leadingNonterminals grammar) start other ∧
          .terminal terminal ∈ leadingOf grammar grammar.nullables other)
    (Grammar.expands_iff_derives.mpr derives) rfl
    (fun source member => by
      have declared := declared_of_mem_leadingOf wellFormed member
      exact ⟨⟨source, declared⟩, _, rfl, .refl, member⟩)
    (fun source next member => by
      rintro ⟨start, other, rfl, reaches, otherMember⟩
      have declared := declared_of_mem_leadingOf wellFormed member
      exact ⟨⟨source, declared⟩, other, rfl,
        .head (mem_leadingNonterminals.mpr member) reaches, otherMember⟩)
  rcases found with onTerminal | ⟨index, member, start, other, rfl, reaches⟩
  · have equal := leading_subset _ onTerminal
    rw [List.mem_singleton] at equal
    cases equal
  · have equal := leading_subset _ member
    rw [List.mem_singleton, Symbol.nonterminal.injEq, Fin.val_inj] at equal
    exact ⟨other, equal ▸ reaches⟩

end Leading

/-- The set of a nonterminal holds the terminals with which it can begin. -/
theorem mem_first_ofGrammar (wellFormed : grammar.WellFormed)
    {nonterminal terminal : Nat}
    (declared : nonterminal < grammar.nonterminals.size) :
    terminal ∈ (ofGrammar grammar).first.getD nonterminal ∅ ↔
      grammar.Begins [.nonterminal nonterminal] terminal := by
  have value : (ofGrammar grammar).first.getD nonterminal ∅ =
      (Digraph.unions TerminalSet.union (leadingNonterminals grammar)
        (leadingTerminals grammar))[nonterminal] := by
    rw [first_ofGrammar]
    simp [Array.getD, declared]
  let node : Fin grammar.nonterminals.size := ⟨nonterminal, declared⟩
  rw [value]
  refine Iff.trans (Digraph.mem_unions node) ⟨?_, ?_⟩
  · rintro ⟨other, reaches, member⟩
    exact begins_of_reaches wellFormed reaches
      (mem_leadingTerminals.mp member)
  · intro begins
    obtain ⟨other, reaches, member⟩ :=
      exists_reaches_of_begins wellFormed node begins
    exact ⟨other, reaches, mem_leadingTerminals.mpr member⟩

theorem heads_ofGrammar (wellFormed : grammar.WellFormed)
    {symbols : List Symbol}
    (declared : ∀ symbol ∈ symbols, grammar.Declares symbol) :
    (∀ terminal, terminal ∈ ((ofGrammar grammar).heads symbols).1 ↔
        grammar.Begins symbols terminal) ∧
      (((ofGrammar grammar).heads symbols).2 = true ↔
        grammar.Vanishes symbols) := by
  induction symbols with
  | nil =>
      constructor
      · intro terminal
        simp [heads, Grammar.not_begins_nil]
      · simp [heads, Grammar.Vanishes.nil]
  | cons symbol rest ih =>
      obtain ⟨restBegins, restVanishes⟩ := ih fun other member =>
        declared other (List.mem_cons_of_mem _ member)
      cases symbol with
      | terminal index =>
          constructor
          · intro terminal
            simp [heads, Grammar.begins_terminal]
          · simp [heads, Grammar.not_vanishes_terminal]
      | nonterminal index =>
          have own : ∀ terminal,
              terminal ∈ (ofGrammar grammar).first.getD index ∅ ↔
                grammar.Begins [.nonterminal index] terminal := fun terminal =>
            mem_first_ofGrammar wellFormed (declared _ List.mem_cons_self)
          have nullable : (ofGrammar grammar).nullable.getD index false =
                true ↔
              grammar.Vanishes [.nonterminal index] :=
            Grammar.isMarked_nullables wellFormed
          have split : (Symbol.nonterminal index :: rest) =
              [.nonterminal index] ++ rest := rfl
          rw [split]
          simp only [Grammar.begins_append, Grammar.vanishes_append,
            ← own, ← nullable, ← restBegins, ← restVanishes]
          rw [List.singleton_append, heads]
          by_cases vanishes :
              (ofGrammar grammar).nullable.getD index false = true
          · simp [vanishes]
          · simp [vanishes]

theorem exact_ofGrammar (wellFormed : grammar.WellFormed) :
    (ofGrammar grammar).Exact grammar := by
  constructor
  · intro symbols declared
    exact (heads_ofGrammar wellFormed declared).1
  · intro symbols declared
    exact (heads_ofGrammar wellFormed declared).2

/-- For every list of symbols of an accepted grammar, `heads` gives the
terminals with which a form derived from the list can begin, and tells whether
the list derives the empty form. -/
theorem heads_exact (accepted : grammar.Accepted) {symbols : List Symbol}
    (declared : ∀ symbol ∈ symbols, grammar.Declares symbol) :
    (∀ terminal, terminal ∈ ((ofGrammar grammar).heads symbols).1 ↔
        ∃ rest, grammar.Derives symbols (.terminal terminal :: rest)) ∧
      (((ofGrammar grammar).heads symbols).2 = true ↔
        grammar.Derives symbols []) := by
  have exact := exact_ofGrammar accepted.wellFormed
  exact ⟨exact.begins symbols declared, exact.vanishes symbols declared⟩

end FirstSets

/-- Nonterminals that begin with themselves or with each other, that can
vanish, that derive no string of terminals, and one that has no rule. -/
def Sample.tangled : Sample :=
  { terminals := plain ["a", "b", "c", "d"]
    nonterminals := ["S", "A", "B", "C", "U", "V"]
    rules :=
      [("S", ["A", "B", "c"]),
       ("A", ["A", "a"]),
       ("A", []),
       ("B", ["C", "b"]),
       ("B", ["A"]),
       ("C", ["B"]),
       ("U", ["A", "U"])]
    expect := none }

def Grammar.tangled : Grammar :=
  { terminals :=
      #[{ name := "$end", precedence := none, quoted := false },
        { name := "error", precedence := none, quoted := false },
        { name := "a", precedence := none, quoted := false },
        { name := "b", precedence := none, quoted := false },
        { name := "c", precedence := none, quoted := false },
        { name := "d", precedence := none, quoted := false }]
    nonterminals := #["$accept", "S", "A", "B", "C", "U", "V"]
    rules :=
      #[{ left := goalSymbol
          right := [.nonterminal 1]
          override := none
          hasCode := false },
        { left := 1
          right := [.nonterminal 2, .nonterminal 3, .terminal 4]
          override := none
          hasCode := false },
        { left := 2
          right := [.nonterminal 2, .terminal 2]
          override := none
          hasCode := false },
        { left := 2
          right := []
          override := none
          hasCode := false },
        { left := 3
          right := [.nonterminal 4, .terminal 3]
          override := none
          hasCode := false },
        { left := 3
          right := [.nonterminal 2]
          override := none
          hasCode := false },
        { left := 4
          right := [.nonterminal 3]
          override := none
          hasCode := false },
        { left := 5
          right := [.nonterminal 2, .nonterminal 5]
          override := none
          hasCode := false }]
    start := 1
    expect := none }

theorem definable_tangled : Grammar.tangled.Definable := by
  apply Sample.definable
  show Sample.tangled.grammar = .ok Grammar.tangled
  decide +kernel

theorem accepted_tangled : Grammar.tangled.Accepted :=
  definable_tangled.accepted

theorem nullables_tangled : Grammar.tangled.nullables =
    #[false, false, true, true, true, false, false] := by
  decide +kernel

/-- Two nonterminals that vanish, one that is never rid of itself, and one
without a rule: the whole begins with what the first three begin with. -/
theorem heads_exact_tangled :
    (∀ symbol ∈ [Symbol.nonterminal 2, .nonterminal 4, .nonterminal 5,
        .nonterminal 6], Grammar.tangled.Declares symbol) ∧
      (∀ terminal, terminal ∈ [2, 3] ↔
        ∃ rest, Grammar.tangled.Derives
          [.nonterminal 2, .nonterminal 4, .nonterminal 5, .nonterminal 6]
          (.terminal terminal :: rest)) ∧
      ¬ Grammar.tangled.Derives
        [.nonterminal 2, .nonterminal 4, .nonterminal 5, .nonterminal 6]
        [] := by
  have declared : ∀ symbol ∈ [Symbol.nonterminal 2, .nonterminal 4,
      .nonterminal 5, .nonterminal 6], Grammar.tangled.Declares symbol := by
    intro symbol member
    simp only [List.mem_cons, List.not_mem_nil, or_false] at member
    rcases member with rfl | rfl | rfl | rfl
    all_goals
      unfold Grammar.Declares
      decide
  have value : (FirstSets.ofGrammar .tangled).heads
      [.nonterminal 2, .nonterminal 4, .nonterminal 5, .nonterminal 6] =
        (⟨0b1100⟩, false) := by
    rw [FirstSets.ofGrammar, nullables_tangled]
    cbv
  obtain ⟨begins, vanishes⟩ :=
    FirstSets.heads_exact accepted_tangled declared
  rw [value] at begins vanishes
  refine ⟨declared, ?_, fun empty => Bool.false_ne_true (vanishes.mpr empty)⟩
  intro terminal
  rw [← begins terminal, ← TerminalSet.mem_toList]
  exact Iff.rfl

end LRTables
