import LRTables.Proofs.Reachability
import LRTables.Proofs.Transitions

/-!
# Paths of an automaton

A word of symbols leads from the start state to at most one state.  In a framed
automaton the items of that state are the valid items of the word, and in a
saturated one the contexts hold all terminals that the word admits.
-/

namespace LRTables.Automaton

variable {automaton : Automaton} {grammar : Grammar} {first : FirstSets}

/-- The word leads from the start state to the state. -/
inductive Leads (automaton : Automaton) : List Symbol → Nat → Prop where
  | start : Leads automaton [] Automaton.start
  | step {word : List Symbol} {source target : Nat} {symbol : Symbol} :
      Leads automaton word source →
      (automaton.state source).successor? symbol = some target →
      Leads automaton (word ++ [symbol]) target

theorem leads_nil {number : Nat} :
    automaton.Leads [] number ↔ number = Automaton.start := by
  constructor
  · intro leads
    generalize empty : ([] : List Symbol) = word at leads
    cases leads with
    | start => rfl
    | step => simp at empty
  · intro same
    rw [same]
    exact .start

theorem leads_append {word : List Symbol} {symbol : Symbol} {target : Nat} :
    automaton.Leads (word ++ [symbol]) target ↔
      ∃ source, automaton.Leads word source ∧
        (automaton.state source).successor? symbol = some target := by
  constructor
  · intro leads
    generalize equal : word ++ [symbol] = longer at leads
    cases leads with
    | start => simp at equal
    | @step _ source _ _ leads edge =>
        obtain ⟨rfl, same⟩ := List.append_inj' equal rfl
        cases same
        exact ⟨source, leads, edge⟩
  · intro found
    obtain ⟨source, leads, edge⟩ := found
    exact .step leads edge

/-- The state to which a word leads. -/
def follow? (automaton : Automaton) (word : List Symbol) : Option Nat :=
  word.foldlM (fun number symbol => (automaton.state number).successor? symbol)
    Automaton.start

theorem follow?_eq_some {word : List Symbol} {number : Nat} :
    automaton.follow? word = some number ↔ automaton.Leads word number := by
  induction word using List.reverseRecOn generalizing number with
  | nil =>
      rw [leads_nil, eq_comm]
      exact Option.some_inj
  | append_singleton word symbol ih =>
      simp only [leads_append, ← ih, follow?, List.foldlM_append,
        List.foldlM_cons, List.foldlM_nil, Option.bind_eq_bind,
        Option.pure_def, Option.bind_eq_some_iff, Option.some_inj,
        exists_eq_right]

instance {word : List Symbol} {number : Nat} :
    Decidable (automaton.Leads word number) :=
  decidable_of_iff _ follow?_eq_some

theorem Leads.unique {word : List Symbol} {one other : Nat}
    (oneLeads : automaton.Leads word one)
    (otherLeads : automaton.Leads word other) : one = other := by
  induction oneLeads generalizing other with
  | start => exact (leads_nil.mp otherLeads).symm
  | step _ edge ih =>
      obtain ⟨source, leads, otherEdge⟩ := leads_append.mp otherLeads
      rw [← ih leads, edge] at otherEdge
      exact Option.some.inj otherEdge

theorem Leads.exists_prefix {front back : List Symbol} {target : Nat}
    (leads : automaton.Leads (front ++ back) target) :
    ∃ middle, automaton.Leads front middle := by
  induction back using List.reverseRecOn generalizing target with
  | nil => exact ⟨target, by simpa using leads⟩
  | append_singleton back symbol ih =>
      rw [← List.append_assoc] at leads
      obtain ⟨source, before, -⟩ := leads_append.mp leads
      exact ih before

theorem state_of_size_le {number : Nat} (outside : automaton.size ≤ number) :
    automaton.state number = default := by
  have bound : ¬ number < automaton.states.size := Nat.not_lt.mpr outside
  simp [state, Array.getD_eq_getD_getElem?, bound]

theorem lt_size_of_successor {number target : Nat} {symbol : Symbol}
    (edge : (automaton.state number).successor? symbol = some target) :
    number < automaton.size := by
  by_contra outside
  rw [state_of_size_le (Nat.le_of_not_lt outside)] at edge
  cases edge

theorem successor?_add {added : State} (bare : added.successors = [])
    (number : Nat) (symbol : Symbol) :
    ((automaton.add added).state number).successor? symbol =
      (automaton.state number).successor? symbol := by
  by_cases inside : number < automaton.size
  · rw [state_add_of_lt inside]
  · rw [state_of_size_le (Nat.le_of_not_lt inside)]
    rcases Nat.eq_or_lt_of_not_lt inside with rfl | past
    · rw [state_add_size, State.successor?, bare]
      rfl
    · rw [state_of_size_le (by rwa [size_add])]

/-- Transitions lead to states. -/
def Bounded (automaton : Automaton) : Prop :=
  ∀ number symbol target,
    (automaton.state number).successor? symbol = some target →
      target < automaton.size

theorem Leads.lt_size (positive : Automaton.start < automaton.size)
    (bounded : automaton.Bounded) {word : List Symbol} {number : Nat}
    (leads : automaton.Leads word number) : number < automaton.size := by
  cases leads with
  | start => exact positive
  | step _ edge => exact bounded _ _ _ edge

theorem getD_foldl_set {flags : Array Bool} {numbers : List Nat}
    {number : Nat} :
    (numbers.foldl (fun flags number => flags.setIfInBounds number true)
        flags).getD number false = true ↔
      flags.getD number false = true ∨
        number ∈ numbers ∧ number < flags.size := by
  induction numbers generalizing flags with
  | nil => simp
  | cons head rest ih =>
      rw [List.foldl_cons, ih, Array.size_setIfInBounds]
      by_cases same : number = head
      · subst same
        by_cases inside : number < flags.size
        · simp [Array.getD_eq_getD_getElem?, inside]
        · simp [Array.getD_eq_getD_getElem?, inside]
      · simp [Array.getD_eq_getD_getElem?, Ne.symm same, same]

theorem reachable_iff (positive : Automaton.start < automaton.size)
    (keyed : automaton.Keyed) (bounded : automaton.Bounded) {number : Nat} :
    automaton.reachable.getD number false = true ↔
      ∃ word, automaton.Leads word number := by
  have edges (source target : Nat) :
      target ∈ (automaton.state source).successors.map Prod.snd ↔
        ∃ symbol,
          (automaton.state source).successor? symbol = some target := by
    simp only [List.mem_map, Prod.exists, exists_eq_right]
    apply exists_congr
    intro symbol
    exact keyed.mem_successors
  have meaning : ReachedFrom
      (fun number => (automaton.state number).successors.map Prod.snd)
        [Automaton.start] number ↔ ∃ word, automaton.Leads word number := by
    constructor
    · intro reached
      obtain ⟨root, isRoot, path⟩ := reached
      rw [List.mem_singleton] at isRoot
      subst isRoot
      induction path with
      | refl => exact ⟨[], .start⟩
      | tail _ edge ih =>
          obtain ⟨word, leads⟩ := ih
          obtain ⟨symbol, edge⟩ := (edges _ _).mp edge
          exact ⟨word ++ [symbol], .step leads edge⟩
    · intro found
      obtain ⟨word, leads⟩ := found
      induction leads with
      | start => exact ⟨_, List.mem_singleton_self _, .refl⟩
      | step _ edge ih => exact ih.step ((edges _ _).mpr ⟨_, edge⟩)
  have inside : ∀ node, ReachedFrom
      (fun number => (automaton.state number).successors.map Prod.snd)
        [Automaton.start] node → node ∈ List.range automaton.size := by
    intro node reached
    obtain ⟨root, isRoot, path⟩ := reached
    rw [List.mem_singleton] at isRoot
    subst isRoot
    rw [List.mem_range]
    cases path with
    | refl => exact positive
    | tail _ edge =>
        obtain ⟨symbol, edge⟩ := (edges _ _).mp edge
        exact bounded _ _ _ edge
  have found : number ∈ discover
      (fun number => (automaton.state number).successors.map Prod.snd)
        automaton.size [Automaton.start] ↔
          ∃ word, automaton.Leads word number := by
    rw [← meaning]
    apply mem_discover inside
    rw [List.length_range]
    exact Nat.lt_two_pow_self
  rw [reachable, ← Array.foldl_toList, getD_foldl_set, Array.mem_toList_iff,
    found, Array.size_replicate]
  constructor
  · intro either
    rcases either with blank | both
    · exfalso
      rw [Array.getD_eq_getD_getElem?, Array.getElem?_replicate] at blank
      split at blank
      · cases blank
      · cases blank
    · exact both.1
  · intro path
    obtain ⟨word, leads⟩ := path
    exact Or.inr ⟨⟨word, leads⟩, leads.lt_size positive bounded⟩

theorem lt_of_mem_reachableStates {number : Nat}
    (member : number ∈ automaton.reachableStates) :
    number < automaton.size :=
  List.mem_range.mp (List.mem_filter.mp member).1

theorem mem_reachableStates (positive : Automaton.start < automaton.size)
    (keyed : automaton.Keyed) (bounded : automaton.Bounded) {number : Nat} :
    number ∈ automaton.reachableStates ↔
      ∃ word, automaton.Leads word number := by
  rw [reachableStates, List.mem_filter, List.mem_range,
    reachable_iff positive keyed bounded]
  constructor
  · intro both
    exact both.2
  · intro path
    obtain ⟨word, leads⟩ := path
    exact ⟨leads.lt_size positive bounded, word, leads⟩

/-- Every state is closed, the start state has the goal item for its core, and
the core of every target is what its source yields. -/
structure Framed (grammar : Grammar) (automaton : Automaton) : Prop where
  positive : Automaton.start < automaton.size
  keyed : automaton.Keyed
  bounded : automaton.Bounded
  start : (automaton.state Automaton.start).coreItems = [.goal]
  regular : ∀ number < automaton.size,
    (automaton.state number).Regular grammar
  closed : ∀ number < automaton.size,
    (automaton.state number).ItemsClosed grammar
  scanned : ∀ number symbol target,
    (automaton.state number).successor? symbol = some target →
      symbol ∈ (automaton.state number).scannedSymbols grammar
  edges : ∀ number symbol target,
    (automaton.state number).successor? symbol = some target →
      (automaton.state target).coreItems =
        (automaton.state number).successorItems grammar symbol

/-- Every reachable state has a transition on each symbol that it scans. -/
def Total (grammar : Grammar) (automaton : Automaton) : Prop :=
  ∀ word number, automaton.Leads word number →
    ∀ symbol ∈ (automaton.state number).scannedSymbols grammar,
      ∃ target, (automaton.state number).successor? symbol = some target

namespace Framed

theorem lt_size (framed : automaton.Framed grammar) {word : List Symbol}
    {number : Nat} (leads : automaton.Leads word number) :
    number < automaton.size :=
  leads.lt_size framed.positive framed.bounded

theorem reachable_iff (framed : automaton.Framed grammar) {number : Nat} :
    automaton.reachable.getD number false = true ↔
      ∃ word, automaton.Leads word number :=
  Automaton.reachable_iff framed.positive framed.keyed framed.bounded

theorem mem_reachableStates (framed : automaton.Framed grammar)
    {number : Nat} :
    number ∈ automaton.reachableStates ↔
      ∃ word, automaton.Leads word number :=
  Automaton.mem_reachableStates framed.positive framed.keyed framed.bounded

variable (wellFormed : grammar.WellFormed) (unused : grammar.GoalUnused)

include wellFormed unused in
/-- The core items of a state are the kernel of every word that leads there. -/
theorem mem_coreItems (framed : automaton.Framed grammar)
    {word : List Symbol} {number : Nat} (leads : automaton.Leads word number)
    {item : Item} :
    item ∈ (automaton.state number).coreItems ↔ grammar.Kernel word item := by
  induction leads generalizing item with
  | start => rw [framed.start, List.mem_singleton, Grammar.kernel_nil]
  | @step word source target symbol leads edge ih =>
      have inside := framed.lt_size leads
      have valid {other : Item} :
          other ∈ (automaton.state source).items ↔
            grammar.Valid word other := by
        rw [(framed.regular source inside).mem_items
          (framed.closed source inside), Grammar.valid_iff_spreads]
        have same : (· ∈ (automaton.state source).coreItems) =
            grammar.Kernel word := funext fun item => propext ih
        rw [same]
      rw [framed.edges _ _ _ edge, State.mem_successorItems,
        Grammar.kernel_append wellFormed unused]
      simp only [valid]

include wellFormed unused in
/-- The items of a state are the valid items of every word that leads
there. -/
theorem mem_items (framed : automaton.Framed grammar) {word : List Symbol}
    {number : Nat} (leads : automaton.Leads word number) {item : Item} :
    item ∈ (automaton.state number).items ↔ grammar.Valid word item := by
  have inside := framed.lt_size leads
  rw [(framed.regular number inside).mem_items (framed.closed number inside),
    Grammar.valid_iff_spreads]
  have same : (· ∈ (automaton.state number).coreItems) =
      grammar.Kernel word :=
    funext fun item => propext (framed.mem_coreItems wellFormed unused leads)
  rw [same]

include wellFormed unused in
theorem mem_scannedSymbols (framed : automaton.Framed grammar)
    {word : List Symbol} {number : Nat} (leads : automaton.Leads word number)
    {symbol : Symbol} :
    symbol ∈ (automaton.state number).scannedSymbols grammar ↔
      ∃ item, grammar.Valid word item ∧
        item.scanned grammar = some symbol := by
  rw [State.mem_scannedSymbols]
  simp only [framed.mem_items wellFormed unused leads]

include wellFormed unused in
theorem exists_valid (framed : automaton.Framed grammar) {word : List Symbol}
    {number : Nat} (leads : automaton.Leads word number) :
    ∃ item, grammar.Valid word item := by
  cases leads with
  | start => exact ⟨.goal, .goal⟩
  | @step word source _ symbol before edge =>
      obtain ⟨item, valid, scanned⟩ :=
        (framed.mem_scannedSymbols wellFormed unused before).mp
          (framed.scanned source symbol number edge)
      exact ⟨item.advance, .advance valid scanned⟩

include wellFormed unused in
/-- Every word with a valid item leads to a state. -/
theorem exists_leads (framed : automaton.Framed grammar)
    (total : automaton.Total grammar) {word : List Symbol} {item : Item}
    (valid : grammar.Valid word item) : ∃ number, automaton.Leads word number := by
  induction word using List.reverseRecOn generalizing item with
  | nil => exact ⟨_, .start⟩
  | append_singleton word symbol ih =>
      obtain ⟨kernel, inKernel⟩ := valid.exists_kernel
      obtain ⟨origin, originValid, scanned, -⟩ :=
        (Grammar.kernel_append wellFormed unused).mp inKernel
      obtain ⟨source, leads⟩ := ih originValid
      have scans := (framed.mem_scannedSymbols wellFormed unused leads).mpr
        ⟨origin, originValid, scanned⟩
      obtain ⟨target, edge⟩ := total word source leads symbol scans
      exact ⟨target, .step leads edge⟩

end Framed

/-- All lookaheads of the source arrive at the target. -/
def Feeds (grammar : Grammar) (source : State) (symbol : Symbol)
    (target : State) : Prop :=
  ∀ item terminal, source.HasContext item terminal →
    item.scanned grammar = some symbol →
      target.HasContext item.advance terminal

/-- The contexts of reachable states are closed under all that passes
lookaheads on. -/
structure Saturated (grammar : Grammar) (first : FirstSets)
    (automaton : Automaton) : Prop where
  start : (automaton.state Automaton.start).HasContext .goal
    Terminal.endOfInput
  closed : ∀ word number, automaton.Leads word number →
    (automaton.state number).Closed grammar first true
  feeds : ∀ word number, automaton.Leads word number →
    ∀ symbol target,
      (automaton.state number).successor? symbol = some target →
        Feeds grammar (automaton.state number) symbol
          (automaton.state target)

/-- The contexts of a saturated automaton hold all that its words admit. -/
theorem Saturated.hasContext (wellFormed : grammar.WellFormed)
    (unused : grammar.GoalUnused) (exact : first.Exact grammar)
    (framed : automaton.Framed grammar)
    (saturated : automaton.Saturated grammar first) {word : List Symbol}
    {number : Nat} (leads : automaton.Leads word number) {item : Item}
    {terminal : Nat} (admits : grammar.Admits word item terminal) :
    (automaton.state number).HasContext item terminal := by
  induction leads generalizing item terminal with
  | start =>
      apply (saturated.closed [] _ .start).hasContext_of_carries wellFormed
        exact _ _ (Grammar.admits_iff_carries.mp admits)
      · intro other kernel
        exact (framed.mem_items wellFormed unused .start).mpr kernel.1
      · intro other kernel token admitted
        rw [Grammar.kernel_nil.mp kernel] at admitted ⊢
        rw [admitted.eq_endOfInput wellFormed unused rfl]
        exact saturated.start
  | @step word source target symbol leads edge ih =>
      have further : automaton.Leads (word ++ [symbol]) target :=
        .step leads edge
      apply (saturated.closed _ _ further).hasContext_of_carries wellFormed
        exact _ _ (Grammar.admits_iff_carries.mp admits)
      · intro other kernel
        exact (framed.mem_items wellFormed unused further).mpr kernel.1
      · intro other kernel token admitted
        obtain ⟨origin, -, scanned, rfl⟩ :=
          (Grammar.kernel_append wellFormed unused).mp kernel
        obtain ⟨before, -⟩ := Grammar.admits_append.mp admitted
        exact saturated.feeds word source leads symbol target edge origin token
          (ih before) scanned

end LRTables.Automaton
