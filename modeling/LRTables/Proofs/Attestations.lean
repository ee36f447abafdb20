import LRTables.Proofs.CoreLookaheads

/-!
# Attested lookaheads

However states are merged, the core of each is the kernel of some word, and
each of its lookaheads is admitted after some such word.  These words need not
be the same for all lookaheads.
-/

namespace LRTables

namespace State

variable {grammar : Grammar} {state : State} {word : List Symbol}
  {reading : List Symbol → Prop}

/-- The core of the state is the kernel of the word. -/
def HasKernel (grammar : Grammar) (state : State) (word : List Symbol) :
    Prop :=
  ∀ item, item ∈ state.coreItems ↔ grammar.Kernel word item

theorem HasKernel.mem_items (kernel : state.HasKernel grammar word)
    (regular : state.Regular grammar) (closed : state.ItemsClosed grammar)
    {item : Item} : item ∈ state.items ↔ grammar.Valid word item := by
  rw [regular.mem_items closed, Grammar.valid_iff_spreads]
  constructor
  · exact Grammar.Spreads.mono fun other => (kernel other).mp
  · exact Grammar.Spreads.mono fun other => (kernel other).mpr

theorem HasKernel.admits (kernel : state.HasKernel grammar word)
    {item : Item} {terminal : Nat}
    (carries : grammar.Carries (· ∈ state.coreItems) (grammar.Admits word)
      item terminal) : grammar.Admits word item terminal := by
  have same : (fun other => other ∈ state.coreItems) =
      grammar.Kernel word :=
    funext fun other => propext (kernel other)
  rw [same] at carries
  exact Grammar.admits_iff_carries.mpr carries

theorem HasKernel.transfer {other : State}
    (same : other.coreItems = state.coreItems)
    (kernel : state.HasKernel grammar word) :
    other.HasKernel grammar word := by
  intro item
  rw [same]
  exact kernel item

theorem HasKernel.step (wellFormed : grammar.WellFormed)
    (unused : grammar.GoalUnused) (kernel : state.HasKernel grammar word)
    (regular : state.Regular grammar) (closed : state.ItemsClosed grammar)
    {symbol : Symbol} {target : State}
    (core : target.coreItems = state.successorItems grammar symbol) :
    target.HasKernel grammar (word ++ [symbol]) := by
  intro item
  rw [core, mem_successorItems, Grammar.kernel_append wellFormed unused]
  simp only [kernel.mem_items regular closed]

/-- Every lookahead of the state is admitted after one of the words. -/
def Justified (grammar : Grammar) (reading : List Symbol → Prop)
    (state : State) : Prop :=
  ∀ item terminal, state.HasContext item terminal →
    ∃ word, reading word ∧ grammar.Admits word item terminal

theorem Snug.justified (snug : state.Snug grammar)
    (kernel : ∀ word, reading word → state.HasKernel grammar word)
    (exists_word : ∃ word, reading word)
    (core : ∀ item ∈ state.coreItems, ∀ terminal,
      state.HasContext item terminal →
        ∃ word, reading word ∧ grammar.Admits word item terminal) :
    state.Justified grammar reading := by
  intro item terminal has
  rcases (snug item terminal has).origin with
    always | ⟨source, member, inContext, hands⟩
  · obtain ⟨word, read⟩ := exists_word
    exact ⟨word, read, (kernel word read).admits (always _)⟩
  · obtain ⟨word, read, admits⟩ := core source member terminal inContext
    exact ⟨word, read, admits.handed hands⟩

/-- What arrives is justified by longer words. -/
theorem Joined.justified {sourceReading : List Symbol → Prop}
    {source old new : State} {symbol : Symbol}
    (joined : Joined grammar first
      (source.successorCores grammar true symbol) old new)
    (kernel : ∀ word, reading word → old.HasKernel grammar word)
    (exists_word : ∃ word, reading word)
    (leadsOn : ∀ word, sourceReading word → reading (word ++ [symbol]))
    (sourceJustified : source.Justified grammar sourceReading)
    (justified : old.Justified grammar reading) :
    new.Justified grammar reading := by
  have items := joined.sameItems.coreItems
  apply joined.snug.justified
  · exact fun word read => (kernel word read).transfer items
  · exact exists_word
  · intro item member terminal has
    have inKernel := (joined.regular.mem_coreItems.mp member).2
    rcases (joined.core item terminal inKernel).mp has with before | arrives
    · exact justified item terminal before
    · obtain ⟨origin, arriving, scanned, rfl⟩ :=
        arrives_successorCores.mp arrives
      obtain ⟨word, read, admits⟩ := sourceJustified origin terminal arriving
      exact ⟨word ++ [symbol], leadsOn word read, .advance admits scanned⟩

/-- Every lookahead of the state is admitted after some word whose kernel is
the core of the state. -/
structure Attested (grammar : Grammar) (state : State) : Prop where
  exists_word : ∃ word, state.HasKernel grammar word
  context : ∀ item terminal, state.HasContext item terminal →
    ∃ word, state.HasKernel grammar word ∧ grammar.Admits word item terminal

theorem Snug.attested (snug : state.Snug grammar)
    (exists_word : ∃ word, state.HasKernel grammar word)
    (core : ∀ item ∈ state.coreItems, ∀ terminal,
      state.HasContext item terminal →
        ∃ word, state.HasKernel grammar word ∧
          grammar.Admits word item terminal) :
    state.Attested grammar :=
  ⟨exists_word, snug.justified (fun _ kernel => kernel) exists_word core⟩

theorem Attested.alike {old new : State} (alike : old.Alike new)
    (attested : old.Attested grammar) : new.Attested grammar := by
  have same := alike.sameItems.coreItems
  constructor
  · obtain ⟨word, kernel⟩ := attested.exists_word
    exact ⟨word, kernel.transfer same⟩
  · intro item terminal has
    obtain ⟨word, kernel, admits⟩ :=
      attested.context item terminal (alike.hasContext_iff.mp has)
    exact ⟨word, kernel.transfer same, admits⟩

theorem Attested.arrives (wellFormed : grammar.WellFormed)
    (unused : grammar.GoalUnused) (attested : state.Attested grammar)
    (regular : state.Regular grammar) (closed : state.ItemsClosed grammar)
    {symbol : Symbol} {target : State}
    (core : target.coreItems = state.successorItems grammar symbol)
    {item : Item} {terminal : Nat}
    (arrives : Arrives (state.successorCores grammar true symbol) item
      terminal) :
    ∃ word, target.HasKernel grammar word ∧
      grammar.Admits word item terminal := by
  obtain ⟨origin, has, scanned, rfl⟩ := arrives_successorCores.mp arrives
  obtain ⟨word, kernel, admits⟩ := attested.context origin terminal has
  exact ⟨word ++ [symbol],
    kernel.step wellFormed unused regular closed core,
    .advance admits scanned⟩

/-- A state stays attested when what arrives from an attested one joins it. -/
theorem Joined.attested (wellFormed : grammar.WellFormed)
    (unused : grammar.GoalUnused) {first : FirstSets} {source old new : State}
    {symbol : Symbol}
    (joined : Joined grammar first
      (source.successorCores grammar true symbol) old new)
    (core : old.coreItems = source.successorItems grammar symbol)
    (regular : source.Regular grammar) (closed : source.ItemsClosed grammar)
    (sourceAttested : source.Attested grammar)
    (attested : old.Attested grammar) : new.Attested grammar := by
  have same := joined.sameItems.coreItems
  obtain ⟨word, kernel⟩ := attested.exists_word
  refine ⟨⟨word, kernel.transfer same⟩, ?_⟩
  intro item terminal has
  obtain ⟨path, kernel, admits⟩ := joined.justified (fun _ kernel => kernel)
    attested.exists_word
    (fun _ kernel => kernel.step wellFormed unused regular closed core)
    sourceAttested.context attested.context item terminal has
  exact ⟨path, kernel.transfer same, admits⟩

end State

namespace Automaton

variable {grammar : Grammar} {automaton : Automaton}

theorem Framed.ascending_coreItems (framed : automaton.Framed grammar)
    {word : List Symbol} {number : Nat}
    (leads : automaton.Leads word number) :
    Item.Ascending (automaton.state number).coreItems := by
  cases leads with
  | start =>
      rw [framed.start]
      exact ⟨List.nodup_singleton _, List.pairwise_singleton _ _⟩
  | @step word source _ symbol before edge =>
      rw [framed.edges source symbol number edge]
      exact State.ascending_successorItems
        (framed.regular source (framed.lt_size before)).distinct

theorem Framed.hasKernel (wellFormed : grammar.WellFormed)
    (unused : grammar.GoalUnused) (framed : automaton.Framed grammar)
    {word : List Symbol} {number : Nat}
    (leads : automaton.Leads word number) :
    (automaton.state number).HasKernel grammar word :=
  fun _ => framed.mem_coreItems wellFormed unused leads

/-- The core of a state is determined by any word of which it is the
kernel. -/
theorem Framed.coreItems_eq (wellFormed : grammar.WellFormed)
    (unused : grammar.GoalUnused) (framed : automaton.Framed grammar)
    {word : List Symbol} {number : Nat}
    (leads : automaton.Leads word number) {state : State}
    (kernel : state.HasKernel grammar word)
    (ascending : Item.Ascending state.coreItems) :
    (automaton.state number).coreItems = state.coreItems := by
  apply (framed.ascending_coreItems leads).eq_of_mem_iff ascending
  intro item
  rw [framed.mem_coreItems wellFormed unused leads, kernel item]

end Automaton

namespace Collecting

variable {grammar : Grammar} {first : FirstSets} {precision : Precision}

theorem hasKernel_startState :
    (startState grammar first precision).HasKernel grammar [] := by
  intro item
  rw [coreItems_startState, List.mem_singleton, Grammar.kernel_nil]

/-- Throughout a search lookaheads are attested. -/
theorem keeps_attested (wellFormed : grammar.WellFormed)
    (unused : grammar.GoalUnused) (exact : first.Exact grammar) :
    Keeps grammar first precision fun state => state.Attested grammar := by
  have keepsSound : Keeps grammar first precision
      (State.Sound grammar first precision) :=
    keeps_sound wellFormed unused exact
  constructor
  · intro old new alike attested
    exact attested.alike alike
  · have kernel : (startState grammar first precision).HasKernel grammar [] :=
      hasKernel_startState
    apply keepsSound.start.snug.attested ⟨[], kernel⟩
    intro item core terminal has
    have inKernel := (keepsSound.start.regular.mem_coreItems.mp core).2
    obtain ⟨rfl, rfl⟩ := hasContext_startState wellFormed unused inKernel has
    exact ⟨[], kernel, .goal⟩
  · intro source symbol sound attested
    have fresh := keepsSound.fresh source symbol sound sound
    have core : (freshState grammar first precision source symbol).coreItems =
        source.successorItems grammar symbol :=
      coreItems_freshState sound.regular.distinct
    apply fresh.snug.attested
    · obtain ⟨word, kernel⟩ := attested.exists_word
      exact ⟨word ++ [symbol], kernel.step wellFormed unused sound.regular
        sound.closed.itemsClosed core⟩
    · intro item member terminal has
      have inKernel := (fresh.regular.mem_coreItems.mp member).2
      rw [hasContext_freshState wellFormed unused sound.regular.distinct
        inKernel] at has
      obtain ⟨origin, before, scanned, rfl⟩ := exists_origin_of_arrives has
      exact attested.arrives wellFormed unused sound.regular
        sound.closed.itemsClosed core
        (State.arrives_successorCores.mpr ⟨origin, before, scanned, rfl⟩)
  · intro pager source target symbol sourceSound sourceAttested sound attested
      matching _
    have joined := matching.joined wellFormed unused exact
      sound.closed.itemsClosed sound.snug
    refine joined.attested wellFormed unused ?_ sourceSound.regular
      sourceSound.closed.itemsClosed sourceAttested attested
    rw [matching.items, State.items_successorCores]

end Collecting

end LRTables
