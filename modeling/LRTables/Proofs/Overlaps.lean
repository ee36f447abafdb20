import LRTables.Proofs.Attestations
import LRTables.Proofs.FiniteSearches
import LRTables.Proofs.GeneratedParsers

/-!
# Overlaps

Merging by weak compatibility brings no overlap of lookaheads that some single
word would not bring as well.  So a grammar whose words call for no two
competing actions has none in its merged states either.
-/

namespace LRTables

namespace Grammar

/-- If two items matter to each other, so do any that they come from. -/
structure Hereditary (grammar : Grammar) (matters : Item → Item → Prop) :
    Prop where
  scanned : ∀ (here there : Item) (symbol : Symbol),
    here.scanned grammar = some symbol →
      there.scanned grammar = some symbol →
        matters here.advance there.advance → matters here there
  left : ∀ here inner there, grammar.Hands here inner →
    matters inner there → matters here there
  right : ∀ here there inner, grammar.Hands there inner →
    matters here inner → matters here there

theorem Hereditary.origins {grammar : Grammar} {matters : Item → Item → Prop}
    (hereditary : grammar.Hereditary matters) {here there source other : Item}
    (matter : matters here there)
    (hands : Relation.ReflTransGen grammar.Hands source here)
    (otherHands : Relation.ReflTransGen grammar.Hands other there) :
    matters source other := by
  have left : matters source there := by
    induction hands using Relation.ReflTransGen.head_induction_on with
    | refl => exact matter
    | head step _ ih => exact hereditary.left _ _ _ step ih
  induction otherHands using Relation.ReflTransGen.head_induction_on with
  | refl => exact left
  | head step _ ih => exact hereditary.right _ _ _ step ih

theorem hereditary_all (grammar : Grammar) :
    grammar.Hereditary fun _ _ => True :=
  ⟨fun _ _ _ _ _ _ => trivial, fun _ _ _ _ _ => trivial,
    fun _ _ _ _ _ => trivial⟩

end Grammar

namespace State

variable {grammar : Grammar} {matters : Item → Item → Prop} {state : State}
  {here there : Item}

/-- The two items admit a common terminal after some word whose kernel is the
core of the state. -/
def Shares (grammar : Grammar) (state : State) (here there : Item) : Prop :=
  ∃ word common, state.HasKernel grammar word ∧
    grammar.Admits word here common ∧ grammar.Admits word there common

theorem Shares.transfer {other : State}
    (same : other.coreItems = state.coreItems)
    (shares : state.Shares grammar here there) :
    other.Shares grammar here there := by
  obtain ⟨word, common, kernel, left, right⟩ := shares
  exact ⟨word, common, kernel.transfer same, left, right⟩

/-- Items that matter to each other and overlap in the state also do so after a
single word. -/
def Grounded (grammar : Grammar) (matters : Item → Item → Prop)
    (state : State) : Prop :=
  ∀ here there, matters here there → ∀ terminal,
    state.HasContext here terminal → state.HasContext there terminal →
      state.Shares grammar here there

/-- It suffices that the overlaps of the core are grounded. -/
theorem Snug.grounded (hereditary : grammar.Hereditary matters)
    (snug : state.Snug grammar) (attested : state.Attested grammar)
    (core : ∀ here ∈ state.coreItems, ∀ there ∈ state.coreItems,
      here ≠ there → matters here there → ∀ terminal,
        state.HasContext here terminal → state.HasContext there terminal →
          state.Shares grammar here there) :
    state.Grounded grammar matters := by
  intro here there matter terminal hasHere hasThere
  rcases (snug here terminal hasHere).origin with
    always | ⟨source, member, inContext, hands⟩
  · obtain ⟨word, kernel, admits⟩ := attested.context there terminal hasThere
    exact ⟨word, terminal, kernel, kernel.admits (always _), admits⟩
  · rcases (snug there terminal hasThere).origin with
      always | ⟨other, otherMember, otherContext, otherHands⟩
    · obtain ⟨word, kernel, admits⟩ :=
        attested.context here terminal hasHere
      exact ⟨word, terminal, kernel, admits, kernel.admits (always _)⟩
    · -- Whatever the two core items share is handed on to both.
      have shares : state.Shares grammar source other := by
        by_cases same : source = other
        · subst same
          obtain ⟨word, kernel, admits⟩ :=
            attested.context source terminal inContext
          exact ⟨word, terminal, kernel, admits, admits⟩
        · exact core source member other otherMember same
            (hereditary.origins matter hands otherHands) terminal inContext
            otherContext
      obtain ⟨word, common, kernel, left, right⟩ := shares
      exact ⟨word, common, kernel, left.handed hands,
        right.handed otherHands⟩

theorem Grounded.alike {old new : State} (alike : old.Alike new)
    (grounded : old.Grounded grammar matters) :
    new.Grounded grammar matters := by
  intro here there matter terminal hasHere hasThere
  exact (grounded here there matter terminal
    (alike.hasContext_iff.mp hasHere)
    (alike.hasContext_iff.mp hasThere)).transfer alike.sameItems.coreItems

/-- An overlap among what arrives at a successor is one of its source. -/
theorem Grounded.arrives (wellFormed : grammar.WellFormed)
    (unused : grammar.GoalUnused) (hereditary : grammar.Hereditary matters)
    (grounded : state.Grounded grammar matters)
    (regular : state.Regular grammar) (closed : state.ItemsClosed grammar)
    {symbol : Symbol} {target : State}
    (core : target.coreItems = state.successorItems grammar symbol)
    (matter : matters here there) {terminal : Nat}
    (arrivesHere : Arrives (state.successorCores grammar true symbol) here
      terminal)
    (arrivesThere : Arrives (state.successorCores grammar true symbol) there
      terminal) :
    target.Shares grammar here there := by
  obtain ⟨origin, has, scanned, rfl⟩ := arrives_successorCores.mp arrivesHere
  obtain ⟨other, otherHas, otherScanned, rfl⟩ :=
    arrives_successorCores.mp arrivesThere
  have before := hereditary.scanned origin other symbol scanned otherScanned
    matter
  obtain ⟨word, common, kernel, left, right⟩ :=
    grounded origin other before terminal has otherHas
  exact ⟨word ++ [symbol], common,
    kernel.step wellFormed unused regular closed core,
    .advance left scanned, .advance right otherScanned⟩

/-- Joining what arrives keeps all overlaps grounded if core items that overlap
then do so in what was there or in what arrives. -/
theorem Joined.grounded_of_overlaps (wellFormed : grammar.WellFormed)
    (unused : grammar.GoalUnused) (hereditary : grammar.Hereditary matters)
    {first : FirstSets} {source old new : State} {symbol : Symbol}
    (joined : Joined grammar first
      (source.successorCores grammar true symbol) old new)
    (matching : old.Matches grammar
      (source.successorCores grammar true symbol))
    (overlaps : ∀ here ∈ old.coreItems, ∀ there ∈ old.coreItems,
      here ≠ there → matters here there → ∀ terminal,
        new.HasContext here terminal → new.HasContext there terminal →
          (∃ common, old.HasContext here common ∧
            old.HasContext there common) ∨
          ∃ common,
            Arrives (source.successorCores grammar true symbol) here common ∧
              Arrives (source.successorCores grammar true symbol) there common)
    (regular : source.Regular grammar) (closed : source.ItemsClosed grammar)
    (sourceGrounded : source.Grounded grammar matters)
    (attested : new.Attested grammar)
    (grounded : old.Grounded grammar matters) :
    new.Grounded grammar matters := by
  have same := joined.sameItems.coreItems
  have core : new.coreItems = source.successorItems grammar symbol := by
    rw [same, matching.items, items_successorCores]
  apply joined.snug.grounded hereditary attested
  intro here hereMember there thereMember different matter terminal hasHere
    hasThere
  rcases overlaps here (same ▸ hereMember) there (same ▸ thereMember) different
    matter terminal hasHere hasThere with
      ⟨common, left, right⟩ | ⟨common, left, right⟩
  · exact (grounded here there matter common left right).transfer same
  · exact sourceGrounded.arrives wellFormed unused hereditary regular closed
      core matter left right

/-- Joining what arrives, if that is weakly compatible, keeps all overlaps
grounded. -/
theorem Joined.grounded (wellFormed : grammar.WellFormed)
    (unused : grammar.GoalUnused) (hereditary : grammar.Hereditary matters)
    {first : FirstSets} {source old new : State} {symbol : Symbol}
    (joined : Joined grammar first
      (source.successorCores grammar true symbol) old new)
    (matching : old.Matches grammar
      (source.successorCores grammar true symbol))
    (compatible : weaklyCompatible (old.coreContexts.zip
      ((source.successorCores grammar true symbol).map
        Configuration.context)) = true)
    (regular : source.Regular grammar) (closed : source.ItemsClosed grammar)
    (sourceGrounded : source.Grounded grammar matters)
    (attested : new.Attested grammar)
    (grounded : old.Grounded grammar matters) :
    new.Grounded grammar matters := by
  refine joined.grounded_of_overlaps wellFormed unused hereditary matching ?_
    regular closed sourceGrounded attested grounded
  intro here hereMember there thereMember different _ terminal hasHere hasThere
  have hereKernel := (matching.regular.mem_coreItems.mp hereMember).2
  have thereKernel := (matching.regular.mem_coreItems.mp thereMember).2
  rcases (weaklyCompatible_zip_iff matching.aligned).mp compatible here
    hereMember there thereMember different with overlap | overlap | apart
  · exact Or.inl overlap
  · exact Or.inr overlap
  · rcases (joined.core here terminal hereKernel).mp hasHere with left | left
    · rcases (joined.core there terminal thereKernel).mp hasThere with
        right | right
      · exact Or.inl ⟨terminal, left, right⟩
      · exact absurd ⟨left, right⟩ (apart terminal).1
    · rcases (joined.core there terminal thereKernel).mp hasThere with
        right | right
      · exact absurd ⟨right, left⟩ (apart terminal).2
      · exact Or.inr ⟨terminal, left, right⟩

end State

namespace Collecting

variable {grammar : Grammar} {first : FirstSets} {precision : Precision}

/-- Throughout a search overlaps are grounded. -/
theorem keeps_grounded (wellFormed : grammar.WellFormed)
    (unused : grammar.GoalUnused) (exact : first.Exact grammar) :
    Keeps grammar first precision fun state =>
      state.Attested grammar ∧
        state.Grounded grammar fun _ _ => True := by
  have hereditary := grammar.hereditary_all
  have keepsSound : Keeps grammar first precision
      (State.Sound grammar first precision) :=
    keeps_sound wellFormed unused exact
  have keepsAttested : Keeps grammar first precision fun state =>
      state.Attested grammar :=
    keeps_attested wellFormed unused exact
  constructor
  · rintro old new alike ⟨attested, grounded⟩
    exact ⟨keepsAttested.alike old new alike attested, grounded.alike alike⟩
  · refine ⟨keepsAttested.start, ?_⟩
    apply keepsSound.start.snug.grounded hereditary keepsAttested.start
    intro here hereMember there thereMember different
    rw [coreItems_startState, List.mem_singleton] at hereMember thereMember
    exact absurd (hereMember.trans thereMember.symm) different
  · rintro source symbol sound ⟨attested, grounded⟩
    have fresh := keepsSound.fresh source symbol sound sound
    have freshAttested := keepsAttested.fresh source symbol sound attested
    have core : (freshState grammar first precision source symbol).coreItems =
        source.successorItems grammar symbol :=
      coreItems_freshState sound.regular.distinct
    refine ⟨freshAttested, fresh.snug.grounded hereditary freshAttested ?_⟩
    intro here hereMember there thereMember _ matter terminal hasHere
      hasThere
    have arrives (item : Item) (member : item ∈
          (freshState grammar first precision source symbol).coreItems)
        (has : (freshState grammar first precision source
          symbol).HasContext item terminal) :
        State.Arrives (source.successorCores grammar true symbol) item
          terminal := by
      have inKernel := (fresh.regular.mem_coreItems.mp member).2
      rw [hasContext_freshState wellFormed unused sound.regular.distinct
        inKernel] at has
      obtain ⟨origin, before, scanned, rfl⟩ := exists_origin_of_arrives has
      exact State.arrives_successorCores.mpr ⟨origin, before, scanned, rfl⟩
    exact grounded.arrives wellFormed unused hereditary sound.regular
      sound.closed.itemsClosed core matter
      (arrives here hereMember hasHere) (arrives there thereMember hasThere)
  · rintro pager source target symbol sourceSound
      ⟨sourceAttested, sourceGrounded⟩ sound ⟨attested, grounded⟩ matching
      compatible
    have joined := matching.joined wellFormed unused exact
      sound.closed.itemsClosed sound.snug
    have joinedAttested := keepsAttested.joined pager source target symbol
      sourceSound sourceAttested sound attested matching compatible
    exact ⟨joinedAttested, joined.grounded wellFormed unused hereditary matching
      compatible sourceSound.regular sourceSound.closed.itemsClosed
      sourceGrounded joinedAttested grounded⟩

end Collecting

namespace Grammar

variable {grammar : Grammar}

/-- No word calls for two competing actions. -/
structure Deterministic (grammar : Grammar) : Prop where
  shiftReduce : ∀ word item other terminal,
    grammar.Admits word item terminal → item.isFinal grammar = true →
      item.rule ≠ goalRule → grammar.Valid word other →
        other.scanned grammar ≠ some (.terminal terminal)
  reduceReduce : ∀ word item other terminal,
    grammar.Admits word item terminal → grammar.Admits word other terminal →
      item.isFinal grammar = true → other.isFinal grammar = true →
        item = other

theorem Valid.eq_of_isFinal {word : List Symbol} {item other : Item}
    (valid : grammar.Valid word item) (otherValid : grammar.Valid word other)
    (final : item.isFinal grammar = true)
    (otherFinal : other.isFinal grammar = true)
    (rule : item.rule = other.rule) : item = other := by
  have bound := valid.dot_le
  have otherBound := otherValid.dot_le
  rw [Item.isFinal, Item.rest, List.isEmpty_iff, List.drop_eq_nil_iff]
    at final otherFinal
  rw [rule] at bound final
  have dot : item.dot = other.dot := by omega
  obtain ⟨itemRule, itemDot⟩ := item
  cases rule
  cases dot
  rfl

end Grammar

section Decides

variable {grammar : Grammar} {automaton : Automaton} {table : Table}
  (decides : table.Decides grammar false automaton) {word : List Symbol}
  {number : Nat} {item other : Item} {terminal : Nat}
  (leads : automaton.Leads word number)

include decides leads in
theorem Table.Decides.cell_of_final
    (has : (automaton.state number).HasContext item terminal)
    (final : item.isFinal grammar = true)
    (atEnd : item.rule = goalRule → terminal = Terminal.endOfInput) :
    (table.filling number).cell terminal =
      if item.rule = goalRule then .accept else .reduce item.rule := by
  have complete := decides.complete word number leads
  split
  · rename_i isGoal
    rw [atEnd isGoal] at has ⊢
    exact complete.accept ⟨item, has, final, isGoal⟩
  · rename_i notGoal
    exact complete.reduce item.rule terminal ⟨item, has, final, rfl, notGoal⟩

include decides leads in
/-- Items that are finished on one lookahead are of one rule. -/
theorem Table.Decides.rule_eq
    (has : (automaton.state number).HasContext item terminal)
    (otherHas : (automaton.state number).HasContext other terminal)
    (final : item.isFinal grammar = true)
    (otherFinal : other.isFinal grammar = true)
    (atEnd : item.rule = goalRule → terminal = Terminal.endOfInput)
    (otherAtEnd : other.rule = goalRule → terminal = Terminal.endOfInput) :
    item.rule = other.rule := by
  have cell := decides.cell_of_final leads has final atEnd
  rw [decides.cell_of_final leads otherHas otherFinal otherAtEnd] at cell
  by_cases isGoal : item.rule = goalRule
  · by_cases otherGoal : other.rule = goalRule
    · exact isGoal.trans otherGoal.symm
    · rw [if_pos isGoal, if_neg otherGoal] at cell
      cases cell
  · by_cases otherGoal : other.rule = goalRule
    · rw [if_neg isGoal, if_pos otherGoal] at cell
      cases cell
    · rw [if_neg isGoal, if_neg otherGoal] at cell
      injection cell with rule
      exact rule.symm

end Decides

/-- A table without conflicts that holds every action its automaton calls for
leaves no word with competing actions. -/
theorem Table.Decides.deterministic {grammar : Grammar}
    (wellFormed : grammar.WellFormed) (unused : grammar.GoalUnused)
    {automaton : Automaton} {table : Table}
    (decides : table.Decides grammar false automaton)
    (total : automaton.Total grammar) : grammar.Deterministic := by
  have framed := decides.represents.framed
  have atEnd {word : List Symbol} {item : Item} {terminal : Nat}
      (admits : grammar.Admits word item terminal)
      (isGoal : item.rule = goalRule) : terminal = Terminal.endOfInput :=
    admits.eq_endOfInput wellFormed unused isGoal
  have has {word : List Symbol} {number : Nat} {item : Item} {terminal : Nat}
      (leads : automaton.Leads word number)
      (admits : grammar.Admits word item terminal) :
      (automaton.state number).HasContext item terminal :=
    decides.offers word number item terminal leads admits (admits.lt wellFormed)
  constructor
  · intro word item other terminal admits final notGoal valid scanned
    obtain ⟨number, leads⟩ :=
      framed.exists_leads wellFormed unused total valid
    obtain ⟨target, edge⟩ := total word number leads (.terminal terminal)
      ((framed.mem_scannedSymbols wellFormed unused leads).mpr
        ⟨other, valid, scanned⟩)
    have cell := decides.cell_of_final leads (has leads admits) final
      (atEnd admits)
    rw [if_neg notGoal] at cell
    have complete := decides.complete word number leads
    rcases complete.shift terminal target (admits.lt wellFormed) edge with
      shift | ⟨atEnd, accepts⟩
    · rw [shift] at cell
      cases cell
    · subst atEnd
      rw [complete.accept accepts] at cell
      cases cell
  · intro word item other terminal admits otherAdmits final otherFinal
    obtain ⟨number, leads⟩ :=
      framed.exists_leads wellFormed unused total admits.valid
    exact admits.valid.eq_of_isFinal otherAdmits.valid final otherFinal
      (decides.rule_eq leads (has leads admits) (has leads otherAdmits) final
        otherFinal (atEnd admits) (atEnd otherAdmits))

namespace Grammar.Deterministic

variable {grammar : Grammar} (deterministic : grammar.Deterministic)
  {state : State} (regular : state.Regular grammar)
  (closed : state.ItemsClosed grammar)
  (scanned : ∀ symbol target, state.successor? symbol = some target →
    symbol ∈ state.scannedSymbols grammar)
  (attested : state.Attested grammar)

include deterministic regular closed scanned attested

theorem not_shifts {rule terminal target : Nat}
    (reduces : state.Reduces grammar false rule terminal) :
    state.successor? (.terminal terminal) ≠ some target := by
  intro edge
  obtain ⟨item, has, final, rfl, notGoal⟩ := reduces
  obtain ⟨word, kernel, admits⟩ := attested.context item terminal has
  obtain ⟨other, member, scans⟩ :=
    State.mem_scannedSymbols.mp (scanned _ target edge)
  exact deterministic.shiftReduce word item other terminal admits final
    notGoal ((kernel.mem_items regular closed).mp member) scans

/-- Only reductions can compete in a state whose lookaheads are attested. -/
theorem tame (wellFormed : grammar.WellFormed)
    (unused : grammar.GoalUnused) : state.Tame grammar false := by
  constructor
  · exact fun _ _ _ => deterministic.not_shifts regular closed scanned attested
  · rintro rule ⟨here, hasHere, finalHere, isGoal⟩
      ⟨there, hasThere, finalThere, rfl, notGoal⟩
    -- The goal is finished after a single word, which also admits the other.
    obtain ⟨front, frontKernel, left⟩ :=
      attested.context here Terminal.endOfInput hasHere
    obtain ⟨word, kernel, right⟩ :=
      attested.context there Terminal.endOfInput hasThere
    have present := (kernel.mem_items regular closed).mp
      ((frontKernel.mem_items regular closed).mpr left.valid)
    rw [left.valid.eq_start wellFormed unused isGoal finalHere] at left
    rw [present.eq_start wellFormed unused isGoal finalHere] at right
    have same := deterministic.reduceReduce _ here there _ left right finalHere
      finalThere
    exact notGoal (same ▸ isGoal)

/-- Competing actions of a state whose lookaheads are attested and whose
overlaps are grounded compete after a single word. -/
theorem unambiguous {matters : Item → Item → Prop}
    (finals : ∀ here there : Item, here.isFinal grammar = true →
      there.isFinal grammar = true → here.rule ≠ there.rule →
        matters here there)
    (grounded : state.Grounded grammar matters) :
    state.Unambiguous grammar false := by
  have same {here there : Item} {terminal : Nat}
      (hasHere : state.HasContext here terminal)
      (hasThere : state.HasContext there terminal)
      (finalHere : here.isFinal grammar = true)
      (finalThere : there.isFinal grammar = true) :
      here.rule = there.rule := by
    by_contra different
    obtain ⟨word, common, -, left, right⟩ := grounded here there
      (finals here there finalHere finalThere different) terminal hasHere
      hasThere
    exact different (congrArg Item.rule
      (deterministic.reduceReduce word here there common left right finalHere
        finalThere))
  constructor
  · exact fun _ _ _ => deterministic.not_shifts regular closed scanned attested
  · rintro rule other terminal ⟨here, hasHere, finalHere, rfl, -⟩
      ⟨there, hasThere, finalThere, rfl, -⟩
    exact same hasHere hasThere finalHere finalThere
  · rintro rule ⟨here, hasHere, finalHere, isGoal⟩
      ⟨there, hasThere, finalThere, rfl, notGoal⟩
    exact notGoal
      ((same hasHere hasThere finalHere finalThere).symm.trans isGoal)

end Grammar.Deterministic

namespace Automaton

variable {grammar : Grammar} {first : FirstSets} {automaton : Automaton}

/-- Every conflict of a state of the merged automaton is one of a state of the
other automaton with the same core. -/
structure ConflictsWithin (grammar : Grammar) (merged other : Automaton) :
    Prop where
  shiftReduce : ∀ number ∈ merged.reachableStates, ∀ item terminal target,
    item.isFinal grammar = true →
    (merged.state number).HasContext item terminal →
    (merged.state number).successor? (.terminal terminal) = some target →
      ∃ counterpart ∈ other.reachableStates,
        (other.state counterpart).coreItems = (merged.state number).coreItems ∧
        (other.state counterpart).HasContext item terminal ∧
        ∃ next, (other.state counterpart).successor? (.terminal terminal) =
            some next ∧
          (other.state next).coreItems = (merged.state target).coreItems
  reduceReduce : ∀ number ∈ merged.reachableStates, ∀ here there terminal,
    here.isFinal grammar = true → there.isFinal grammar = true →
    here.rule ≠ there.rule →
    (merged.state number).HasContext here terminal →
    (merged.state number).HasContext there terminal →
      ∃ counterpart ∈ other.reachableStates,
        (other.state counterpart).coreItems = (merged.state number).coreItems ∧
        ∃ common, (other.state counterpart).HasContext here common ∧
          (other.state counterpart).HasContext there common

section Canonical

variable (wellFormed : grammar.WellFormed) (unused : grammar.GoalUnused)
  (exact : first.Exact grammar)

include wellFormed unused in
theorem exists_counterpart {merged other : Automaton}
    (framed : merged.Framed grammar) (otherFramed : other.Framed grammar)
    (total : other.Total grammar) {number : Nat}
    (reachable : number ∈ merged.reachableStates) {word : List Symbol}
    (kernel : (merged.state number).HasKernel grammar word) {item : Item}
    (valid : grammar.Valid word item) :
    ∃ counterpart ∈ other.reachableStates, other.Leads word counterpart ∧
      (other.state counterpart).coreItems =
        (merged.state number).coreItems := by
  obtain ⟨counterpart, leads⟩ :=
    otherFramed.exists_leads wellFormed unused total valid
  obtain ⟨path, pathLeads⟩ := framed.mem_reachableStates.mp reachable
  exact ⟨counterpart, otherFramed.mem_reachableStates.mpr ⟨word, leads⟩,
    leads, otherFramed.coreItems_eq wellFormed unused leads kernel
      (framed.ascending_coreItems pathLeads)⟩

include wellFormed unused exact in
/-- The conflicts of an automaton whose overlaps are grounded are those of a
saturated one. -/
theorem Collected.conflictsWithin {merged other : Automaton}
    {precision : Precision}
    (collected : merged.Collected grammar first precision fun state =>
      state.Attested grammar ∧ state.Grounded grammar fun _ _ => True)
    (otherFramed : other.Framed grammar) (total : other.Total grammar)
    (saturated : other.Saturated grammar first) :
    ConflictsWithin grammar merged other := by
  have framed := collected.framed
  constructor
  · intro number reachable item terminal target final has edge
    obtain ⟨sound, attested, -⟩ :=
      collected.states number (lt_of_mem_reachableStates reachable)
    obtain ⟨word, kernel, admits⟩ := attested.context item terminal has
    obtain ⟨counterpart, member, leads, core⟩ := exists_counterpart wellFormed
      unused framed otherFramed total reachable kernel admits.valid
    obtain ⟨scanning, inItems, scanned⟩ := State.mem_scannedSymbols.mp
      (framed.scanned number _ target edge)
    have valid := (kernel.mem_items sound.regular
      sound.closed.itemsClosed).mp inItems
    obtain ⟨next, otherEdge⟩ := total word counterpart leads
      (.terminal terminal)
      ((otherFramed.mem_scannedSymbols wellFormed unused leads).mpr
        ⟨scanning, valid, scanned⟩)
    refine ⟨counterpart, member, core,
      saturated.hasContext wellFormed unused exact otherFramed leads admits,
      next, otherEdge, ?_⟩
    obtain ⟨path, pathLeads⟩ := framed.mem_reachableStates.mp reachable
    exact otherFramed.coreItems_eq wellFormed unused (leads.step otherEdge)
      (kernel.step wellFormed unused sound.regular sound.closed.itemsClosed
        (framed.edges number _ target edge))
      (framed.ascending_coreItems (pathLeads.step edge))
  · intro number reachable here there terminal _ _ _ hasHere hasThere
    obtain ⟨-, -, grounded⟩ :=
      collected.states number (lt_of_mem_reachableStates reachable)
    obtain ⟨word, common, kernel, left, right⟩ := grounded here there trivial
      terminal hasHere hasThere
    obtain ⟨counterpart, member, leads, core⟩ := exists_counterpart wellFormed
      unused framed otherFramed total reachable kernel left.valid
    exact ⟨counterpart, member, core, common,
      saturated.hasContext wellFormed unused exact otherFramed leads left,
      saturated.hasContext wellFormed unused exact otherFramed leads right⟩

omit unused exact in
include wellFormed in
/-- Without competing actions in the grammar, an automaton whose overlaps are
grounded has a table without conflicts. -/
theorem Collected.exists_table {merged : Automaton} {precision : Precision}
    (collected : merged.Collected grammar first precision fun state =>
      state.Attested grammar ∧ state.Grounded grammar fun _ _ => True)
    (terminated : merged.Terminated grammar)
    (deterministic : grammar.Deterministic) :
    ∃ table, Table.ofAutomaton grammar merged false = .ok table ∧
      table.log.conflicts = #[] := by
  have framed := collected.framed
  obtain ⟨table, filled, log⟩ :=
    Table.ofAutomaton_of_unambiguous wellFormed framed terminated (by
      intro word number leads
      obtain ⟨sound, attested, grounded⟩ :=
        collected.states number (framed.lt_size leads)
      exact deterministic.unambiguous sound.regular sound.closed.itemsClosed
        (framed.scanned number) attested (fun _ _ _ _ _ => trivial) grounded)
  exact ⟨table, filled, congrArg ConflictLog.conflicts log⟩

end Canonical

end Automaton

namespace Grammar

variable {grammar : Grammar}

/-- A table from canonical states without conflicts leaves no word with
competing actions. -/
theorem deterministic_of_canonical (wellFormed : grammar.WellFormed)
    (unused : grammar.GoalUnused) {limit : Nat} {options : Options}
    {output : Output}
    (result : grammar.generateWithin limit options.canonical = .ok output)
    (clean : output.table.log.conflicts = #[]) :
    grammar.Deterministic ∧ output.table.log = ConflictLog.empty := by
  have exact := FirstSets.exact_ofGrammar wellFormed
  obtain ⟨collected, filled⟩ := Construction.collect?_of_withLookaheads
    (built_of_generateWithin result)
  have adequate :=
    Automaton.adequate_of_collect?_tracks wellFormed unused exact rfl collected
  have decides := adequate.decides wellFormed filled clean
  exact ⟨decides.deterministic wellFormed unused adequate.total,
    Table.log_eq_empty wellFormed adequate.framed adequate.terminated filled
      clean⟩

end Grammar

/-- Merging by weak compatibility adds no conflict to those of the canonical
automaton; if the canonical table has none, neither has the merged one. -/
theorem merged_conflicts_canonical {grammar : Grammar}
    (accepted : grammar.Accepted) (unused : grammar.GoalUnused) :
    ∃ merged canonical,
      Automaton.collect? grammar (.ofGrammar grammar) .pager = some merged ∧
      Automaton.collect? grammar (.ofGrammar grammar) .canonical =
        some canonical ∧
      Automaton.ConflictsWithin grammar merged canonical ∧
      ∀ table, Table.ofAutomaton grammar canonical false = .ok table →
        table.log.conflicts = #[] →
          ∃ other, Table.ofAutomaton grammar merged false = .ok other ∧
            other.log.conflicts = #[] := by
  have wellFormed := accepted.wellFormed
  have exact := FirstSets.exact_ofGrammar wellFormed
  obtain ⟨merged, foundMerged⟩ :=
    Automaton.exists_collect? wellFormed exact .pager
  obtain ⟨canonical, found⟩ :=
    Automaton.exists_collect? wellFormed exact .canonical
  have collected := Automaton.collected_of_collect? wellFormed unused exact
    (Collecting.keeps_grounded wellFormed unused exact) foundMerged
  have saturated :=
    Automaton.saturated_of_collect? wellFormed unused exact rfl found
  have adequate :=
    Automaton.adequate_of_collect?_tracks wellFormed unused exact rfl found
  refine ⟨merged, canonical, foundMerged, found,
    collected.conflictsWithin wellFormed unused exact adequate.framed
      adequate.total saturated, ?_⟩
  intro table filled clean
  have decides := adequate.decides wellFormed filled clean
  exact collected.exists_table wellFormed
    (Automaton.terminated_of_collect? wellFormed unused exact foundMerged)
    (decides.deterministic wellFormed unused adequate.total)

/-- Between an `a` and a `d`, or a `b` and an `e`, a token `c` that is an `A` by
either of two ways. -/
def Sample.twofold : Sample :=
  { terminals := plain ["a", "b", "c", "d", "e"]
    nonterminals := ["S", "A", "B"]
    rules :=
      [("S", ["a", "A", "d"]),
       ("S", ["b", "A", "e"]),
       ("A", ["c"]),
       ("A", ["B"]),
       ("B", ["c"])]
    expect := none }

def Grammar.twofold : Grammar :=
  { terminals :=
      #[{ name := "$end", precedence := none, quoted := false },
        { name := "error", precedence := none, quoted := false },
        { name := "a", precedence := none, quoted := false },
        { name := "b", precedence := none, quoted := false },
        { name := "c", precedence := none, quoted := false },
        { name := "d", precedence := none, quoted := false },
        { name := "e", precedence := none, quoted := false }]
    nonterminals := #["$accept", "S", "A", "B"]
    rules :=
      #[{ left := goalSymbol
          right := [.nonterminal 1]
          override := none
          hasCode := false },
        { left := 1
          right := [.terminal 2, .nonterminal 2, .terminal 5]
          override := none
          hasCode := false },
        { left := 1
          right := [.terminal 3, .nonterminal 2, .terminal 6]
          override := none
          hasCode := false },
        { left := 2
          right := [.terminal 4]
          override := none
          hasCode := false },
        { left := 2
          right := [.nonterminal 3]
          override := none
          hasCode := false },
        { left := 3
          right := [.terminal 4]
          override := none
          hasCode := false }]
    start := 1
    expect := none }

theorem accepted_twofold : Grammar.twofold.Accepted := by
  apply Sample.accepted
  show Sample.twofold.grammar = .ok Grammar.twofold
  decide +kernel

theorem goalUnused_twofold : Grammar.twofold.GoalUnused := by
  constructor
  · decide
  · decide

/-- Both ways to reduce `c` are open before a `d` in the state to which `a c`
and `b c` lead. -/
theorem exists_merged_twofold : ∃ merged,
    Automaton.collect? .twofold (.ofGrammar .twofold) .pager = some merged ∧
      merged.Leads [.terminal 2, .terminal 4] 5 ∧
      merged.Leads [.terminal 3, .terminal 4] 5 ∧
      (merged.state 5).HasContext { rule := 3, dot := 1 } 5 ∧
      (merged.state 5).HasContext { rule := 5, dot := 1 } 5 := by
  apply exists_some_of_any
  cbv

theorem exists_apart_twofold : ∃ canonical,
    Automaton.collect? .twofold (.ofGrammar .twofold) .canonical =
        some canonical ∧
      canonical.Leads [.terminal 2, .terminal 4] 5 ∧
      canonical.Leads [.terminal 3, .terminal 4] 8 := by
  apply exists_some_of_any
  cbv

theorem exists_canonical_chain : ∃ output,
    Grammar.chain.generateWithin 0 Options.standard.canonical = .ok output ∧
      output.table.log.conflicts = #[] := by
  apply exists_ok_of_any
  cbv

/-- Two canonical states with different lookaheads are merged, and the contest
in the state that they come to is one of a canonical state.  The canonical
table of the chain has no conflicts, and neither has the merged one. -/
theorem merged_conflicts_canonical_twofold :
    (∃ merged canonical,
      Automaton.collect? .twofold (.ofGrammar .twofold) .pager = some merged ∧
      Automaton.collect? .twofold (.ofGrammar .twofold) .canonical =
        some canonical ∧
      merged.Leads [.terminal 2, .terminal 4] 5 ∧
      merged.Leads [.terminal 3, .terminal 4] 5 ∧
      canonical.Leads [.terminal 2, .terminal 4] 5 ∧
      canonical.Leads [.terminal 3, .terminal 4] 8 ∧
      (merged.state 5).HasContext { rule := 3, dot := 1 } 5 ∧
      (merged.state 5).HasContext { rule := 5, dot := 1 } 5 ∧
      Automaton.ConflictsWithin .twofold merged canonical ∧
      ∃ counterpart ∈ canonical.reachableStates,
        (canonical.state counterpart).coreItems =
            (merged.state 5).coreItems ∧
          ∃ common, (canonical.state counterpart).HasContext
              { rule := 3, dot := 1 } common ∧
            (canonical.state counterpart).HasContext
              { rule := 5, dot := 1 } common) ∧
    ∃ merged canonical table other,
      Automaton.collect? .chain (.ofGrammar .chain) .pager = some merged ∧
      Automaton.collect? .chain (.ofGrammar .chain) .canonical =
        some canonical ∧
      Automaton.ConflictsWithin .chain merged canonical ∧
      Table.ofAutomaton .chain canonical false = .ok table ∧
      table.log.conflicts = #[] ∧
      Table.ofAutomaton .chain merged false = .ok other ∧
      other.log.conflicts = #[] := by
  constructor
  · obtain ⟨merged, canonical, foundMerged, found, within, -⟩ :=
      merged_conflicts_canonical accepted_twofold goalUnused_twofold
    obtain ⟨_, again, one, other, hasOne, hasOther⟩ := exists_merged_twofold
    cases foundMerged.symm.trans again
    obtain ⟨_, again, here, there⟩ := exists_apart_twofold
    cases found.symm.trans again
    have wellFormed := accepted_twofold.wellFormed
    have framed := (Automaton.adequate_of_collect?_tracks wellFormed
      goalUnused_twofold (FirstSets.exact_ofGrammar wellFormed) rfl
      foundMerged).framed
    have reachable := framed.mem_reachableStates.mpr ⟨_, one⟩
    exact ⟨merged, canonical, foundMerged, found, one, other, here, there,
      hasOne, hasOther, within, within.reduceReduce 5 reachable _ _ 5
        (by decide) (by decide) (by decide) hasOne hasOther⟩
  · obtain ⟨merged, canonical, foundMerged, found, within, clean⟩ :=
      merged_conflicts_canonical accepted_chain goalUnused_chain
    obtain ⟨output, result, noConflicts⟩ := exists_canonical_chain
    obtain ⟨again, filled⟩ := Construction.collect?_of_withLookaheads
      (Grammar.built_of_generateWithin result)
    cases found.symm.trans again
    obtain ⟨other, otherFilled, otherClean⟩ :=
      clean output.table filled noConflicts
    exact ⟨merged, _, output.table, other, foundMerged, found, within, filled,
      noConflicts, otherFilled, otherClean⟩

end LRTables
