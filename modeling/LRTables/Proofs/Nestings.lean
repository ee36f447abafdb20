import LRTables.Proofs.Overlaps

/-!
# Nested constructions

All automata with lookaheads that are made of one grammar have the same paths,
which lead to the same items in the same order.  The canonical automaton holds
exactly what a word admits, so its lookaheads are among those of any other one,
and the automaton with traced lanes holds what any word with the same kernel
admits, so no other one has more.
-/

namespace LRTables

namespace Automaton

variable {grammar : Grammar} {first : FirstSets} {automaton : Automaton}

/-- The lookaheads at the core of the target come from the source. -/
def Draws (grammar : Grammar) (source : State) (symbol : Symbol)
    (target : State) : Prop :=
  ∀ item ∈ target.coreItems, ∀ terminal, target.HasContext item terminal →
    State.Arrives (source.successorCores grammar true symbol) item terminal

theorem Draws.alike {source target oldSource oldTarget : State}
    {symbol : Symbol} (draws : Draws grammar oldSource symbol oldTarget)
    (sources : oldSource.Alike source) (targets : oldTarget.Alike target) :
    Draws grammar source symbol target := by
  intro item core terminal has
  rw [targets.sameItems.coreItems] at core
  rw [targets.hasContext_iff] at has
  obtain ⟨origin, before, scanned, rfl⟩ :=
    State.arrives_successorCores.mp (draws item core terminal has)
  exact State.arrives_successorCores.mpr
    ⟨origin, sources.hasContext_iff.mpr before, scanned, rfl⟩

/-- The lookaheads at the core of every target come from the source. -/
def Drawn (grammar : Grammar) (automaton : Automaton) : Prop :=
  ∀ source symbol target,
    (automaton.state source).successor? symbol = some target →
      Draws grammar (automaton.state source) symbol (automaton.state target)

end Automaton

namespace Collecting

open Automaton

variable {grammar : Grammar} {first : FirstSets} {collecting : Collecting}

section Steps

variable {source target : Nat} {symbol : Symbol} {provided : Collecting}
  (wellFormed : grammar.WellFormed) (unused : grammar.GoalUnused)

theorem Provides.state_canonical
    (provides : Provides grammar first .canonical source symbol collecting
      target provided) {number : Nat}
    (inside : number < collecting.automaton.size) :
    provided.automaton.state number = collecting.automaton.state number := by
  cases provides with
  | kept => rfl
  | joined _ _ _ pager => cases pager
  | fresh => exact state_add_of_lt inside

theorem Provides.edge_canonical
    (provides : Provides grammar first .canonical source symbol collecting
      target provided) {number other : Nat} {scanned : Symbol}
    (edge : (provided.automaton.state number).successor? scanned =
      some other) :
    (collecting.automaton.state number).successor? scanned = some other := by
  by_cases old : number < collecting.automaton.size
  · rwa [provides.state_canonical old] at edge
  · cases provides with
    | kept => exact edge
    | joined _ _ _ pager => cases pager
    | fresh =>
        dsimp only at edge
        rwa [successor?_add successors_freshState] at edge

include wellFormed unused in
/-- The target that is provided has nothing but what arrives. -/
theorem Provides.draws
    (provides : Provides grammar first .canonical source symbol collecting
      target provided)
    (framed : collecting.automaton.Framed grammar)
    (inside : source < collecting.automaton.size) :
    Draws grammar (provided.automaton.state source) symbol
      (provided.automaton.state target) := by
  rw [provides.state_canonical inside]
  cases provides with
  | kept _ _ _ _ draws => exact draws rfl
  | joined _ _ _ pager => cases pager
  | fresh =>
      have distinct := (framed.regular source inside).distinct
      rw [state_add_size]
      intro item core terminal has
      have regular : (freshState grammar first .canonical
          (collecting.automaton.state source) symbol).Regular grammar :=
        (State.regular_ofSuccessorCores distinct).close wellFormed unused
      exact (hasContext_freshState wellFormed unused distinct
        (regular.mem_coreItems.mp core).2).mp has

include wellFormed unused in
theorem Provides.drawn
    (provides : Provides grammar first .canonical source symbol collecting
      target provided)
    (framed : collecting.automaton.Framed grammar)
    (inside : source < collecting.automaton.size)
    (providedInside : source < provided.automaton.size)
    (drawn : collecting.automaton.Drawn grammar) :
    (provided.automaton.relink source symbol target).Drawn grammar := by
  intro number scanned other edge
  have alike := provided.automaton.alike_relink source symbol target
  rw [successor?_relink providedInside] at edge
  split at edge
  · rename_i both
    obtain ⟨rfl, rfl⟩ := both
    cases edge
    exact (provides.draws wellFormed unused framed inside).alike (alike _)
      (alike _)
  · apply Draws.alike _ (alike _) (alike _)
    have before := provides.edge_canonical edge
    rw [provides.state_canonical (lt_size_of_successor before),
      provides.state_canonical (framed.bounded _ _ _ before)]
    exact drawn number scanned other before

end Steps

/-- The canonical search keeps its invariant, and all lookaheads stay
drawn. -/
theorem invariant_drawn (wellFormed : grammar.WellFormed)
    (unused : grammar.GoalUnused) (exact : first.Exact grammar)
    {good : State → Prop} (keeps : Keeps grammar first .canonical good) :
    Invariant grammar first .canonical
      (fun collecting => collecting.Resting grammar first .canonical good ∧
        collecting.automaton.Drawn grammar)
      (fun source pending collecting =>
        collecting.Expanding grammar first .canonical good source pending ∧
          collecting.automaton.Drawn grammar) := by
  constructor
  · rintro collecting number queue popped ⟨resting, drawn⟩
    exact ⟨resting.take popped, drawn⟩
  · rintro collecting source symbol pending ⟨expanding, drawn⟩
    obtain ⟨target, provided, provides, equal, -, ready, after⟩ :=
      expanding.addTransition wellFormed unused exact keeps
    refine ⟨after, ?_⟩
    rw [equal]
    exact provides.drawn wellFormed unused expanding.consistent.framed
      expanding.source_lt ready.source_lt drawn
  · rintro collecting source ⟨expanding, drawn⟩
    exact ⟨expanding.rest, drawn⟩

theorem drawn_begin :
    (begin grammar first .canonical).automaton.Drawn grammar := by
  intro source symbol target edge
  have inside := lt_size_of_successor edge
  rw [begin_eq] at inside edge
  have only : source = 0 := Nat.lt_one_iff.mp inside
  subst only
  have successors : (Automaton.empty.add
      (startState grammar first .canonical)).state 0 =
        startState grammar first .canonical := rfl
  rw [successors, State.successor?, successors_startState] at edge
  cases edge

end Collecting

namespace Automaton

variable {grammar : Grammar} {first : FirstSets} {automaton : Automaton}
  (wellFormed : grammar.WellFormed) (unused : grammar.GoalUnused)
  (exact : first.Exact grammar)

include wellFormed unused exact in
theorem drawn_of_collect?
    (result : collect? grammar first .canonical = some automaton) :
    automaton.Drawn grammar := by
  have keeps : Collecting.Keeps grammar first .canonical
      (State.Sound grammar first .canonical) :=
    Collecting.keeps_sound wellFormed unused exact
  rw [collect?, Option.map_eq_some_iff] at result
  obtain ⟨whole, found, rfl⟩ := result
  obtain ⟨final, ⟨-, drawn⟩, -, rfl⟩ :=
    (Collecting.invariant_drawn wellFormed unused exact keeps).run
      ⟨Collecting.resting_begin wellFormed unused exact keeps,
        Collecting.drawn_begin⟩ found
  intro source symbol target edge
  rw [successor?_detach] at edge
  split at edge
  · exact (drawn source symbol target edge).alike (alike_detach _)
      (alike_detach _)
  · cases edge

include wellFormed unused in
/-- If all lookaheads are drawn, a state has only what each word that leads to
it admits. -/
theorem Drawn.admits (drawn : automaton.Drawn grammar)
    (framed : automaton.Framed grammar)
    (evident : automaton.All (State.Evident grammar)) {word : List Symbol}
    {number : Nat} (leads : automaton.Leads word number) {item : Item}
    {terminal : Nat} (has : (automaton.state number).HasContext item terminal) :
    grammar.Admits word item terminal := by
  have spread {word : List Symbol} {number : Nat}
      (leads : automaton.Leads word number)
      (core : ∀ item ∈ (automaton.state number).coreItems, ∀ terminal,
        (automaton.state number).HasContext item terminal →
          grammar.Admits word item terminal)
      {item : Item} {terminal : Nat}
      (has : (automaton.state number).HasContext item terminal) :
      grammar.Admits word item terminal := by
    have kernel := framed.hasKernel wellFormed unused leads
    have snug := (evident number (framed.lt_size leads)).snug
    exact kernel.admits ((snug item terminal has).mono core)
  induction leads generalizing item terminal with
  | start =>
      refine spread .start ?_ has
      intro item core terminal has
      rw [framed.start, List.mem_singleton] at core
      subst core
      obtain ⟨word, -, admits⟩ :=
        (evident _ framed.positive).attested.context _ _ has
      rw [admits.eq_endOfInput wellFormed unused rfl]
      exact .goal
  | @step word source target symbol before edge ih =>
      refine spread (.step before edge) ?_ has
      intro item core terminal has
      obtain ⟨origin, passed, scanned, rfl⟩ := State.arrives_successorCores.mp
        (drawn source symbol target edge item core terminal has)
      exact Grammar.admits_append.mpr ⟨ih passed, scanned⟩

end Automaton

namespace Automaton

variable {grammar : Grammar} {first : FirstSets}
  {lower upper automaton : Automaton}

/-- The automata have the same paths, which lead to the same items in the same
order, and the lookaheads of the first are among those of the second. -/
structure Within (lower upper : Automaton) : Prop where
  paths : ∀ word, (∃ number, lower.Leads word number) ↔
    ∃ number, upper.Leads word number
  items : ∀ word one other, lower.Leads word one → upper.Leads word other →
    (upper.state other).items = (lower.state one).items
  contexts : ∀ word one other, lower.Leads word one →
    upper.Leads word other → ∀ index terminal,
      terminal ∈ ((lower.state one).configuration index).context →
        terminal ∈ ((upper.state other).configuration index).context

section Paths

variable (wellFormed : grammar.WellFormed) (unused : grammar.GoalUnused)
  (exact : first.Exact grammar)

include wellFormed unused in
theorem Faithful.exists_leads (lowerFaithful : lower.Faithful grammar first)
    (upperFaithful : upper.Faithful grammar first) {word : List Symbol}
    {number : Nat} (leads : lower.Leads word number) :
    ∃ other, upper.Leads word other := by
  obtain ⟨item, valid⟩ :=
    lowerFaithful.framed.exists_valid wellFormed unused leads
  exact upperFaithful.framed.exists_leads wellFormed unused
    upperFaithful.total valid

include wellFormed unused in
/-- Only the lookaheads are left to compare. -/
theorem Faithful.within (lowerFaithful : lower.Faithful grammar first)
    (upperFaithful : upper.Faithful grammar first)
    (contexts : ∀ word one other, lower.Leads word one →
      upper.Leads word other → ∀ item terminal,
        (lower.state one).HasContext item terminal →
          (upper.state other).HasContext item terminal) :
    lower.Within upper := by
  have items (word : List Symbol) (one other : Nat)
      (leads : lower.Leads word one) (too : upper.Leads word other) :
      (upper.state other).items = (lower.state one).items :=
    lowerFaithful.items_eq wellFormed unused upperFaithful leads too
  constructor
  · intro word
    constructor
    · rintro ⟨number, leads⟩
      exact lowerFaithful.exists_leads wellFormed unused upperFaithful leads
    · rintro ⟨number, leads⟩
      exact upperFaithful.exists_leads wellFormed unused lowerFaithful leads
  · exact items
  · intro word one other leads too index terminal member
    by_cases inside : index < (lower.state one).configurations.size
    · obtain ⟨place, placeInside, item, inContext⟩ := contexts word one other
        leads too _ terminal ⟨index, inside, rfl, member⟩
      obtain ⟨otherInside, same⟩ :=
        State.item_of_items_eq (items word one other leads too) inside
      have distinct := (upperFaithful.framed.regular other
        (upperFaithful.framed.lt_size too)).distinct
      rw [← distinct place index placeInside otherInside
        (item.trans same.symm)]
      exact inContext
    · rw [State.configuration_of_size_le (Nat.le_of_not_lt inside)] at member
      exact absurd member (TerminalSet.not_mem_empty terminal)

/-- No two states have the same core. -/
def Apart (automaton : Automaton) : Prop :=
  ∀ one < automaton.size, ∀ other < automaton.size,
    (automaton.state one).coreItems = (automaton.state other).coreItems →
      one = other

theorem TracedFrom.apart {base : Automaton}
    (traced : TracedFrom grammar first base automaton) : automaton.Apart := by
  intro one oneInside other otherInside same
  rw [traced.retraced.size] at oneInside otherInside
  rw [(traced.retraced.sameItems one).coreItems,
    (traced.retraced.sameItems other).coreItems] at same
  exact traced.lookaheadless.plain.apart one oneInside other otherInside same

include wellFormed unused exact in
/-- If no word calls for two competing actions, tracing leaves only reductions
to compete. -/
theorem TracedFrom.tame {base : Automaton}
    (deterministic : grammar.Deterministic)
    (traced : TracedFrom grammar first base automaton)
    (unrolled : base.All (State.Unrolled grammar)) (word : List Symbol)
    (number : Nat) (leads : automaton.Leads word number) :
    (automaton.state number).Tame grammar false := by
  have faithful := traced.faithful wellFormed unused exact unrolled
  have inside := faithful.framed.lt_size leads
  exact deterministic.tame (faithful.framed.regular number inside)
    (faithful.framed.closed number inside) (faithful.framed.scanned number)
    (faithful.evident number inside).attested wellFormed unused

include wellFormed unused exact in
theorem TracedFrom.exists_table {base : Automaton}
    (deterministic : grammar.Deterministic)
    (traced : TracedFrom grammar first base automaton)
    (unrolled : base.All (State.Unrolled grammar)) :
    ∃ table, Table.ofAutomaton grammar automaton false = .ok table ∧
      Table.Tells grammar false automaton automaton.size table.log :=
  Table.ofAutomaton_of_tame wellFormed traced.framed
    (traced.terminated wellFormed unused exact)
    (traced.tame wellFormed unused exact deterministic unrolled)

include wellFormed unused exact in
/-- If there is one state for each core, it has all lookaheads of every state
with that core. -/
theorem Faithful.within_apart (lowerFaithful : lower.Faithful grammar first)
    (upperFaithful : upper.Faithful grammar first) (apart : upper.Apart) :
    lower.Within upper := by
  have framed := lowerFaithful.framed
  have upperFramed := upperFaithful.framed
  apply lowerFaithful.within wellFormed unused upperFaithful
  intro word one other leads too item terminal has
  obtain ⟨front, kernel, admits⟩ := (lowerFaithful.evident one
    (framed.lt_size leads)).attested.context item terminal has
  obtain ⟨place, frontLeads⟩ := upperFramed.exists_leads wellFormed unused
    upperFaithful.total admits.valid
  have ascending := framed.ascending_coreItems leads
  have same : place = other := by
    apply apart place (upperFramed.lt_size frontLeads) other
      (upperFramed.lt_size too)
    rw [upperFramed.coreItems_eq wellFormed unused frontLeads kernel ascending,
      upperFramed.coreItems_eq wellFormed unused too
        (framed.hasKernel wellFormed unused leads) ascending]
  rw [← same]
  exact upperFaithful.saturated.hasContext wellFormed unused exact upperFramed
    frontLeads admits

include wellFormed unused exact in
theorem Faithful.within_of_drawn (lowerFaithful : lower.Faithful grammar first)
    (upperFaithful : upper.Faithful grammar first)
    (drawn : lower.Drawn grammar) : lower.Within upper := by
  apply lowerFaithful.within wellFormed unused upperFaithful
  intro word one other leads too item terminal has
  exact upperFaithful.saturated.hasContext wellFormed unused exact
    upperFaithful.framed too (drawn.admits wellFormed unused
      lowerFaithful.framed lowerFaithful.evident leads has)

end Paths

end Automaton

namespace Construction

/-- If no word calls for two competing actions, lanes can be traced. -/
theorem exists_byLanes {grammar : Grammar} {first : FirstSets}
    {base : Automaton} (wellFormed : grammar.WellFormed)
    (unused : grammar.GoalUnused) (exact : first.Exact grammar)
    (deterministic : grammar.Deterministic) (limit : Nat)
    (collected : Automaton.collect? grammar first .lr0 = some base) :
    ∃ output, (byLanes limit grammar first none).built = .ok output ∧
      output.automaton = (base.traceLanes grammar first).automaton := by
  obtain ⟨traced, unrolled⟩ :=
    tracedFrom_of_collect? wellFormed unused exact collected
  obtain ⟨table, filled, -⟩ :=
    traced.exists_table wellFormed unused exact deterministic unrolled
  rw [built_byLanes collected, ofTraced, filled]
  exact ⟨_, rfl, rfl⟩

end Construction

/-- All constructions with lookaheads are nested between the canonical one and
the one by lanes alone. -/
theorem nested_constructions {grammar : Grammar} (accepted : grammar.Accepted)
    (unused : grammar.GoalUnused) {limit : Nat}
    {lowest options highest : Options} {canonical output merged : Output}
    (tracks : options.mode ≠ .lr0)
    (isCanonical :
      grammar.generateWithin limit lowest.canonical = .ok canonical)
    (result : grammar.generateWithin limit options = .ok output)
    (isMerged :
      grammar.generateWithin limit (highest.withMode .lalr) = .ok merged) :
    canonical.automaton.Within output.automaton ∧
      output.automaton.Within merged.automaton := by
  have wellFormed := accepted.wellFormed
  have exact := FirstSets.exact_ofGrammar wellFormed
  have faithful {options : Options} {output : Output}
      (tracks : options.mode ≠ .lr0)
      (result : grammar.generateWithin limit options = .ok output) :
      output.automaton.Faithful grammar (.ofGrammar grammar) :=
    (Grammar.faithful_constructWithin wellFormed unused tracks
      (Grammar.built_of_generateWithin result)).automaton
  have between := faithful tracks result
  constructor
  · have lower : canonical.automaton.Faithful grammar (.ofGrammar grammar) :=
      faithful (by simp [Options.canonical]) isCanonical
    have collected := (Construction.collect?_of_withLookaheads
      (Grammar.built_of_generateWithin isCanonical)).1
    exact lower.within_of_drawn wellFormed unused exact between
      (Automaton.drawn_of_collect? wellFormed unused exact collected)
  · have upper : merged.automaton.Faithful grammar (.ofGrammar grammar) :=
      faithful (by simp [Options.withMode]) isMerged
    obtain ⟨base, collected, unsplit⟩ := Construction.exists_base_of_byLanes
      (Grammar.built_of_generateWithin isMerged)
    have apart := (Construction.tracedFrom_of_collect? wellFormed unused exact
      collected).1.apart
    rw [← (Construction.unsplit_of_ofTraced unsplit).1] at apart
    exact between.within_apart wellFormed unused exact upper apart

/-- Two lanes by which one token is reached, and on each of them two ways to
reduce it that are told apart by the terminal after it.  Merging all states
with the same items confuses the lanes.  More rules may be added. -/
def Grammar.crossedWith (nonterminals : Array String) (rules : Array Rule) :
    Grammar :=
  { terminals :=
      #[{ name := "$end", precedence := none, quoted := false },
        { name := "error", precedence := none, quoted := false },
        { name := "a", precedence := none, quoted := false },
        { name := "b", precedence := none, quoted := false },
        { name := "c", precedence := none, quoted := false },
        { name := "d", precedence := none, quoted := false },
        { name := "e", precedence := none, quoted := false }]
    nonterminals := #["$accept", "S", "E", "F"] ++ nonterminals
    rules :=
      #[{ left := goalSymbol
          right := [.nonterminal 1]
          override := none
          hasCode := false },
        { left := 1
          right := [.terminal 2, .nonterminal 2, .terminal 4]
          override := none
          hasCode := false },
        { left := 1
          right := [.terminal 2, .nonterminal 3, .terminal 5]
          override := none
          hasCode := false },
        { left := 1
          right := [.terminal 3, .nonterminal 3, .terminal 4]
          override := none
          hasCode := false },
        { left := 1
          right := [.terminal 3, .nonterminal 2, .terminal 5]
          override := none
          hasCode := false },
        { left := 2
          right := [.terminal 6]
          override := none
          hasCode := false },
        { left := 3
          right := [.terminal 6]
          override := none
          hasCode := false }] ++ rules
    start := 1
    expect := none }

/-- The crossed lanes alone. -/
def Grammar.crossed : Grammar :=
  crossedWith #[] #[]

theorem accepted_crossed : Grammar.crossed.Accepted := by
  apply Sample.accepted
  show Sample.crossedLanes.grammar = .ok Grammar.crossed
  decide +kernel

theorem goalUnused_crossed : Grammar.crossed.GoalUnused := by
  constructor
  · decide
  · decide

theorem exists_canonical_crossed : ∃ output,
    Grammar.crossed.generateWithin 0 Options.standard.canonical =
        .ok output ∧
      output.table.log.conflicts = #[] ∧
      output.automaton.Leads [.terminal 2, .terminal 6] 6 ∧
      output.automaton.Leads [.terminal 3, .terminal 6] 9 := by
  apply exists_ok_of_any
  cbv

theorem deterministic_crossed : Grammar.crossed.Deterministic := by
  obtain ⟨output, result, clean, -⟩ := exists_canonical_crossed
  exact (Grammar.deterministic_of_canonical accepted_crossed.wellFormed
    goalUnused_crossed result clean).1

theorem exists_output_crossed : ∃ output,
    Grammar.crossed.generateWithin 0 .standard = .ok output ∧
      output.automaton.Leads [.terminal 2, .terminal 6] 6 ∧
      output.automaton.Leads [.terminal 3, .terminal 6] 9 := by
  apply exists_ok_of_any
  cbv

theorem exists_base_crossed : ∃ base,
    Automaton.collect? .crossed (.ofGrammar .crossed) .lr0 = some base ∧
      base.Leads [.terminal 2, .terminal 6] 6 ∧
      base.Leads [.terminal 3, .terminal 6] 6 := by
  apply exists_some_of_any
  cbv

/-- What is merged by lanes alone is kept apart by the others. -/
theorem nested_constructions_crossed : ∃ canonical output merged,
    Options.standard.mode ≠ .lr0 ∧
    Grammar.crossed.generateWithin 0 Options.standard.canonical =
      .ok canonical ∧
    Grammar.crossed.generateWithin 0 .standard = .ok output ∧
    Grammar.crossed.generateWithin 0 (Options.standard.withMode .lalr) =
      .ok merged ∧
    (canonical.automaton.Leads [.terminal 2, .terminal 6] 6 ∧
      canonical.automaton.Leads [.terminal 3, .terminal 6] 9) ∧
    (output.automaton.Leads [.terminal 2, .terminal 6] 6 ∧
      output.automaton.Leads [.terminal 3, .terminal 6] 9) ∧
    (merged.automaton.Leads [.terminal 2, .terminal 6] 6 ∧
      merged.automaton.Leads [.terminal 3, .terminal 6] 6) ∧
    canonical.automaton.Within output.automaton ∧
    output.automaton.Within merged.automaton := by
  have wellFormed := accepted_crossed.wellFormed
  have exact := FirstSets.exact_ofGrammar wellFormed
  obtain ⟨canonical, isCanonical, -, apart⟩ := exists_canonical_crossed
  obtain ⟨output, result, outputApart⟩ := exists_output_crossed
  obtain ⟨base, collected, one, other⟩ := exists_base_crossed
  obtain ⟨merged, built, same⟩ := Construction.exists_byLanes wellFormed
    goalUnused_crossed exact deterministic_crossed 0 collected
  have isMerged : Grammar.crossed.generateWithin 0
      (Options.standard.withMode .lalr) = .ok merged :=
    Grammar.generateWithin_of_built rfl built
  have traced := (Construction.tracedFrom_of_collect? wellFormed
    goalUnused_crossed exact collected).1
  rw [← same] at traced
  have leads {word : List Symbol} {number : Nat} :
      merged.automaton.Leads word number ↔ base.Leads word number :=
    traced.retraced.sameFrame.leads_iff
  have tracks : Options.standard.mode ≠ .lr0 := by decide
  exact ⟨canonical, output, merged, tracks, isCanonical, result, isMerged,
    apart, outputApart, ⟨leads.mpr one, leads.mpr other⟩,
    nested_constructions accepted_crossed goalUnused_crossed tracks isCanonical
      result isMerged⟩

end LRTables
