import LRTables.Proofs.MarkedLanes

/-!
# What a region knows of lanes

The region of the conflicts has the states and the terminals of all their lanes.
A lane leads back for as long as lookaheads are passed on, and the state in
which its terminal is generated is a head.
-/

namespace LRTables

/-- The lanes in the automaton are all in the region, and so are those that
rivals with a shared lookahead are on. -/
structure Region.Charts (grammar : Grammar) (region : Region)
    (automaton : Automaton) (onLane : Nat → Item → Nat → Prop) : Prop where
  heads : ∀ head ∈ region.heads,
    head < automaton.size ∧ region.contains head = true
  states : ∀ number item terminal, onLane number item terminal →
    region.contains number = true
  terminals : ∀ number item terminal, onLane number item terminal →
    terminal ∈ region.terminalsAt number
  /-- A lane leads back over a transition, and the region has that. -/
  onward : ∀ source symbol target item terminal,
    (automaton.state source).successor? symbol = some target →
      item.scanned grammar = some symbol →
        (automaton.state source).HasContext item terminal →
          onLane target item.advance terminal →
            onLane source item terminal ∧ target ∈ region.onwardFrom source
  handed : ∀ number item inner terminal, grammar.Hands item inner →
    (automaton.state number).HasContext item terminal →
      onLane number inner terminal → onLane number item terminal
  /-- Where the terminal of a lane is generated there is a head. -/
  generated : ∀ number item nonterminal rule terminal,
    item ∈ (automaton.state number).items →
      item.scanned grammar = some (.nonterminal nonterminal) →
        rule ∈ grammar.rulesOf nonterminal →
          grammar.Begins (item.tail grammar) terminal →
            onLane number { rule, dot := 0 } terminal →
              number ∈ region.heads
  goal : ∀ number terminal, onLane number .goal terminal →
    number ∈ region.heads
  rivals : ∀ here there terminal, grammar.Rivals here there →
    ∀ word number, automaton.Leads word number →
      (automaton.state number).HasContext here terminal →
        (automaton.state number).HasContext there terminal →
          onLane number here terminal ∧ onLane number there terminal

namespace Automaton

variable {grammar : Grammar} {first : FirstSets} {automaton base : Automaton}
  {log : ConflictLog} {number terminal : Nat} {item : Item}

theorem TracedFrom.hasContext_mark
    (traced : TracedFrom grammar first base automaton) :
    ((automaton.markConflictLanes grammar first log).1.state
        number).HasContext item terminal ↔
      (automaton.state number).HasContext item terminal := by
  have marked := traced.mark log
  have same (index : Nat) :
      ((automaton.markConflictLanes grammar first log).1.state
          number).configuration index =
        ((automaton.state number).configuration index).withLaneMark _ :=
    @configuration_foldl_mark automaton { state := number, index } _
  unfold State.HasContext
  simp only [marked.retraced.sizes, traced.retraced.sizes, same,
    Configuration.withLaneMark]

section Charts

variable (wellFormed : grammar.WellFormed) (unused : grammar.GoalUnused)
  (exact : first.Exact grammar)
  (traced : TracedFrom grammar first base automaton)

include wellFormed unused exact traced

theorem TracedFrom.mem_onwardFrom {source target : Nat} {symbol : Symbol}
    (edge : (automaton.state source).successor? symbol = some target)
    (scans : item.scanned grammar = some symbol)
    (has : (automaton.state source).HasContext item terminal)
    (onLane : automaton.OnLane grammar first log target item.advance
      terminal) :
    target ∈
      (automaton.markConflictLanes grammar first log).2.onwardFrom source := by
  have laned := traced.lookaheadless.laned wellFormed unused
  obtain ⟨index, isAdvance, isMember⟩ := onLane
  obtain ⟨origin, _, rfl, inContext⟩ := has
  have moved : 0 <
      (automaton.configuration { state := target, index }).item.dot := by
    rw [isAdvance]
    exact Nat.succ_pos _
  have held := context_of_laneMembers
    (traced.terminated wellFormed unused exact) isMember
  have becomes : base.Becomes grammar { state := source, index := origin }
      { state := target, index } :=
    traced.becomes edge scans isAdvance inContext
  have isTransitor : ({ state := source, index := origin } : Place) ∈
      (automaton.configuration { state := target, index }).transitors := by
    rw [(traced.retraced.relabels _).transitors]
    exact (laned.wired _ (traced.holds_of_mem_context held) _).mpr becomes
  refine mem_onwardFrom_mark.mpr
    ⟨_, isMember, rfl, { state := source, index := origin }, ?_, rfl⟩
  rw [Region.crossed, if_pos moved]
  exact List.mem_filter.mpr
    ⟨isTransitor, TerminalSet.mem_iff_contains.mp inContext⟩

theorem TracedFrom.mem_heads_of_generated {nonterminal rule : Nat}
    (present : item ∈ (automaton.state number).items)
    (scans : item.scanned grammar = some (.nonterminal nonterminal))
    (member : rule ∈ grammar.rulesOf nonterminal)
    (begins : grammar.Begins (item.tail grammar) terminal)
    (onLane : automaton.OnLane grammar first log number { rule, dot := 0 }
      terminal) :
    number ∈ (automaton.markConflictLanes grammar first log).2.heads := by
  have laned := traced.lookaheadless.laned wellFormed unused
  have relabels := traced.retraced.relabels
  obtain ⟨index, isRule, isMember⟩ := onLane
  have held := context_of_laneMembers
    (traced.terminated wellFormed unused exact) isMember
  have baseHolds := traced.holds_of_mem_context held
  obtain ⟨origin, originInside, isItem⟩ := State.mem_items.mp present
  rw [traced.retraced.sizes] at originInside
  have baseRule : (base.configuration { state := number, index }).item =
      { rule, dot := 0 } := (relabels _).item ▸ isRule
  have baseItem : (base.configuration
      { state := number, index := origin }).item = item :=
    (relabels _).item ▸ isItem
  have notGoal : ({ rule, dot := 0 } : Item) ≠ .goal := fun isGoal =>
    Grammar.rule_ne_goalRule wellFormed unused scans member
      (congrArg Item.rule isGoal)
  have isOrigin : origin ∈
      (base.configuration { state := number, index }).originators := by
    rw [laned.sourced _ baseHolds (by rw [baseRule])]
    refine ⟨⟨baseHolds.1, originInside⟩, ?_⟩
    rw [baseItem, baseRule, scans, (Grammar.mem_rulesOf.mp member).2]
  have generates : base.Generates grammar first { state := number, index }
      terminal := by
    rw [generates_of_ne_goal (baseRule.symm ▸ notGoal), baseRule]
    refine ⟨rfl, origin, isOrigin, ?_⟩
    rw [baseItem]
    exact (exact.begins _ (Grammar.declares_tail wellFormed _) terminal).mpr
      begins
  exact mem_heads_mark.mpr ⟨_, isMember, rfl,
    (traced.isLaneHead_iff held).mpr
      (traced.retraced.generates_iff.mpr generates)⟩

omit wellFormed unused exact traced in
theorem mem_heads_of_goal
    (onLane : automaton.OnLane grammar first log number .goal terminal) :
    number ∈ (automaton.markConflictLanes grammar first log).2.heads := by
  obtain ⟨index, isGoal, isMember⟩ := onLane
  refine mem_heads_mark.mpr ⟨_, isMember, rfl, ?_⟩
  unfold isLaneHead
  dsimp only
  rw [if_pos isGoal]

/-- The region of the conflicts has all lanes that lead to them. -/
theorem TracedFrom.charts
    (tame : ∀ word number, automaton.Leads word number →
      (automaton.state number).Tame grammar false)
    (tells : Table.Tells grammar false automaton automaton.size log)
    (unrolled : base.All (State.Unrolled grammar)) :
    (automaton.markConflictLanes grammar first log).2.Charts grammar
      (automaton.markConflictLanes grammar first log).1
      (automaton.OnLane grammar first log) := by
  have marked := traced.mark log
  have edges (source : Nat) (symbol : Symbol) :
      ((automaton.markConflictLanes grammar first log).1.state
          source).successor? symbol =
        (automaton.state source).successor? symbol :=
    (marked.retraced.sameFrame.successor?_eq _ _).trans
      (traced.retraced.sameFrame.successor?_eq _ _).symm
  have contexts {number : Nat} {item : Item} {terminal : Nat} :=
    @hasContext_mark grammar first automaton base log number terminal item
      traced
  constructor
  · intro head isHead
    obtain ⟨member, isMember, isState, -⟩ := mem_heads_mark.mp isHead
    have holds := Automaton.holds_of_mem_context (context_of_laneMembers
      (traced.terminated wellFormed unused exact) isMember)
    refine ⟨?_, contains_mark.mpr ⟨member, isMember, isState⟩⟩
    rw [marked.retraced.size, ← traced.retraced.size, ← isState]
    exact holds.1
  · rintro number item terminal ⟨index, -, isMember⟩
    exact contains_mark.mpr ⟨_, isMember, rfl⟩
  · rintro number item terminal ⟨index, -, isMember⟩
    exact mem_terminalsAt_mark.mpr ⟨_, isMember, rfl, rfl⟩
  · intro source symbol target item terminal edge scans has onLane
    rw [edges] at edge
    have held := contexts.mp has
    exact ⟨traced.onLane_of_advance wellFormed unused exact edge scans held
        onLane,
      traced.mem_onwardFrom wellFormed unused exact edge scans held onLane⟩
  · intro number item inner terminal hands has onLane
    exact traced.onLane_of_hands wellFormed unused exact hands
      (contexts.mp has) onLane
  · intro number item nonterminal rule terminal present scans member begins
      onLane
    refine traced.mem_heads_of_generated wellFormed unused exact ?_ scans member
      begins onLane
    rw [(traced.retraced.sameItems number).items,
      ← (marked.retraced.sameItems number).items]
    exact present
  · exact fun number terminal => mem_heads_of_goal
  · intro here there terminal rivals word number leads hasHere hasThere
    have before : automaton.Leads word number :=
      traced.retraced.sameFrame.leads_iff.mpr
        (marked.retraced.sameFrame.leads_iff.mp leads)
    exact traced.onLane_of_rivals wellFormed unused exact tame tells unrolled
      rivals before (contexts.mp hasHere) (contexts.mp hasThere)

end Charts

end Automaton

end LRTables
