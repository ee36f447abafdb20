import LRTables.Proofs.ClosureSteps

/-!
# Closure of a state

Closing a state ends with a state in which every scanned nonterminal has all
its rules, with contexts that hold what is passed on and nothing more.
-/

namespace LRTables

/-- A later stage of closing: what does not wait at the later stage did not
wait before, and has kept its context. -/
structure Closing.Precedes (old new : Closing) : Prop where
  extends_state : old.state.Extends new.state
  quiet : ∀ index < new.state.configurations.size,
    index ∉ new.queue.waiting →
      index < old.state.configurations.size ∧ index ∉ old.queue.waiting ∧
        (new.state.configuration index).context =
          (old.state.configuration index).context

namespace Closing

variable {grammar : Grammar} {first : FirstSets} {contexts : Bool}

theorem Precedes.refl (closing : Closing) : closing.Precedes closing := by
  constructor
  · exact .refl _
  · intro index inside quiet
    exact ⟨inside, quiet, rfl⟩

theorem Precedes.trans {start middle finish : Closing}
    (earlier : start.Precedes middle) (later : middle.Precedes finish) :
    start.Precedes finish := by
  constructor
  · exact earlier.extends_state.trans later.extends_state
  · intro index inside quiet
    obtain ⟨middleInside, middleQuiet, kept⟩ := later.quiet index inside quiet
    obtain ⟨startInside, startQuiet, same⟩ :=
      earlier.quiet index middleInside middleQuiet
    exact ⟨startInside, startQuiet, kept.trans same⟩

theorem addRule_precedes (closing : Closing) (origin : Nat)
    (lookaheads : TerminalSet) (rule : Nat) :
    closing.Precedes (closing.addRule origin lookaheads rule) := by
  constructor
  · exact closing.addRule_extends origin lookaheads rule
  · intro index inside quiet
    by_cases old : index < closing.state.configurations.size
    · obtain ⟨oldQuiet, same⟩ := addRule_quiet old quiet
      exact ⟨old, oldQuiet, same⟩
    · cases found : closing.state.find? { rule, dot := 0 } with
      | none =>
          rw [addRule_absent found] at inside quiet
          rw [State.size_append] at inside
          have fresh : index = closing.state.configurations.size := by omega
          exact absurd (WorkQueue.mem_push.mpr (Or.inr fresh)) quiet
      | some target =>
          rw [addRule_present found, State.size_modify] at inside
          exact absurd inside old

/-- Bring in the starts of several rules. -/
def addRules (closing : Closing) (origin : Nat) (lookaheads : TerminalSet)
    (rules : List Nat) : Closing :=
  rules.foldl (addRule origin lookaheads) closing

theorem addRules_precedes (closing : Closing) (origin : Nat)
    (lookaheads : TerminalSet) (rules : List Nat) :
    closing.Precedes (closing.addRules origin lookaheads rules) := by
  induction rules generalizing closing with
  | nil => exact .refl closing
  | cons rule rest ih =>
      exact (closing.addRule_precedes origin lookaheads rule).trans (ih _)

theorem addRules_provides (closing : Closing) (origin : Nat)
    (lookaheads : TerminalSet) {rules : List Nat} {rule : Nat}
    (member : rule ∈ rules) :
    (closing.addRules origin lookaheads rules).state.Provides origin lookaheads
      rule := by
  induction rules generalizing closing with
  | nil => cases member
  | cons other rest ih =>
      rcases List.mem_cons.mp member with rfl | later
      · exact (closing.addRule_provides origin lookaheads rule).extend
          (addRules_precedes _ origin lookaheads rest).extends_state
      · exact ih _ later

theorem addRules_induction (property : Closing → Prop) {closing : Closing}
    {origin : Nat} {lookaheads : TerminalSet} {rules : List Nat}
    (holds : property closing)
    (step : ∀ (middle : Closing), closing.Precedes middle →
      property middle → ∀ rule ∈ rules,
        property (middle.addRule origin lookaheads rule)) :
    property (closing.addRules origin lookaheads rules) := by
  induction rules generalizing closing with
  | nil => exact holds
  | cons rule rest ih =>
      apply ih
      · exact step closing (.refl closing) holds rule List.mem_cons_self
      · intro middle precedes middleHolds other member
        exact step middle
          ((closing.addRule_precedes origin lookaheads rule).trans precedes)
          middleHolds other (List.mem_cons_of_mem _ member)

theorem expand_of_scans {closing : Closing} {index nonterminal : Nat}
    {tail : List Symbol}
    (rest : (closing.state.configuration index).item.rest grammar =
      .nonterminal nonterminal :: tail) :
    closing.expand grammar first contexts index =
      closing.addRules index
        (generated first contexts (closing.state.configuration index).context
          tail)
        (grammar.rulesOf nonterminal) := by
  simp only [expand, rest]
  rfl

theorem expand_of_idle {closing : Closing} {index : Nat}
    (idle : ∀ nonterminal tail,
      (closing.state.configuration index).item.rest grammar ≠
        .nonterminal nonterminal :: tail) :
    closing.expand grammar first contexts index = closing := by
  simp only [expand]

theorem scans_or_idle (grammar : Grammar) (item : Item) :
    (∃ nonterminal tail,
        item.rest grammar = .nonterminal nonterminal :: tail) ∨
      ∀ nonterminal tail,
        item.rest grammar ≠ .nonterminal nonterminal :: tail := by
  by_cases scans : ∃ nonterminal tail,
      item.rest grammar = .nonterminal nonterminal :: tail
  · exact Or.inl scans
  · refine Or.inr fun nonterminal tail equal => scans ?_
    exact ⟨nonterminal, tail, equal⟩

theorem expand_precedes (grammar : Grammar) (first : FirstSets)
    (contexts : Bool) (closing : Closing) (index : Nat) :
    closing.Precedes (closing.expand grammar first contexts index) := by
  rcases scans_or_idle grammar
      (closing.state.configuration index).item with
    ⟨nonterminal, tail, rest⟩ | idle
  · rw [expand_of_scans rest]
    exact closing.addRules_precedes index _ _
  · rw [expand_of_idle idle]
    exact .refl closing

theorem expand_serves {closing : Closing} {index : Nat}
    (inside : index < closing.state.configurations.size)
    (quiet : index ∉
      (closing.expand grammar first contexts index).queue.waiting) :
    (closing.expand grammar first contexts index).state.ServesAt grammar first
      contexts index := by
  have precedes :=
    expand_precedes grammar first contexts closing index
  have grows := precedes.extends_state
  obtain ⟨-, -, same⟩ := precedes.quiet index
    (Nat.lt_of_lt_of_le inside grows.size_le) quiet
  intro nonterminal tail rest rule member
  rw [grows.item index inside] at rest
  rw [same, expand_of_scans rest]
  exact addRules_provides closing index _ member

end Closing

theorem State.ServesAt.extend {grammar : Grammar} {first : FirstSets}
    {contexts : Bool} {old new : State} {index : Nat}
    (serves : old.ServesAt grammar first contexts index)
    (grows : old.Extends new) (inside : index < old.configurations.size)
    (same : (new.configuration index).context =
      (old.configuration index).context) :
    new.ServesAt grammar first contexts index := by
  intro nonterminal tail rest rule member
  rw [grows.item index inside] at rest
  rw [same]
  exact (serves nonterminal tail rest rule member).extend grows

namespace Closing

variable {grammar : Grammar} {first : FirstSets} {contexts : Bool}

/-- What does not wait is served, and what waits is there. -/
structure Consistent (grammar : Grammar) (first : FirstSets) (contexts : Bool)
    (closing : Closing) : Prop where
  waiting_lt : ∀ index ∈ closing.queue.waiting,
    index < closing.state.configurations.size
  served : ∀ index < closing.state.configurations.size,
    index ∉ closing.queue.waiting →
      closing.state.ServesAt grammar first contexts index

theorem expand_waiting_lt {closing : Closing} {index : Nat}
    (bounded : ∀ other ∈ closing.queue.waiting,
      other < closing.state.configurations.size) :
    ∀ other ∈ (closing.expand grammar first contexts index).queue.waiting,
      other < (closing.expand grammar first contexts
        index).state.configurations.size := by
  rcases scans_or_idle grammar
      (closing.state.configuration index).item with
    ⟨nonterminal, tail, rest⟩ | idle
  · rw [expand_of_scans rest]
    exact addRules_induction
      (fun closing => ∀ other ∈ closing.queue.waiting,
        other < closing.state.configurations.size)
      bounded fun _ _ holds _ _ => addRule_queue_lt holds
  · rw [expand_of_idle idle]
    exact bounded

theorem Consistent.expand {closing : Closing} {queue : WorkQueue Nat}
    {index : Nat} (consistent : closing.Consistent grammar first contexts)
    (popped : closing.queue.pop = some (index, queue)) :
    Consistent grammar first contexts
      (expand grammar first contexts { closing with queue } index) := by
  have waiting := WorkQueue.waiting_of_pop popped
  have precedes :=
    expand_precedes grammar first contexts { closing with queue } index
  constructor
  · apply expand_waiting_lt
    intro other waits
    exact consistent.waiting_lt other
      (waiting ▸ List.mem_cons_of_mem _ waits)
  · intro other inside quiet
    obtain ⟨oldInside, oldQuiet, same⟩ := precedes.quiet other inside quiet
    by_cases itself : other = index
    · subst itself
      exact expand_serves oldInside quiet
    · refine State.ServesAt.extend ?_ precedes.extends_state oldInside same
      apply consistent.served other oldInside
      rw [waiting, List.mem_cons, not_or]
      exact ⟨itself, oldQuiet⟩

theorem run_induction {property : Closing → Prop}
    (step : ∀ closing queue index,
      closing.queue.pop = some (index, queue) → property closing →
        property (expand grammar first contexts { closing with queue } index))
    (limit : Nat) {closing : Closing} (holds : property closing) :
    property (run grammar first contexts limit closing) := by
  induction limit generalizing closing with
  | zero => exact holds
  | succ limit ih =>
      rw [run]
      split
      · exact holds
      · rename_i index queue popped
        exact ih (step closing queue index popped holds)

theorem expand_within {items : Item → Prop} {lookaheads : Item → Nat → Prop}
    (bounds : ClosedBounds grammar first contexts items lookaheads)
    {closing : Closing} {index : Nat}
    (inside : index < closing.state.configurations.size)
    (within : closing.state.Within items lookaheads) :
    (closing.expand grammar first contexts index).state.Within items
      lookaheads := by
  rcases scans_or_idle grammar (closing.state.configuration index).item with
    ⟨nonterminal, tail, rest⟩ | idle
  · rw [expand_of_scans rest]
    obtain ⟨item, context⟩ := within index inside
    apply addRules_induction
      (fun closing => closing.state.Within items lookaheads) within
    intro middle _ holds rule member
    obtain ⟨added, passed⟩ :=
      bounds _ nonterminal tail rule _ item rest member context
    exact addRule_within holds added passed
  · rw [expand_of_idle idle]
    exact within

theorem expand_distinct {closing : Closing} {index : Nat}
    (distinct : closing.state.Distinct) :
    (closing.expand grammar first contexts index).state.Distinct := by
  rcases scans_or_idle grammar (closing.state.configuration index).item with
    ⟨nonterminal, tail, rest⟩ | idle
  · rw [expand_of_scans rest]
    exact addRules_induction (fun closing => closing.state.Distinct) distinct
      fun _ _ holds _ _ => addRule_distinct holds
  · rw [expand_of_idle idle]
    exact distinct

theorem expand_originatorsSound {closing : Closing} {index : Nat}
    (inside : index < closing.state.configurations.size)
    (sound : closing.state.OriginatorsSound grammar) :
    (closing.expand grammar first contexts
      index).state.OriginatorsSound grammar := by
  rcases scans_or_idle grammar (closing.state.configuration index).item with
    ⟨nonterminal, tail, rest⟩ | idle
  · rw [expand_of_scans rest]
    apply addRules_induction
      (fun closing => closing.state.OriginatorsSound grammar) sound
    intro middle precedes holds rule member
    have grows := precedes.extends_state
    apply addRule_originatorsSound holds
    · exact Nat.lt_of_lt_of_le inside grows.size_le
    · rw [grows.item index inside, (Item.scanned_of_rest rest).1,
        (Grammar.mem_rulesOf.mp member).2]
  · rw [expand_of_idle idle]
    exact sound

theorem expand_potential {closing : Closing} {index width : Nat}
    (bounded : ∀ nonterminal tail,
      (closing.state.configuration index).item.rest grammar =
        .nonterminal nonterminal :: tail →
      ∀ rule ∈ grammar.rulesOf nonterminal,
        ∀ terminal ∈ generated first contexts
            (closing.state.configuration index).context tail,
          terminal < width) :
    potential grammar width (closing.expand grammar first contexts index) ≤
      potential grammar width closing := by
  rcases scans_or_idle grammar (closing.state.configuration index).item with
    ⟨nonterminal, tail, rest⟩ | idle
  · rw [expand_of_scans rest]
    apply addRules_induction
      (fun later => potential grammar width later ≤
        potential grammar width closing) (Nat.le_refl _)
    intro middle _ holds rule member
    have step := @addRule_potential grammar middle index rule width _
      (Grammar.mem_rulesOf.mp member).1
      (bounded nonterminal tail rest rule member)
    exact step.trans holds
  · rw [expand_of_idle idle]

theorem potential_pop {closing : Closing} {queue : WorkQueue Nat}
    {index width : Nat} (popped : closing.queue.pop = some (index, queue)) :
    potential grammar width { closing with queue } + 1 =
      potential grammar width closing := by
  simp only [potential, WorkQueue.waiting_of_pop popped, List.length_cons]
  omega

/-- With enough steps, nothing is left waiting. -/
theorem run_empties {width : Nat}
    (bounds : ClosedBounds grammar first contexts (fun _ => True)
      fun _ terminal => terminal < width)
    {limit : Nat} {closing : Closing}
    (bounded : ∀ index ∈ closing.queue.waiting,
      index < closing.state.configurations.size)
    (within : closing.state.Within (fun _ => True)
      fun _ terminal => terminal < width)
    (enough : potential grammar width closing ≤ limit) :
    (run grammar first contexts limit closing).queue.waiting = [] := by
  induction limit generalizing closing with
  | zero =>
      rw [run]
      apply List.eq_nil_of_length_eq_zero
      unfold potential at enough
      omega
  | succ limit ih =>
      rw [run]
      split
      · rename_i none
        exact WorkQueue.pop_eq_none.mp none
      · rename_i index queue popped
        have waiting := WorkQueue.waiting_of_pop popped
        have inside : index < closing.state.configurations.size :=
          bounded index (waiting ▸ List.mem_cons_self)
        apply ih
        · apply expand_waiting_lt
          intro other waits
          exact bounded other (waiting ▸ List.mem_cons_of_mem _ waits)
        · exact expand_within bounds inside within
        · have less := @potential_pop grammar closing queue index width popped
          have step : potential grammar width
                (expand grammar first contexts { closing with queue } index) ≤
              potential grammar width { closing with queue } := by
            apply expand_potential
            intro nonterminal tail rest rule member
            exact (bounds _ nonterminal tail rule _ trivial rest member
              (within index inside).2).2
          omega

end Closing

namespace Grammar

variable {grammar : Grammar}

theorem Derives.declares (wellFormed : grammar.WellFormed)
    {first second : List Symbol} (derives : grammar.Derives first second)
    (declared : ∀ symbol ∈ first, grammar.Declares symbol) :
    ∀ symbol ∈ second, grammar.Declares symbol := by
  induction derives with
  | refl => exact declared
  | tail _ step ih =>
      cases step with
      | @replace before after rule valid =>
          intro symbol member
          simp only [List.mem_append] at member
          rcases member with (inBefore | inRight) | inAfter
          · exact ih symbol (List.mem_append_left _ inBefore)
          · exact wellFormed.right_declared rule symbol inRight
          · apply ih symbol
            exact List.mem_append_right _ (List.mem_cons_of_mem _ inAfter)

theorem Begins.lt (wellFormed : grammar.WellFormed) {symbols : List Symbol}
    {terminal : Nat} (begins : grammar.Begins symbols terminal)
    (declared : ∀ symbol ∈ symbols, grammar.Declares symbol) :
    terminal < grammar.terminals.size := by
  obtain ⟨rest, derives⟩ := begins
  exact derives.declares wellFormed declared (.terminal terminal)
    List.mem_cons_self

end Grammar

namespace Closing

variable {grammar : Grammar} {first : FirstSets} {contexts : Bool}

theorem mem_generated (exact : first.Exact grammar)
    {context : TerminalSet} {tail : List Symbol}
    (declared : ∀ symbol ∈ tail, grammar.Declares symbol) {terminal : Nat} :
    terminal ∈ generated first true context tail ↔
      grammar.Begins tail terminal ∨
        grammar.Vanishes tail ∧ terminal ∈ context := by
  have begins := exact.begins tail declared terminal
  have vanishes := exact.vanishes tail declared
  rw [generated, if_pos rfl]
  split
  · rename_i heads equal
    rw [equal] at begins vanishes
    have always : grammar.Vanishes tail := vanishes.mp rfl
    rw [TerminalSet.mem_union, ← begins]
    simp [always]
  · rename_i heads equal
    rw [equal] at begins vanishes
    have never : ¬ grammar.Vanishes tail := by
      intro vanish
      cases vanishes.mpr vanish
    rw [← begins]
    simp [never]

theorem not_mem_generated {context : TerminalSet} {tail : List Symbol}
    {terminal : Nat} : terminal ∉ generated first false context tail := by
  simp [generated]

/-- Lookaheads stay below a bound that all terminals of the grammar keep. -/
theorem bounds_lt (contexts : Bool) (wellFormed : grammar.WellFormed)
    (exact : first.Exact grammar) {width : Nat}
    (wide : grammar.terminals.size ≤ width) :
    ClosedBounds grammar first contexts (fun _ => True)
      fun _ terminal => terminal < width := by
  intro item nonterminal tail rule context _ rest _ bounded
  refine ⟨trivial, ?_⟩
  intro terminal member
  cases contexts with
  | false => exact absurd member not_mem_generated
  | true =>
      have declared : ∀ symbol ∈ tail, grammar.Declares symbol := by
        rw [← (Item.scanned_of_rest rest).2]
        exact Grammar.declares_tail wellFormed item
      rcases (mem_generated exact declared).mp member with begins | inherited
      · exact Nat.lt_of_lt_of_le (begins.lt wellFormed declared) wide
      · exact bounded terminal inherited.2

end Closing

theorem le_foldl_max {α : Type} (measure : α → Nat) (members : List α)
    (start : Nat) :
    start ≤ members.foldl (fun width member => max width (measure member))
        start ∧
      ∀ member ∈ members, measure member ≤
        members.foldl (fun width member => max width (measure member))
          start := by
  induction members generalizing start with
  | nil => simp
  | cons member rest ih =>
      obtain ⟨atLeast, others⟩ := ih (max start (measure member))
      refine ⟨(Nat.le_max_left _ _).trans atLeast, ?_⟩
      intro other listed
      rcases List.mem_cons.mp listed with rfl | later
      · exact (Nat.le_max_right _ _).trans atLeast
      · exact others other later

namespace State

variable {grammar : Grammar} {first : FirstSets} {contexts : Bool}
  {state : State}

theorem le_contextWidth (grammar : Grammar) (state : State) :
    grammar.terminals.size ≤ state.contextWidth grammar ∧
      ∀ index < state.configurations.size,
        ∀ terminal ∈ (state.configuration index).context,
          terminal < state.contextWidth grammar := by
  obtain ⟨wide, bounds⟩ := le_foldl_max
    (fun configuration : Configuration => configuration.context.bound)
    state.configurations.toList grammar.terminals.size
  rw [contextWidth, ← Array.foldl_toList]
  refine ⟨wide, ?_⟩
  intro index inside terminal member
  refine Nat.lt_of_lt_of_le (TerminalSet.lt_bound_of_mem member) ?_
  apply bounds
  rw [Array.mem_toList_iff]
  exact mem_configurations.mpr ⟨index, inside, rfl⟩

/-- All configurations wait. -/
def closingStart (state : State) : Closing :=
  { state
    queue := .ofList (List.range state.configurations.size)
    changed := false }

theorem close_eq : (state.close grammar first contexts).1 =
    (Closing.run grammar first contexts (state.closingLimit grammar)
      state.closingStart).state :=
  rfl

theorem waiting_closingStart {index : Nat} :
    index ∈ state.closingStart.queue.waiting ↔
      index < state.configurations.size := by
  simp [closingStart, WorkQueue.mem_ofList]

theorem consistent_closingStart :
    state.closingStart.Consistent grammar first contexts := by
  constructor
  · intro index waits
    exact waiting_closingStart.mp waits
  · intro index inside quiet
    exact absurd (waiting_closingStart.mpr inside) quiet

theorem potential_closingStart_le :
    Closing.potential grammar (state.contextWidth grammar)
        state.closingStart ≤ state.closingLimit grammar := by
  have waiting := WorkQueue.length_ofList_le
    (List.range state.configurations.size)
  rw [List.length_range] at waiting
  have room := Closing.roomOf_le (state.contextWidth grammar) state
  have missing := Nat.mul_le_mul_right (state.contextWidth grammar + 1)
    (Closing.missing_le grammar state)
  rw [closingLimit, Nat.add_mul, Nat.mul_succ]
  simp only [Closing.potential, closingStart]
  omega

theorem close_consistent :
    (Closing.run grammar first contexts (state.closingLimit grammar)
      state.closingStart).Consistent grammar first contexts := by
  apply Closing.run_induction (fun _ _ _ popped holds => holds.expand popped)
  exact consistent_closingStart

theorem close_extends :
    state.Extends (state.close grammar first contexts).1 := by
  rw [close_eq]
  apply @Closing.run_induction grammar first contexts
    (fun closing => state.Extends closing.state)
  · intro closing queue index _ holds
    exact holds.trans (Closing.expand_precedes grammar first contexts
      { closing with queue } index).extends_state
  · exact .refl state

/-- When closing ends, no configuration waits. -/
theorem closing_ends (wellFormed : grammar.WellFormed)
    (exact : first.Exact grammar) :
    (Closing.run grammar first contexts (state.closingLimit grammar)
      state.closingStart).queue.waiting = [] := by
  obtain ⟨wide, bounded⟩ := state.le_contextWidth grammar
  have bounds := Closing.bounds_lt contexts wellFormed exact wide
  have within : state.closingStart.state.Within (fun _ => True)
      fun _ terminal => terminal < state.contextWidth grammar := by
    intro index inside
    exact ⟨trivial, bounded index inside⟩
  apply Closing.run_empties bounds _ within potential_closingStart_le
  intro index waits
  exact waiting_closingStart.mp waits

theorem close_closed (wellFormed : grammar.WellFormed)
    (exact : first.Exact grammar) :
    (state.close grammar first contexts).1.Closed grammar first contexts := by
  intro origin inside
  apply close_consistent.served origin inside
  rw [closing_ends wellFormed exact]
  exact List.not_mem_nil

/-- A property that every expansion keeps holds of the closed state. -/
theorem close_induction (property : State → Prop)
    (step : ∀ (closing : Closing) (index : Nat),
      index < closing.state.configurations.size → property closing.state →
        property (closing.expand grammar first contexts index).state)
    (holds : property state) :
    property (state.close grammar first contexts).1 := by
  have whole := @Closing.run_induction grammar first contexts
    (fun closing => closing.Consistent grammar first contexts ∧
      property closing.state)
    (by
      intro closing queue index popped both
      have waiting := WorkQueue.waiting_of_pop popped
      refine ⟨both.1.expand popped, ?_⟩
      apply step { closing with queue } index
      · exact both.1.waiting_lt index (waiting ▸ List.mem_cons_self)
      · exact both.2)
    (state.closingLimit grammar) state.closingStart
    ⟨consistent_closingStart, holds⟩
  exact whole.2

theorem close_distinct (distinct : state.Distinct) :
    (state.close grammar first contexts).1.Distinct :=
  close_induction State.Distinct
    (fun _ _ _ holds => Closing.expand_distinct holds) distinct

theorem close_within {items : Item → Prop} {lookaheads : Item → Nat → Prop}
    (bounds : ClosedBounds grammar first contexts items lookaheads)
    (within : state.Within items lookaheads) :
    (state.close grammar first contexts).1.Within items lookaheads :=
  close_induction (fun state => state.Within items lookaheads)
    (fun _ _ inside holds => Closing.expand_within bounds inside holds) within

theorem close_originatorsSound (sound : state.OriginatorsSound grammar) :
    (state.close grammar first contexts).1.OriginatorsSound grammar :=
  close_induction (fun state => state.OriginatorsSound grammar)
    (fun _ _ inside holds => Closing.expand_originatorsSound inside holds)
    sound

end State

end LRTables
