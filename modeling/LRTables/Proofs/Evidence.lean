import LRTables.Proofs.Attestations
import LRTables.Proofs.Sustained

/-!
# Evident states

A state is evident if its lookaheads are those that its core carries, and all
of them are attested.  Splitting and propagation keep states evident.
-/

namespace LRTables

namespace State

variable {grammar : Grammar} {first : FirstSets} {state : State}

/-- Every lookahead of the state has a reason in the state and is admitted
after some word. -/
structure Evident (grammar : Grammar) (state : State) : Prop where
  snug : state.Snug grammar
  attested : state.Attested grammar

theorem coreItems_resetContexts (regular : state.Regular grammar) :
    (state.resetContexts grammar first).coreItems = state.coreItems := by
  have same := state.cleared_sameItems
  have cleared : state.cleared.Regular grammar :=
    same.regular regular regular.originators.cleared
  rw [resetContexts_eq, close_coreItems cleared.coreCount_le, same.coreItems]

theorem Arrives.hasContext_of_cores (regular : state.Regular grammar)
    {item : Item} {terminal : Nat}
    (arrives : Arrives state.cores item terminal) :
    state.HasContext item terminal := by
  obtain ⟨configuration, member, rfl, inContext⟩ := arrives
  rw [cores_eq regular.coreCount_le, List.mem_map] at member
  obtain ⟨index, core, rfl⟩ := member
  exact ⟨index, Nat.lt_of_lt_of_le (List.mem_range.mp core)
    regular.coreCount_le, rfl, inContext⟩

theorem HasContext.arrives_cores (regular : state.Regular grammar)
    {item : Item} {terminal : Nat} (core : item ∈ state.coreItems)
    (has : state.HasContext item terminal) :
    Arrives state.cores item terminal := by
  obtain ⟨index, inside, rfl⟩ :=
    (State.mem_coreItems regular.coreCount_le).mp core
  have bound := Nat.lt_of_lt_of_le inside regular.coreCount_le
  rw [cores_eq regular.coreCount_le]
  exact ⟨_, List.mem_map_of_mem (List.mem_range.mpr inside), rfl,
    (regular.hasContext_iff bound).mp has⟩

theorem eq_goal_of_resetContexts (wellFormed : grammar.WellFormed)
    (unused : grammar.GoalUnused) (regular : state.Regular grammar)
    {item : Item} {terminal : Nat} (member : item ∈ state.coreItems)
    (has : (state.resetContexts grammar first).HasContext item terminal) :
    item = .goal ∧ terminal = Terminal.endOfInput := by
  have cleared : state.cleared.Regular grammar :=
    state.cleared_sameItems.regular regular regular.originators.cleared
  have inKernel := (regular.mem_coreItems.mp member).2
  rw [resetContexts_eq, cleared.hasContext_close wellFormed unused inKernel,
    hasContext_cleared] at has
  exact has.2

theorem snug_resetContexts (wellFormed : grammar.WellFormed)
    (exact : first.Exact grammar) (regular : state.Regular grammar) :
    (state.resetContexts grammar first).Snug grammar := by
  have same := state.cleared_sameItems
  have cleared : state.cleared.Regular grammar :=
    same.regular regular regular.originators.cleared
  have bare : state.cleared.Snug grammar := by
    intro item terminal has
    obtain ⟨member, rfl, -⟩ := hasContext_cleared.mp has
    refine .kernel ?_ has
    show Item.goal ∈ state.cleared.coreItems
    rw [same.coreItems]
    exact regular.mem_coreItems.mpr ⟨member, Or.inl rfl⟩
  exact bare.close wellFormed exact cleared

/-- After a reset any of the words justifies what lookaheads there are. -/
theorem justified_resetContexts (wellFormed : grammar.WellFormed)
    (unused : grammar.GoalUnused) (exact : first.Exact grammar)
    (regular : state.Regular grammar) {reading : List Symbol → Prop}
    (kernel : ∀ word, reading word → state.HasKernel grammar word)
    (exists_word : ∃ word, reading word) :
    (state.resetContexts grammar first).Justified grammar reading := by
  have items := @coreItems_resetContexts grammar first state regular
  apply (snug_resetContexts wellFormed exact regular).justified
  · exact fun word read => (kernel word read).transfer items
  · exact exists_word
  · intro item member terminal has
    obtain ⟨word, read⟩ := exists_word
    rw [items] at member
    obtain ⟨rfl, rfl⟩ :=
      eq_goal_of_resetContexts wellFormed unused regular member has
    have empty := ((kernel word read .goal).mp member).1.eq_nil_of_goal
      wellFormed unused
    subst empty
    exact ⟨[], read, .goal⟩

theorem evident_resetContexts (wellFormed : grammar.WellFormed)
    (unused : grammar.GoalUnused) (exact : first.Exact grammar)
    (regular : state.Regular grammar)
    (exists_word : ∃ word, state.HasKernel grammar word) :
    (state.resetContexts grammar first).Evident grammar := by
  have core := @coreItems_resetContexts grammar first state regular
  refine ⟨snug_resetContexts wellFormed exact regular, ?_, ?_⟩
  · obtain ⟨word, kernel⟩ := exists_word
    exact ⟨word, kernel.transfer core⟩
  · intro item terminal has
    obtain ⟨word, kernel, admits⟩ := justified_resetContexts wellFormed unused
      exact regular (fun _ kernel => kernel) exists_word item terminal has
    exact ⟨word, kernel.transfer core, admits⟩

end State

/-- Splitting keeps states evident. -/
theorem sustains_evident {grammar : Grammar} {first : FirstSets}
    (wellFormed : grammar.WellFormed) (unused : grammar.GoalUnused)
    (exact : first.Exact grammar) (clean : Prop) :
    Sustains grammar first clean (State.Evident grammar) := by
  have reset (state : State) (regular : state.Regular grammar)
      (evident : state.Evident grammar) :
      (state.resetContexts grammar first).Evident grammar :=
    State.evident_resetContexts wellFormed unused exact regular
      evident.attested.exists_word
  constructor
  · exact fun state evident => evident.snug
  · rintro old new alike ⟨snug, attested⟩
    exact ⟨alike.snug snug, attested.alike alike⟩
  · intro state regular _ evident
    exact reset state regular evident
  · intro _ state new regular _ evident joined
    have same := joined.sameItems.coreItems
    have core := @State.coreItems_resetContexts grammar first state regular
    have kept {word : List Symbol} (kernel : state.HasKernel grammar word) :
        new.HasKernel grammar word :=
      kernel.transfer (same.trans core)
    refine ⟨joined.snug, joined.snug.attested ?_ ?_⟩
    · obtain ⟨word, kernel⟩ := evident.attested.exists_word
      exact ⟨word, kept kernel⟩
    · intro item member terminal has
      have inKernel := (joined.regular.mem_coreItems.mp member).2
      rcases (joined.core item terminal inKernel).mp has with before | arrives
      · obtain ⟨word, kernel, admits⟩ :=
          (reset state regular evident).attested.context item terminal before
        exact ⟨word, kernel.transfer same, admits⟩
      · obtain ⟨word, kernel, admits⟩ := evident.attested.context item
          terminal (arrives.hasContext_of_cores regular)
        exact ⟨word, kept kernel, admits⟩
  · intro source target new symbol regular closed sourceEvident evident
      matching _ joined
    refine ⟨joined.snug, joined.attested wellFormed unused ?_ regular closed
      sourceEvident.attested evident.attested⟩
    rw [matching.items, State.items_successorCores]

end LRTables
