import LRTables.Automaton.Collection
import LRTables.Proofs.Merges
import LRTables.Proofs.Paths

/-!
# Outcomes of a transition

A transition of a collection leads to a state that has all that arrives, to a
state that is joined with it, or to a new state.
-/

namespace LRTables

namespace State

variable {grammar : Grammar} {state : State} {cores : List Configuration}
  {precision : Precision}

theorem hasCores_iff_aligned (distinct : state.Distinct)
    (bound : state.coreCount ≤ state.configurations.size) :
    state.hasCores cores = true ↔ state.Aligned cores := by
  rw [hasCores, Bool.and_eq_true, beq_iff_eq, beq_iff_eq]
  constructor
  · intro has
    exact ⟨distinct, bound, has.2⟩
  · intro aligned
    exact ⟨aligned.length.symm, aligned.items⟩

theorem hasCores_iff (regular : state.Regular grammar) :
    state.hasCores cores = true ↔ state.Matches grammar cores := by
  rw [hasCores_iff_aligned regular.distinct regular.coreCount_le]
  exact ⟨fun aligned => ⟨regular, aligned.items⟩, Matches.aligned⟩

theorem compare_eq_same (same : state.compare precision cores = .same) :
    precision = .lr0 ∨
      state.coreContexts = cores.map Configuration.context := by
  unfold compare at same
  dsimp only at same
  split at same
  · rename_i equal
    exact Or.inr (beq_iff_eq.mp equal)
  · cases precision with
    | lr0 => exact Or.inl rfl
    | canonical => cases same
    | pager =>
        dsimp only at same
        split at same
        · cases same
        · cases same

theorem compare_eq_compatible
    (compatible : state.compare precision cores = .compatible) :
    precision = .pager ∧
      weaklyCompatible
        (state.coreContexts.zip (cores.map Configuration.context)) = true := by
  unfold compare at compatible
  dsimp only at compatible
  split at compatible
  · cases compatible
  · cases precision with
    | lr0 => cases compatible
    | canonical => cases compatible
    | pager =>
        dsimp only at compatible
        split at compatible
        · rename_i weakly
          exact ⟨rfl, weakly⟩
        · cases compatible

/-- Nothing may be merged into an incompatible state. -/
structure Refuses (precision : Precision) (state : State)
    (cores : List Configuration) : Prop where
  tracks : precision.tracksContexts = true
  differs : state.coreContexts ≠ cores.map Configuration.context
  clashes : precision = .pager →
    weaklyCompatible
      (state.coreContexts.zip (cores.map Configuration.context)) = false

theorem refuses_of_compare (differs : state.compare precision cores ≠ .same)
    (clashes : state.compare precision cores ≠ .compatible) :
    state.Refuses precision cores := by
  unfold compare at differs clashes
  dsimp only at differs clashes
  by_cases equal : state.coreContexts = cores.map Configuration.context
  · simp [equal] at differs
  · simp only [beq_iff_eq, equal, if_false] at differs clashes
    cases precision with
    | lr0 => exact absurd rfl differs
    | canonical =>
        refine ⟨rfl, equal, ?_⟩
        intro impossible
        cases impossible
    | pager =>
        refine ⟨rfl, equal, ?_⟩
        intro _
        by_contra weakly
        simp [weakly] at clashes

end State

namespace Automaton

variable {automaton : Automaton} {precision : Precision}
  {cores : List Configuration} {target : Nat}

theorem mem_withCores :
    target ∈ automaton.withCores cores ↔
      target < automaton.size ∧
        (automaton.state target).hasCores cores = true := by
  simp [withCores]

theorem compare_of_find {compatibility : Compatibility}
    {candidate : Nat × Compatibility}
    (search : ((automaton.withCores cores).map fun number =>
        (number, (automaton.state number).compare precision cores)).find?
          (fun candidate => candidate.2 == compatibility) =
      some candidate) :
    candidate.1 ∈ automaton.withCores cores ∧
      (automaton.state candidate.1).compare precision cores =
        compatibility := by
  have member := List.mem_of_find?_eq_some search
  have accepted := List.find?_some search
  obtain ⟨number, inside, rfl⟩ := List.mem_map.mp member
  exact ⟨inside, beq_iff_eq.mp accepted⟩

theorem compare_of_absent {compatibility : Compatibility}
    (search : ((automaton.withCores cores).map fun number =>
        (number, (automaton.state number).compare precision cores)).find?
          (fun candidate => candidate.2 == compatibility) = none)
    (member : target ∈ automaton.withCores cores) :
    (automaton.state target).compare precision cores ≠ compatibility := by
  rw [List.find?_eq_none] at search
  have rejected := search _ (List.mem_map_of_mem member)
  simpa using rejected

/-- What is known of the target that is found. -/
inductive Found (automaton : Automaton) (precision : Precision)
    (cores : List Configuration) : Target → Prop where
  | same (target : Nat) : target ∈ automaton.withCores cores →
      (automaton.state target).compare precision cores = .same →
      Found automaton precision cores (.same target)
  | joined (target : Nat) : target ∈ automaton.withCores cores →
      (automaton.state target).compare precision cores = .compatible →
      Found automaton precision cores (.joined target)
  | new : (∀ target ∈ automaton.withCores cores,
        (automaton.state target).Refuses precision cores) →
      Found automaton precision cores .new

theorem found_findTarget :
    automaton.Found precision cores
      (automaton.findTarget precision cores) := by
  unfold findTarget
  dsimp only
  split
  · rename_i search
    obtain ⟨member, equal⟩ := compare_of_find search
    exact .same _ member equal
  · rename_i differs
    split
    · rename_i search
      obtain ⟨member, equal⟩ := compare_of_find search
      exact .joined _ member equal
    · rename_i clashes
      apply Found.new
      intro target member
      exact State.refuses_of_compare (compare_of_absent differs member)
        (compare_of_absent clashes member)

end Automaton

namespace Collecting

variable {grammar : Grammar} {first : FirstSets} {precision : Precision}
  {collecting : Collecting}

/-- The core configurations that arrive at the successor on a symbol. -/
def arriving (grammar : Grammar) (precision : Precision)
    (collecting : Collecting) (source : Nat) (symbol : Symbol) :
    List Configuration :=
  (collecting.automaton.state source).successorCores grammar
    precision.tracksContexts symbol

/-- The new state of a transition. -/
def freshState (grammar : Grammar) (first : FirstSets)
    (precision : Precision) (source : State) (symbol : Symbol) : State :=
  ((State.ofCores (some symbol)
    (source.successorCores grammar precision.tracksContexts symbol)).close
      grammar first precision.tracksContexts).1

/-- How a target can be provided for a transition, before it is linked. -/
inductive Provides (grammar : Grammar) (first : FirstSets)
    (precision : Precision) (source : Nat) (symbol : Symbol)
    (collecting : Collecting) : Nat → Collecting → Prop where
  | kept (target : Nat) : target < collecting.automaton.size →
      (collecting.automaton.state target).Matches grammar
        (collecting.arriving grammar precision source symbol) →
      (∀ item terminal,
        State.Arrives (collecting.arriving grammar precision source symbol)
            item terminal →
          (collecting.automaton.state target).HasContext item terminal) →
      (precision = .canonical →
        ∀ item ∈ (collecting.automaton.state target).coreItems, ∀ terminal,
          (collecting.automaton.state target).HasContext item terminal →
            State.Arrives
              (collecting.arriving grammar precision source symbol) item
              terminal) →
      Provides grammar first precision source symbol collecting target
        collecting
  | joined (target : Nat) : target < collecting.automaton.size →
      (collecting.automaton.state target).Matches grammar
        (collecting.arriving grammar precision source symbol) →
      precision = .pager →
      weaklyCompatible
        ((collecting.automaton.state target).coreContexts.zip
          ((collecting.arriving grammar precision source symbol).map
            Configuration.context)) = true →
      (collecting.automaton.state target).covers
        (collecting.arriving grammar precision source symbol) = false →
      Provides grammar first precision source symbol collecting target
        { collecting with
          automaton := collecting.automaton.modify target fun _ =>
            (collecting.automaton.state target).joined grammar first
              (collecting.arriving grammar precision source symbol)
          queue :=
            if collecting.expanded.getD target false then
              collecting.queue.push target
            else collecting.queue }
  | fresh : (∀ target < collecting.automaton.size,
        (collecting.automaton.state target).Matches grammar
            (collecting.arriving grammar precision source symbol) →
          (collecting.automaton.state target).Refuses precision
            (collecting.arriving grammar precision source symbol)) →
      Provides grammar first precision source symbol collecting
        collecting.automaton.size
        { automaton := collecting.automaton.add
            (freshState grammar first precision
              (collecting.automaton.state source) symbol)
          queue := collecting.queue.push collecting.automaton.size
          expanded := collecting.expanded.push false }

/-- How a transition turns out, before its target is linked. -/
inductive Outcome (grammar : Grammar) (first : FirstSets)
    (precision : Precision) (source : Nat) (symbol : Symbol)
    (collecting : Collecting) : Nat → Collecting → Prop where
  | kept (target : Nat) :
      target ∈ collecting.automaton.withCores
        (collecting.arriving grammar precision source symbol) →
      ((collecting.automaton.state target).compare precision
          (collecting.arriving grammar precision source symbol) = .same ∨
        precision = .pager ∧ (collecting.automaton.state target).covers
          (collecting.arriving grammar precision source symbol) = true) →
      Outcome grammar first precision source symbol collecting target
        collecting
  | joined (target : Nat) :
      target ∈ collecting.automaton.withCores
        (collecting.arriving grammar precision source symbol) →
      precision = .pager →
      weaklyCompatible
        ((collecting.automaton.state target).coreContexts.zip
          ((collecting.arriving grammar precision source symbol).map
            Configuration.context)) = true →
      (collecting.automaton.state target).covers
        (collecting.arriving grammar precision source symbol) = false →
      Outcome grammar first precision source symbol collecting target
        { collecting with
          automaton := collecting.automaton.modify target fun _ =>
            (collecting.automaton.state target).joined grammar first
              (collecting.arriving grammar precision source symbol)
          queue :=
            if collecting.expanded.getD target false then
              collecting.queue.push target
            else collecting.queue }
  | fresh : (∀ target ∈ collecting.automaton.withCores
        (collecting.arriving grammar precision source symbol),
          (collecting.automaton.state target).Refuses precision
            (collecting.arriving grammar precision source symbol)) →
      Outcome grammar first precision source symbol collecting
        collecting.automaton.size
        { automaton := collecting.automaton.add
            (freshState grammar first precision
              (collecting.automaton.state source) symbol)
          queue := collecting.queue.push collecting.automaton.size
          expanded := collecting.expanded.push false }

theorem addTransition_outcome (grammar : Grammar) (first : FirstSets)
    (precision : Precision) (collecting : Collecting) (source : Nat)
    (symbol : Symbol) :
    ∃ target provided,
      Outcome grammar first precision source symbol collecting target
          provided ∧
        collecting.addTransition grammar first precision source symbol =
          { provided with
            automaton :=
              provided.automaton.relink source symbol target } := by
  have outcome := @Automaton.found_findTarget collecting.automaton precision
    (collecting.arriving grammar precision source symbol)
  have cores : (collecting.automaton.state source).successorCores grammar
      precision.tracksContexts symbol =
        collecting.arriving grammar precision source symbol := rfl
  simp only [addTransition, cores]
  generalize collecting.automaton.findTarget precision
    (collecting.arriving grammar precision source symbol) = decision
    at outcome ⊢
  cases outcome with
  | same target member equal =>
      exact ⟨target, collecting, .kept target member (Or.inl equal), rfl⟩
  | joined target member equal =>
      obtain ⟨pager, weakly⟩ := State.compare_eq_compatible equal
      cases covers : (collecting.automaton.state target).covers
          (collecting.arriving grammar precision source symbol) with
      | true =>
          refine ⟨target, collecting,
            .kept target member (Or.inr ⟨pager, covers⟩), ?_⟩
          simp [Automaton.absorb, State.absorb_eq, covers]
      | false =>
          refine ⟨target, _, .joined target member pager weakly covers, ?_⟩
          simp [Automaton.absorb, State.absorb_eq, covers]
  | new refuses => exact ⟨_, _, .fresh refuses, rfl⟩

/-- A transition provides its target and then links it. -/
theorem addTransition_provides {source : Nat} {symbol : Symbol}
    (regular : ∀ number < collecting.automaton.size,
      (collecting.automaton.state number).Regular grammar)
    (blank : precision = .lr0 → ∀ item terminal,
      ¬ State.Arrives (collecting.arriving grammar precision source symbol)
        item terminal) :
    ∃ target provided,
      Provides grammar first precision source symbol collecting target
          provided ∧
        collecting.addTransition grammar first precision source symbol =
          { provided with
            automaton :=
              provided.automaton.relink source symbol target } := by
  have matchesOf {target : Nat}
      (member : target ∈ collecting.automaton.withCores
        (collecting.arriving grammar precision source symbol)) :
      target < collecting.automaton.size ∧
        (collecting.automaton.state target).Matches grammar
          (collecting.arriving grammar precision source symbol) := by
    obtain ⟨inside, has⟩ := Automaton.mem_withCores.mp member
    exact ⟨inside, (State.hasCores_iff (regular target inside)).mp has⟩
  obtain ⟨target, provided, outcome, equal⟩ :=
    addTransition_outcome grammar first precision collecting source symbol
  refine ⟨target, provided, ?_, equal⟩
  cases outcome with
  | kept _ member reason =>
      obtain ⟨inside, matching⟩ := matchesOf member
      have contexts := State.coreContexts_eq_iff matching.aligned
      apply Provides.kept target inside matching
      · rcases reason with same | ⟨-, covers⟩
        · intro item terminal arrives
          rcases State.compare_eq_same same with withoutContexts | equal
          · exact absurd arrives (blank withoutContexts item terminal)
          · have core :
                item ∈ (collecting.automaton.state target).coreItems := by
              rw [matching.items]
              exact arrives.mem_items
            exact (contexts.mp equal item core terminal).mpr arrives
        · exact (State.covers_iff matching.aligned).mp covers
      · intro canonical item core terminal has
        rcases reason with same | ⟨pager, -⟩
        · rcases State.compare_eq_same same with withoutContexts | equal
          · rw [canonical] at withoutContexts
            cases withoutContexts
          · exact (contexts.mp equal item core terminal).mp has
        · rw [canonical] at pager
          cases pager
  | joined _ member pager weakly lacks =>
      obtain ⟨inside, matching⟩ := matchesOf member
      exact .joined target inside matching pager weakly lacks
  | fresh refuses =>
      apply Provides.fresh
      intro target inside matching
      apply refuses target
      rw [Automaton.mem_withCores]
      exact ⟨inside, (State.hasCores_iff matching.regular).mpr matching⟩

end Collecting

end LRTables
