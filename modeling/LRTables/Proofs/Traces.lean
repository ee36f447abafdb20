import LRTables.Proofs.WalkSteps
import Mathlib.Algebra.GroupWithZero.Nat

/-!
# Traces

A walk works off all its frames within the limit, since each place is visited
once.  Then the lane is empty and the root of the walk is complete, so in the
end every place that has been traced holds exactly the terminals that flow to
it.
-/

namespace LRTables.Tracing

variable {grammar : Grammar} {first : FirstSets} {base : Automaton}
  {tracing next : Tracing}

/-- Between two walks there is nothing on the lane. -/
structure Idle (grammar : Grammar) (first : FirstSets) (base : Automaton)
    (tracing : Tracing) : Prop where
  lane : tracing.lane = []
  frames : tracing.frames = []
  labeled : tracing.Labeled grammar first base []

theorem Walking.idle
    (walking : Walking grammar first base [] tracing) :
    Idle grammar first base tracing :=
  ⟨walking.lane, walking.frames, walking.labeled⟩

/-- The first visit of a walk and every step of it keep a property. -/
structure Upholds (grammar : Grammar) (first : FirstSets) (base : Automaton)
    (good : Tracing → Prop) : Prop where
  visit : ∀ {tracing : Tracing} {root : Place},
    Idle grammar first base tracing → base.Holds root →
      tracing.visits[root]? = none → good tracing →
        good (tracing.visit grammar first root none 0)
  follow : ∀ {tracing : Tracing} {level : Level} {rest : List Level}
      {edge : LaneEdge} {pending : List LaneEdge},
    Walking grammar first base (level :: rest) tracing →
      level.pending = edge :: pending → good tracing →
        good ((tracing.begun (level.taken pending :: rest)).follow grammar
          first edge)
  finish : ∀ {tracing : Tracing} {level : Level} {rest : List Level},
    Walking grammar first base (level :: rest) tracing →
      level.pending = [] → good tracing →
        good ((tracing.begun rest).finish grammar level.place
          (rest.head?.map Level.place))

section Runs

variable (wellFormed : grammar.WellFormed) (goalless : base.Goalless grammar)
  (laned : base.Laned grammar) {good : Tracing → Prop}

include wellFormed goalless laned in
/-- A run within a sufficient limit works off all frames. -/
theorem Upholds.run (upholds : Upholds grammar first base good)
    {levels : List Level} (walking : Walking grammar first base levels tracing)
    {limit : Nat} (enough : potential base tracing ≤ limit)
    (start : good tracing) :
    Idle grammar first base (tracing.run grammar first limit) ∧
      good (tracing.run grammar first limit) := by
  induction limit generalizing tracing levels with
  | zero =>
      have empty : tracing.frames = [] := by
        rw [potential] at enough
        exact List.length_eq_zero_iff.mp (by omega)
      cases levels with
      | nil => exact ⟨walking.idle, start⟩
      | cons level rest =>
          have frames := walking.frames
          rw [empty, framesOf] at frames
          simp at frames
  | succ limit ih =>
      cases levels with
      | nil =>
          have stays : tracing.run grammar first (limit + 1) = tracing := by
            rw [Tracing.run, walking.frames]
            rfl
          rw [stays]
          exact ⟨walking.idle, start⟩
      | cons level rest =>
          have step : ∃ next levels, tracing.run grammar first (limit + 1) =
                next.run grammar first limit ∧
              Walking grammar first base levels next ∧
              Advances base tracing next ∧ good next := by
            cases pending : level.pending with
            | nil =>
                have frames := walking.frames_finish pending
                obtain ⟨levels, after, advances⟩ :=
                  walking.finish wellFormed goalless laned pending
                refine ⟨_, levels, ?_, after, advances,
                  upholds.finish walking pending start⟩
                rw [Tracing.run, frames]
                rfl
            | cons edge more =>
                have frames := walking.frames_follow pending
                obtain ⟨levels, after, advances⟩ :=
                  walking.follow laned pending
                refine ⟨_, levels, ?_, after, advances,
                  upholds.follow walking pending start⟩
                rw [Tracing.run, frames]
                rfl
          obtain ⟨next, levels, equal, after, advances, later⟩ := step
          have less := advances.potential
          rw [equal]
          exact ih after (by omega) later

theorem Idle.unvisited (idle : Idle grammar first base tracing) {root : Place}
    (incomplete : ¬ tracing.isComplete root = true) :
    tracing.visits[root]? = none := by
  cases found : tracing.visits[root]? with
  | none => rfl
  | some visit =>
      obtain ⟨-, onLane | complete⟩ :=
        idle.labeled.lapsed root (by rw [found]; rfl)
      · cases onLane
      · exact absurd complete incomplete

/-- A walk begins with a visit of its root. -/
theorem Idle.walking (idle : Idle grammar first base tracing) {root : Place}
    (holds : base.Holds root)
    (incomplete : ¬ tracing.isComplete root = true) :
    ∃ levels, Walking grammar first base levels
        (tracing.visit grammar first root none 0) ∧
      potential base (tracing.visit grammar first root none 0) ≤
        owed base tracing ∧
      (tracing.visit grammar first root none 0).visits[root]?.isSome =
        true := by
  have unvisited := idle.unvisited incomplete
  have retraced := idle.labeled.retraced
  obtain ⟨edges, visits⟩ := @visits_visit grammar first tracing root
    (retraced.holds_iff.mpr holds) none 0
  refine ⟨[{ place := root, members := [], pending := edges }], ?_, ?_, ?_⟩
  · constructor
    · rw [visits.lane, idle.lane]
      rfl
    · rw [visits.frames, idle.frames]
      rfl
    · exact idle.labeled.enterLane visits holds unvisited
        (Bool.eq_false_iff.mpr incomplete)
    · exact ⟨visits.level_sound retraced [], trivial⟩
  · refine (visits.potential_le retraced holds unvisited).trans ?_
    rw [potential, idle.frames, List.length_nil, Nat.zero_add]
  · exact (visits.isSome_iff root).mpr (Or.inl rfl)

include wellFormed goalless laned in
theorem Upholds.trace (upholds : Upholds grammar first base good)
    (idle : Idle grammar first base tracing) {root : Place}
    (holds : base.Holds root) {limit : Nat}
    (enough : owed base tracing ≤ limit) (start : good tracing) :
    Idle grammar first base (trace grammar first limit tracing root) ∧
      good (trace grammar first limit tracing root) := by
  unfold Tracing.trace
  split
  · exact ⟨idle, start⟩
  · rename_i incomplete
    obtain ⟨levels, walking, pays, -⟩ := idle.walking holds incomplete
    exact upholds.run wellFormed goalless laned walking (pays.trans enough)
      (upholds.visit idle holds (idle.unvisited incomplete) start)

include wellFormed goalless laned in
/-- A place that is known, since it has been visited or is complete, stays
known. -/
theorem upholds_known {place : Place} (holds : base.Holds place) :
    Upholds grammar first base fun next =>
      next.visits[place]?.isSome = true ∨ next.isComplete place = true := by
  have later {old new : Tracing} (advances : Advances base old new)
      (known : old.visits[place]?.isSome = true ∨
        old.isComplete place = true) :
      new.visits[place]?.isSome = true ∨ new.isComplete place = true :=
    known.imp (advances.visited place) (advances.complete place holds)
  constructor
  · intro tracing root idle rootHolds _ known
    obtain ⟨edges, visits⟩ := @visits_visit grammar first tracing root
      (idle.labeled.retraced.holds_iff.mpr rootHolds) none 0
    refine known.imp (fun visited => ?_) fun complete => ?_
    · exact (visits.isSome_iff place).mpr (Or.inr visited)
    · rw [visits.isComplete_eq]
      exact complete
  · intro tracing level rest edge pending walking isFirst known
    obtain ⟨-, -, advances⟩ := walking.follow laned isFirst
    exact later advances known
  · intro tracing level rest walking idle known
    obtain ⟨-, -, advances⟩ :=
      walking.finish wellFormed goalless laned idle
    exact later advances known

theorem Idle.complete (idle : Idle grammar first base tracing) {place : Place}
    (known : tracing.visits[place]?.isSome = true ∨
      tracing.isComplete place = true) :
    tracing.isComplete place = true := by
  rcases known with visited | complete
  · obtain ⟨-, onLane | complete⟩ := idle.labeled.lapsed place visited
    · cases onLane
    · exact complete
  · exact complete

include wellFormed goalless laned in
/-- A trace from a place completes it. -/
theorem Idle.trace (idle : Idle grammar first base tracing) {root : Place}
    (holds : base.Holds root) {limit : Nat}
    (enough : owed base tracing ≤ limit) :
    Idle grammar first base (trace grammar first limit tracing root) ∧
      (trace grammar first limit tracing root).isComplete root = true ∧
      ∀ place, base.Holds place → tracing.isComplete place = true →
        (trace grammar first limit tracing root).isComplete place = true := by
  have stays (place : Place) (placeHolds : base.Holds place)
      (complete : tracing.isComplete place = true) :
      Idle grammar first base
          (Tracing.trace grammar first limit tracing root) ∧
        (Tracing.trace grammar first limit tracing root).isComplete place =
          true := by
    obtain ⟨after, known⟩ := (upholds_known wellFormed goalless laned
      placeHolds).trace wellFormed goalless laned idle holds enough
        (Or.inr complete)
    exact ⟨after, after.complete known⟩
  have done : Idle grammar first base
        (Tracing.trace grammar first limit tracing root) ∧
      (Tracing.trace grammar first limit tracing root).isComplete root =
        true := by
    by_cases complete : tracing.isComplete root = true
    · exact stays root holds complete
    · obtain ⟨levels, walking, pays, visited⟩ := idle.walking holds complete
      obtain ⟨after, known⟩ := (upholds_known wellFormed goalless laned
        holds).run wellFormed goalless laned walking (pays.trans enough)
          (Or.inl visited)
      rw [Tracing.trace, if_neg complete]
      exact ⟨after, after.complete known⟩
  exact ⟨done.1, done.2, fun place placeHolds complete =>
    (stays place placeHolds complete).2⟩

end Runs

theorem toList_eq_map_range {α : Type} [Inhabited α] (values : Array α) :
    values.toList = (List.range values.size).map fun index =>
      values.getD index default := by
  apply List.ext_getElem
  · simp
  · intro index inside _
    have bound : index < values.size := by simpa using inside
    simp [Array.getD, bound]

theorem foldl_add {α : Type} (cost : α → Nat) (values : List α)
    (count : Nat) :
    values.foldl (fun count value => count + cost value) count =
      count + (values.map cost).sum := by
  induction values generalizing count with
  | nil => simp
  | cons value rest ih =>
      rw [List.foldl_cons, ih, List.map_cons, List.sum_cons, Nat.add_assoc]

theorem frameBound_eq :
    frameBound base = ((places base).map (weight base)).sum := by
  have inner (state : State) (count : Nat) :
      state.configurations.foldl
          (fun count configuration =>
            count + 1 + configuration.originators.length +
              configuration.transitors.length) count =
        count + (state.configurations.toList.map fun configuration =>
          1 + configuration.originators.length +
            configuration.transitors.length).sum := by
    rw [← foldl_add, Array.foldl_toList]
    congr 1
    funext count configuration
    omega
  rw [frameBound]
  simp only [inner]
  rw [← Array.foldl_toList, foldl_add, Nat.zero_add, toList_eq_map_range,
    List.map_map, places, List.map_flatMap, List.flatMap, List.sum_flatten,
    List.map_map]
  congr 1
  apply List.map_congr_left
  intro number _
  simp only [Function.comp_apply, Automaton.placesOf, List.map_map,
    toList_eq_map_range]
  rfl

theorem sum_toFinset_le {α : Type} [DecidableEq α] (cost : α → Nat)
    (values : List α) :
    ∑ value ∈ values.toFinset, cost value ≤ (values.map cost).sum := by
  induction values with
  | nil => simp
  | cons value rest ih =>
      rw [List.toFinset_cons, List.map_cons, List.sum_cons]
      by_cases member : value ∈ rest.toFinset
      · rw [Finset.insert_eq_of_mem member]
        omega
      · rw [Finset.sum_insert member]
        omega

theorem owed_le_frameBound : owed base tracing ≤ frameBound base := by
  rw [frameBound_eq]
  refine (Finset.sum_le_sum (g := weight base) ?_).trans ?_
  · intro place _
    split
    · exact Nat.zero_le _
    · exact Nat.le_refl _
  · exact sum_toFinset_le (weight base) (places base)

section All

variable (wellFormed : grammar.WellFormed) (goalless : base.Goalless grammar)
  (laned : base.Laned grammar)

include wellFormed goalless laned in
/-- Tracing from several places completes them all. -/
theorem Idle.traceAll {roots : List Place}
    (idle : Idle grammar first base tracing)
    (holds : ∀ root ∈ roots, base.Holds root) :
    Idle grammar first base
        (roots.foldl (Tracing.trace grammar first (frameBound base)) tracing) ∧
      ∀ place, base.Holds place →
        place ∈ roots ∨ tracing.isComplete place = true →
          (roots.foldl (Tracing.trace grammar first (frameBound base))
            tracing).isComplete place = true := by
  induction roots generalizing tracing with
  | nil =>
      refine ⟨idle, ?_⟩
      rintro place - (impossible | complete)
      · cases impossible
      · exact complete
  | cons root rest ih =>
      obtain ⟨after, rootComplete, stays⟩ :=
        idle.trace wellFormed goalless laned (holds root List.mem_cons_self)
          owed_le_frameBound
      obtain ⟨final, complete⟩ := ih after fun other inside =>
        holds other (List.mem_cons_of_mem _ inside)
      refine ⟨final, ?_⟩
      intro place placeHolds either
      apply complete place placeHolds
      rcases either with member | already
      · rcases List.mem_cons.mp member with rfl | later
        · exact Or.inr rootComplete
        · exact Or.inl later
      · exact Or.inr (stays place placeHolds already)

include wellFormed goalless laned in
theorem Upholds.traceAll {good : Tracing → Prop}
    (upholds : Upholds grammar first base good) {roots : List Place}
    (idle : Idle grammar first base tracing)
    (holds : ∀ root ∈ roots, base.Holds root) (start : good tracing) :
    good (roots.foldl (Tracing.trace grammar first (frameBound base))
      tracing) := by
  induction roots generalizing tracing with
  | nil => exact start
  | cons root rest ih =>
      obtain ⟨after, later⟩ := upholds.trace wellFormed goalless laned idle
        (holds root List.mem_cons_self) owed_le_frameBound start
      exact ih after
        (fun other inside => holds other (List.mem_cons_of_mem _ inside)) later

/-- An automaton on which no tracing has been done yet. -/
structure Fresh (base : Automaton) : Prop where
  unmarked : ∀ place, base.Holds place →
    (base.configuration place).marks = .none
  blank : ∀ place, base.Holds place → ∀ terminal,
    terminal ∉ base.context place

theorem idle_begin (fresh : Fresh base) :
    Idle grammar first base (Tracing.begin base) := by
  have labeled : (Tracing.begin base).Labeled grammar first base [] := by
    constructor
    · exact .refl base
    · intro place holds terminal inContext
      exact absurd inContext (fresh.blank place holds terminal)
    · intro place holds complete
      have marks := fresh.unmarked place holds
      rw [isComplete] at complete
      rw [show (Tracing.begin base).automaton = base from rfl, marks] at complete
      cases complete
    · intro place impossible
      cases impossible
    · intro place impossible
      cases impossible
    · intro place holds
      have marks := fresh.unmarked place holds
      rw [isInLane, show (Tracing.begin base).automaton = base from rfl, marks]
      simp [Marks.none]
    · intro place impossible
      cases impossible
    · intro place impossible
      cases impossible
    · intro place visited
      simp [Tracing.begin] at visited
    · exact List.Pairwise.nil
    · intro place impossible
      cases impossible
  exact ⟨rfl, rfl, labeled⟩

end All

end LRTables.Tracing

namespace LRTables.Automaton

variable {grammar : Grammar} {first : FirstSets} {base : Automaton}

/-- What tracing all lanes of an automaton promises. -/
structure Traced (grammar : Grammar) (first : FirstSets) (base : Automaton)
    (tracing : Tracing) : Prop where
  retraced : base.Retraced tracing.automaton
  frames : tracing.frames = []
  lane : tracing.lane = []
  complete : ∀ place, base.Holds place → place.state ∈ base.reachableStates →
    tracing.isComplete place = true
  notInLane : ∀ place, base.Holds place → tracing.isInLane place = false
  context : ∀ place, base.Holds place → place.state ∈ base.reachableStates →
    ∀ terminal, terminal ∈ tracing.contextOf place ↔
      base.Flows grammar first place terminal

theorem mem_placesOf {number : Nat} {place : Place} :
    place ∈ base.placesOf number ↔
      place.state = number ∧
        place.index < (base.state number).configurations.size := by
  obtain ⟨state, index⟩ := place
  simp only [placesOf, List.mem_map, List.mem_range, Place.mk.injEq]
  constructor
  · rintro ⟨other, inside, rfl, rfl⟩
    exact ⟨rfl, inside⟩
  · rintro ⟨rfl, inside⟩
    exact ⟨index, inside, rfl, rfl⟩

theorem holds_of_mem_finalPlaces {number : Nat} {place : Place}
    (inside : number < base.size)
    (member : place ∈ base.finalPlaces grammar number) :
    base.Holds place := by
  obtain ⟨index, isFinal, rfl⟩ := List.mem_map.mp member
  exact ⟨inside, List.mem_range.mp (List.mem_filter.mp isFinal).1⟩

theorem holds_of_mem_traceRoots {place : Place}
    (member : place ∈ base.traceRoots grammar) : base.Holds place := by
  unfold traceRoots at member
  simp only [List.partition_eq_filter_filter] at member
  rcases List.mem_append.mp member with early | other
  · rcases List.mem_append.mp early with inadequate | adequate
    · obtain ⟨number, chosen, final⟩ := List.mem_flatMap.mp inadequate
      exact holds_of_mem_finalPlaces
        (lt_of_mem_reachableStates (List.mem_filter.mp chosen).1) final
    · obtain ⟨number, chosen, final⟩ := List.mem_flatMap.mp adequate
      exact holds_of_mem_finalPlaces
        (lt_of_mem_reachableStates (List.mem_filter.mp chosen).1) final
  · obtain ⟨number, reachable, inside⟩ := List.mem_flatMap.mp other
    obtain ⟨rfl, index⟩ := mem_placesOf.mp inside
    exact ⟨lt_of_mem_reachableStates reachable, index⟩

theorem mem_traceRoots {place : Place} (holds : base.Holds place)
    (reachable : place.state ∈ base.reachableStates) :
    place ∈ base.traceRoots grammar := by
  unfold traceRoots
  apply List.mem_append_right
  exact List.mem_flatMap.mpr
    ⟨place.state, reachable, mem_placesOf.mpr ⟨rfl, holds.2⟩⟩

/-- Tracing all lanes ends, and gives every reachable configuration the
terminals that flow to it. -/
theorem Laned.traced (wellFormed : grammar.WellFormed)
    (unused : grammar.GoalUnused) (laned : base.Laned grammar)
    (fresh : Tracing.Fresh base) :
    Traced grammar first base (base.traceLanes grammar first) := by
  have roots : ∀ root ∈ base.traceRoots grammar, base.Holds root :=
    fun root member => holds_of_mem_traceRoots member
  have begins := @Tracing.idle_begin grammar first base fresh
  obtain ⟨idle, complete⟩ := begins.traceAll wellFormed
    (laned.goalless wellFormed unused) laned roots
  have isComplete {place : Place} (holds : base.Holds place)
      (reachable : place.state ∈ base.reachableStates) :
      (base.traceLanes grammar first).isComplete place = true :=
    complete place holds (Or.inl (mem_traceRoots holds reachable))
  have labeled : (base.traceLanes grammar first).Labeled grammar first base
      [] := idle.labeled
  constructor
  · exact labeled.retraced
  · exact idle.frames
  · exact idle.lane
  · intro place holds reachable
    exact isComplete holds reachable
  · intro place holds
    have marked := labeled.marked place holds
    simpa using marked
  · intro place holds reachable terminal
    constructor
    · exact labeled.sound place holds terminal
    · exact labeled.finished place holds (isComplete holds reachable) terminal

end LRTables.Automaton
