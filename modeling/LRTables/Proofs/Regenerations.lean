import LRTables.Proofs.ConflictLanes
import LRTables.Proofs.SplitSearches
import Mathlib.Algebra.BigOperators.Ring.Finset

/-!
# Regenerations

If a saturated automaton has the same transitions, the contexts that are
computed anew stay within its contexts, and the computation ends.
-/

namespace LRTables

namespace State

variable {grammar : Grammar} {first : FirstSets} {state bound old new : State}

/-- All lookaheads of the state are lookaheads of the bound. -/
def Encloses (bound state : State) : Prop :=
  ∀ item terminal, state.HasContext item terminal →
    bound.HasContext item terminal

theorem Snug.enclosed (wellFormed : grammar.WellFormed)
    (exact : first.Exact grammar) (snug : state.Snug grammar)
    (closed : bound.Closed grammar first true)
    (items : bound.coreItems = state.coreItems)
    (core : ∀ item ∈ state.coreItems, ∀ terminal,
      state.HasContext item terminal → bound.HasContext item terminal) :
    bound.Encloses state := by
  intro item terminal has
  apply closed.hasContext_of_carries wellFormed exact ?_ core
    (snug item terminal has)
  intro other member
  rw [← items] at member
  exact coreItems_subset member

/-- What arrives from within a bound keeps the target within the one that is fed
by it. -/
theorem Joined.enclosed (wellFormed : grammar.WellFormed)
    (exact : first.Exact grammar) {source sourceBound : State}
    {symbol : Symbol}
    (joined : Joined grammar first
      (source.successorCores grammar true symbol) old new)
    (closed : bound.Closed grammar first true)
    (items : bound.coreItems = old.coreItems)
    (feeds : Automaton.Feeds grammar sourceBound symbol bound)
    (sourceEnclosed : sourceBound.Encloses source)
    (enclosed : bound.Encloses old) : bound.Encloses new := by
  apply joined.snug.enclosed wellFormed exact closed
    (items.trans joined.sameItems.coreItems.symm)
  intro item member terminal has
  have inKernel := (joined.regular.mem_coreItems.mp member).2
  rcases (joined.core item terminal inKernel).mp has with before | arrives
  · exact enclosed item terminal before
  · obtain ⟨origin, arriving, scans, rfl⟩ :=
      arrives_successorCores.mp arrives
    exact feeds origin terminal (sourceEnclosed origin terminal arriving) scans

theorem Grounded.enclosed {matters : Item → Item → Prop}
    (grounded : bound.Grounded grammar matters)
    (enclosed : bound.Encloses state)
    (items : state.coreItems = bound.coreItems) :
    state.Grounded grammar matters := by
  intro here there matter terminal hasHere hasThere
  exact (grounded here there matter terminal (enclosed here terminal hasHere)
    (enclosed there terminal hasThere)).transfer items

end State

namespace Propagating

variable {grammar : Grammar} {first : FirstSets} {number : Nat}

theorem exists_findCore? {state : State} (distinct : state.Distinct)
    (bound : state.coreCount ≤ state.configurations.size) {item : Item}
    (core : item ∈ state.coreItems) :
    ∃ index, state.findCore? item = some index := by
  obtain ⟨index, inside, equal⟩ := (State.mem_coreItems bound).mp core
  refine ⟨index, ?_⟩
  rw [State.findCore?, (State.find?_eq_some distinct).mpr
    ⟨Nat.lt_of_lt_of_le inside bound, equal⟩]
  simp [Option.filter, inside]

/-- Nothing is missing at a state that has all arriving items at its core. -/
theorem exists_deliver {cores : List Configuration} {old : State}
    (distinct : old.Distinct)
    (bound : old.coreCount ≤ old.configurations.size)
    (items : ∀ arriving ∈ cores, arriving.item ∈ old.coreItems) :
    ∃ new, deliver number old cores = .ok new := by
  induction cores generalizing old with
  | nil => exact ⟨old, rfl⟩
  | cons arriving rest ih =>
      obtain ⟨index, found⟩ :=
        exists_findCore? distinct bound (items arriving List.mem_cons_self)
      have single := Delivered.single distinct found
      rw [deliver, found]
      apply ih (single.distinct distinct)
      · rw [single.size, single.sameItems.coreCount]
        exact bound
      · intro other member
        rw [single.sameItems.coreItems]
        exact items other (List.mem_cons_of_mem _ member)

/-- A delivery of what is there already changes no context of the core. -/
theorem Delivered.coreContexts_eq {cores : List Configuration}
    {old new : State} (delivered : Delivered cores old new)
    (matching : old.Matches grammar cores)
    (covers : old.covers cores = true) :
    new.coreContexts = old.coreContexts := by
  have bound := matching.regular.coreCount_le
  have count := delivered.sameItems.coreCount
  rw [State.coreContexts_eq bound, State.coreContexts_eq
    (count.symm ▸ delivered.size.symm ▸ bound), count]
  apply List.map_congr_left
  intro index member
  have inside := Nat.lt_of_lt_of_le (List.mem_range.mp member) bound
  apply TerminalSet.ext
  intro terminal
  rw [delivered.context index inside]
  constructor
  · rintro (before | ⟨-, arrives⟩)
    · exact before
    · rw [← matching.regular.hasContext_iff inside]
      exact (State.covers_iff matching.aligned).mp covers _ _ arrives
  · exact Or.inl

/-- Something is delivered along every transition.  If the core of the target
grows, the target is closed again and waits. -/
theorem exists_delivery {first : FirstSets} {propagating : Propagating}
    (framed : propagating.automaton.Framed grammar) {target : Nat}
    {symbol : Symbol}
    (edge : (propagating.automaton.state number).successor? symbol =
      some target) :
    ∃ after,
      deliver target (propagating.automaton.state target)
          ((propagating.automaton.state number).successorCores grammar true
            symbol) = .ok after ∧
        pushAlong grammar first number propagating (symbol, target) =
          if after.coreContexts ==
              (propagating.automaton.state target).coreContexts then
            .ok propagating
          else
            .ok
              { automaton := propagating.automaton.modify target fun _ =>
                  (after.close grammar first true).1
                queue := propagating.queue.push target
                updates := propagating.updates + 1 } := by
  have matching := matches_of_successor framed edge
  obtain ⟨after, delivery⟩ := @exists_deliver target _ _
    matching.regular.distinct matching.regular.coreCount_le (by
      intro arriving member
      rw [matching.items]
      exact List.mem_map_of_mem member)
  refine ⟨after, delivery, ?_⟩
  rw [pushAlong, delivery]
  rfl

/-- All contexts of reachable states are within those of the bound. -/
def Enclosed (bound : Automaton) (propagating : Propagating) : Prop :=
  ∀ word number, bound.Leads word number →
    (bound.state number).Encloses (propagating.automaton.state number)

/-- A bound on the states still to be taken from the queue: one for each that
waits and one for each terminal that a context may still gain. -/
def potential (grammar : Grammar) (propagating : Propagating) : Nat :=
  propagating.queue.waiting.length +
    Collecting.roomIn grammar propagating.automaton

section Runs

variable {bound : Automaton} {propagating : Propagating}
  {remaining : List (Symbol × Nat)} {good : State → Prop}
  (wellFormed : grammar.WellFormed) (unused : grammar.GoalUnused)
  (exact : first.Exact grammar)
  (sustains : Sustains grammar first False good)
  (framed : bound.Framed grammar)
  (saturated : bound.Saturated grammar first)

include wellFormed unused exact sustains framed saturated in
/-- Pushing along a transition succeeds, stays within the bound and does not
raise the potential. -/
theorem Flowing.exists_pushAlong {edge : Symbol × Nat}
    (flowing : Flowing grammar first good bound number (edge :: remaining)
      propagating)
    (enclosed : Enclosed bound propagating)
    (found : (bound.state number).successor? edge.1 = some edge.2)
    (reaches : ∃ word, bound.Leads word number) :
    ∃ next, pushAlong grammar first number propagating edge = .ok next ∧
      Enclosed bound next ∧
      potential grammar next ≤ potential grammar propagating := by
  obtain ⟨symbol, target⟩ := edge
  dsimp only at found
  obtain ⟨word, leads⟩ := reaches
  have sealed := flowing.sealed
  have edge := found
  rw [← flowing.same.successor?_eq] at edge
  have sourceInside := Automaton.lt_size_of_successor edge
  have inside := sealed.framed.bounded _ _ _ edge
  have matching := matches_of_successor sealed.framed edge
  obtain ⟨after, delivery, result⟩ := exists_delivery sealed.framed edge
  have delivered := delivered_of_deliver matching.regular.distinct delivery
  have joined := delivered.joined wellFormed unused exact matching
    (sealed.framed.closed target inside)
    (sustains.snug _ (flowing.all target inside))
  rw [result]
  split
  · exact ⟨propagating, rfl, enclosed, Nat.le_refl _⟩
  · rename_i changed
    refine ⟨_, rfl, ?_, ?_⟩
    · intro path other reached
      by_cases same : other = target
      · subst same
        dsimp only
        rw [Automaton.state_modify_self inside]
        exact joined.enclosed wellFormed exact
          (saturated.closed path other reached)
          (flowing.same.sameItems other
            (framed.bounded _ _ _ found)).coreItems.symm
          (saturated.feeds word number leads symbol other found)
          (enclosed word number leads) (enclosed path other reached)
      · dsimp only
        rw [Automaton.state_modify_ne same]
        exact enclosed path other reached
    · have lacks : (propagating.automaton.state target).covers
          ((propagating.automaton.state number).successorCores grammar true
            symbol) = false := by
        rw [← Bool.not_eq_true]
        intro covers
        apply changed
        rw [delivered.coreContexts_eq matching covers, beq_self_eq_true]
      have less := Collecting.roomIn_modify_lt inside
        (Collecting.roomOf_lt_of_joined joined matching
          (fun _ _ => sealed.arrives_lt sourceInside) lacks)
      have longer := propagating.queue.length_push_le target
      simp only [potential]
      omega

include wellFormed unused exact sustains framed saturated in
theorem Flowing.exists_pushAll {edges : List (Symbol × Nat)}
    (flowing : Flowing grammar first good bound number edges propagating)
    (enclosed : Enclosed bound propagating)
    (found : ∀ edge ∈ edges,
      (bound.state number).successor? edge.1 = some edge.2)
    (reaches : edges ≠ [] → ∃ word, bound.Leads word number) :
    ∃ next, edges.foldlM (pushAlong grammar first number) propagating =
        .ok next ∧
      Enclosed bound next ∧
      potential grammar next ≤ potential grammar propagating := by
  induction edges generalizing propagating with
  | nil => exact ⟨propagating, rfl, enclosed, Nat.le_refl _⟩
  | cons edge rest ih =>
      have own := found edge List.mem_cons_self
      have reached := reaches (List.cons_ne_nil _ _)
      obtain ⟨middle, step, between, notMore⟩ := flowing.exists_pushAlong
        wellFormed unused exact sustains framed saturated enclosed own reached
      have flows := flowing_pushAlong wellFormed unused exact sustains flowing
        ((flowing.same.successor?_eq _ _).trans own) step
      obtain ⟨next, others, after, bounded⟩ := ih flows between
        (fun other later => found other (List.mem_cons_of_mem _ later))
        fun _ => reached
      refine ⟨next, ?_, after, bounded.trans notMore⟩
      rw [List.foldlM_cons, step]
      exact others

include wellFormed unused exact sustains framed saturated in
/-- A propagation within a bound is not stopped by its limit. -/
theorem Flowing.exists_run {limit : Nat}
    (flowing : Flowing grammar first good bound number [] propagating)
    (enclosed : Enclosed bound propagating)
    (detached : ∀ source symbol target,
      (bound.state source).successor? symbol = some target →
        ∃ word, bound.Leads word source)
    (enough : potential grammar propagating < limit) :
    ∃ next, run grammar first limit propagating = .ok next ∧
      Enclosed bound next := by
  induction limit generalizing number propagating with
  | zero => exact absurd enough (Nat.not_lt_zero _)
  | succ limit ih =>
      rw [run]
      split
      · exact ⟨propagating, rfl, enclosed⟩
      · rename_i popped queue found
        have taken := flowing.take found
        have waiting := WorkQueue.waiting_of_pop found
        have edges : ∀ edge ∈ (propagating.automaton.state popped).successors,
            (bound.state popped).successor? edge.1 = some edge.2 := by
          intro edge member
          rw [← flowing.same.successor?_eq]
          exact flowing.sealed.framed.keyed.mem_successors.mp member
        obtain ⟨next, pushed, after, notMore⟩ := taken.exists_pushAll wellFormed
          unused exact sustains framed saturated enclosed edges (by
            intro some
            obtain ⟨edge, member⟩ := List.exists_mem_of_ne_nil _ some
            exact detached _ _ _ (edges edge member))
        have flows := flowing_pushAll wellFormed unused exact sustains taken
          edges pushed
        have less : potential grammar { propagating with queue } <
            potential grammar propagating := by
          simp only [potential, waiting, List.length_cons]
          omega
        obtain ⟨final, result, last⟩ := ih flows after (by omega)
        refine ⟨final, ?_, last⟩
        dsimp only
        rw [pushed]
        exact result

end Runs

end Propagating

namespace Automaton

variable {grammar : Grammar} {first : FirstSets} {automaton : Automaton}

theorem roomIn_le (automaton : Automaton) :
    Collecting.roomIn grammar automaton ≤
      automaton.configurationCount * grammar.terminals.size := by
  have count : automaton.configurationCount =
      ∑ number ∈ Finset.range automaton.size,
        (automaton.state number).configurations.size :=
    automaton.configurationCount_eq
  rw [count, Collecting.roomIn, Finset.sum_mul]
  exact Finset.sum_le_sum fun number _ => Closing.roomOf_le _ _

theorem terminals_le_width (positive : 0 < automaton.size) :
    grammar.terminals.size ≤ automaton.states.foldl
      (fun width state => max width (state.contextWidth grammar)) 0 := by
  obtain ⟨-, bounds⟩ := le_foldl_max
    (fun state : State => state.contextWidth grammar)
    automaton.states.toList 0
  rw [← Array.foldl_toList]
  have member : automaton.states[0] ∈ automaton.states.toList :=
    Array.mem_toList_iff.mpr (Array.getElem_mem positive)
  exact (State.le_contextWidth grammar _).1.trans (bounds _ member)

theorem potential_lt_propagationLimit (positive : 0 < automaton.size) :
    Propagating.potential grammar
        { automaton
          queue := .ofList (List.range automaton.size)
          updates := 0 } <
      automaton.propagationLimit grammar := by
  have queue := WorkQueue.length_ofList_le (List.range automaton.size)
  rw [List.length_range] at queue
  have room := @roomIn_le grammar automaton
  have wide := Nat.mul_le_mul_left automaton.configurationCount
    (@terminals_le_width grammar automaton positive)
  rw [Propagating.potential, propagationLimit]
  dsimp only
  omega

end Automaton

namespace Automaton

variable {grammar : Grammar} {first : FirstSets} {automaton : Automaton}

theorem Saturated.detach (saturated : automaton.Saturated grammar first)
    (framed : automaton.Framed grammar) :
    automaton.detachUnreachable.Saturated grammar first := by
  constructor
  · exact (alike_detach _).hasContext_iff.mpr saturated.start
  · intro word number leads
    exact (alike_detach number).closed
      (saturated.closed word number (framed.leads_detach.mp leads))
  · intro word number leads symbol target edge item terminal has scans
    have before := framed.leads_detach.mp leads
    rw [framed.successor?_detach_of_leads before] at edge
    rw [(alike_detach _).hasContext_iff] at has ⊢
    exact saturated.feeds word number before symbol target edge item terminal
      has scans

theorem Framed.leads_of_detached (framed : automaton.Framed grammar)
    (source : Nat) (symbol : Symbol) (target : Nat)
    (edge : (automaton.detachUnreachable.state source).successor? symbol =
      some target) :
    ∃ word, automaton.detachUnreachable.Leads word source := by
  rw [successor?_detach] at edge
  split at edge
  · rename_i reached
    obtain ⟨word, leads⟩ := framed.reachable_iff.mp reached
    exact ⟨word, framed.leads_detach.mpr leads⟩
  · cases edge

end Automaton

namespace Splitting

variable {grammar : Grammar} {first : FirstSets} {base bound : Automaton}
  {splitting : Splitting}
  (wellFormed : grammar.WellFormed) (unused : grammar.GoalUnused)
  (exact : first.Exact grammar)

include wellFormed unused exact in
/-- A state that was reset has only lookaheads of a saturated automaton. -/
theorem enclosed_resetContexts (framed : bound.Framed grammar)
    (saturated : bound.Saturated grammar first) {word : List Symbol}
    {number : Nat} (leads : bound.Leads word number) {state : State}
    (regular : state.Regular grammar) (evident : state.Evident grammar)
    (items : state.coreItems = (bound.state number).coreItems) :
    (bound.state number).Encloses (state.resetContexts grammar first) := by
  have core := @State.coreItems_resetContexts grammar first state regular
  have reset : (state.resetContexts grammar first).Evident grammar :=
    State.evident_resetContexts wellFormed unused exact regular
      evident.attested.exists_word
  apply reset.snug.enclosed wellFormed exact
    (saturated.closed word number leads) (core.trans items).symm
  intro item member terminal has
  rw [core] at member
  obtain ⟨rfl, rfl⟩ :=
    State.eq_goal_of_resetContexts wellFormed unused regular member has
  rw [items, framed.mem_coreItems wellFormed unused leads] at member
  have empty := member.1.eq_nil_of_goal wellFormed unused
  subst empty
  rw [Automaton.leads_nil.mp leads]
  exact saturated.start

include wellFormed unused exact in
theorem enclosed_resetAll (framed : bound.Framed grammar)
    (saturated : bound.Saturated grammar first)
    (sealed : splitting.automaton.Sealed grammar first)
    (evident : splitting.automaton.All (State.Evident grammar))
    (same : bound.SameFrame splitting.automaton)
    (enclosed : ∀ word number, bound.Leads word number →
      (bound.state number).Encloses (splitting.automaton.state number))
    (numbers : List Nat) :
    bound.SameFrame (numbers.foldl (reset grammar first)
        splitting).automaton ∧
      ∀ word number, bound.Leads word number →
        (bound.state number).Encloses
          ((numbers.foldl (reset grammar first) splitting).automaton.state
            number) := by
  induction numbers generalizing splitting with
  | nil => exact ⟨same, enclosed⟩
  | cons head rest ih =>
      apply ih
      · exact sealed.reset wellFormed unused exact head
      · exact (sustains_evident wellFormed unused exact False).resetAt sealed
          evident head
      · exact same.trans
          (sealed.sameFrame_reset wellFormed unused exact head)
      · intro word number leads
        by_cases isHead : number = head
        · subst isHead
          have inside := same.size ▸ framed.lt_size leads
          change (bound.state number).Encloses
            ((splitting.automaton.modify number _).state number)
          rw [Automaton.state_modify_self inside]
          exact enclosed_resetContexts wellFormed unused exact framed saturated
            leads (sealed.framed.regular number inside)
            (evident number inside)
            (same.sameItems number (framed.lt_size leads)).coreItems
        · change (bound.state number).Encloses
            ((splitting.automaton.modify head _).state number)
          rw [Automaton.state_modify_ne isHead]
          exact enclosed word number leads

include wellFormed unused exact in
/-- If a saturated automaton is computed anew, nothing fails, its transitions
stay, and its contexts do not grow. -/
theorem exists_regenerate
    (kept : splitting.Kept grammar first (State.Evident grammar) base)
    (saturated : splitting.automaton.Saturated grammar first) :
    ∃ done, splitting.regenerate grammar first = .ok done ∧
      splitting.automaton.detachUnreachable.SameFrame done.automaton ∧
      ∀ word number, splitting.automaton.Leads word number →
        (splitting.automaton.state number).Encloses
          (done.automaton.state number) := by
  have framed := kept.intact.framed
  have sustains := sustains_evident wellFormed unused exact False
  have bound := saturated.detach framed
  obtain ⟨cleared, -, clearedAll⟩ :=
    kept.prepared wellFormed unused exact sustains
  obtain ⟨same, enclosed⟩ := @enclosed_resetAll grammar first
    splitting.automaton.detachUnreachable
    { splitting with automaton := splitting.automaton.detachUnreachable }
    wellFormed unused exact framed.detach bound kept.sealed_detach
    (kept.good.of_alike sustains.alike Automaton.size_detach
      Automaton.alike_detach) (.refl _)
    (fun _ _ _ _ _ has => has) splitting.families.members
  have start := Propagating.flowing_start same cleared clearedAll
  obtain ⟨next, run, final⟩ := start.exists_run wellFormed unused exact sustains
    framed.detach bound enclosed framed.leads_of_detached
    (Automaton.potential_lt_propagationLimit cleared.framed.positive)
  have propagation :
      (splitting.prepared grammar first).automaton.propagate grammar first =
        .ok (next.automaton, next.updates) := by
    rw [prepared, Automaton.propagate, run]
    rfl
  have propagated := cleared.propagate wellFormed unused exact sustains
    clearedAll propagation
  refine ⟨{ splitting.prepared grammar first with
    automaton := next.automaton }, ?_, same.trans propagated.same, ?_⟩
  · rw [regenerate_eq, propagation]
    rfl
  · intro word number leads item terminal has
    have reached := final word number (framed.leads_detach.mpr leads) item
      terminal has
    exact (Automaton.alike_detach number).hasContext_iff.mp reached

end Splitting

end LRTables
