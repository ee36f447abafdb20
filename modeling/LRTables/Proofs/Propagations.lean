import LRTables.Proofs.Sustained

/-!
# Propagation

Pushing contexts along a transition gives the target all that arrives, so that
a state which does not wait has passed its contexts on.  When none waits, the
automaton is saturated.
-/

namespace LRTables

namespace Propagating

variable {grammar : Grammar} {first : FirstSets} {number : Nat}

/-- What arrives has been added to the contexts of the core. -/
structure Delivered (cores : List Configuration) (old new : State) :
    Prop where
  frame : new = { old with configurations := new.configurations }
  size : new.configurations.size = old.configurations.size
  item : ∀ index, (new.configuration index).item =
    (old.configuration index).item
  originators : ∀ index, (new.configuration index).originators =
    (old.configuration index).originators
  context : ∀ index < old.configurations.size, ∀ terminal,
    terminal ∈ (new.configuration index).context ↔
      terminal ∈ (old.configuration index).context ∨
        index < old.coreCount ∧
          State.Arrives cores (old.configuration index).item terminal

namespace Delivered

variable {cores : List Configuration} {old new : State}

theorem sameItems (delivered : Delivered cores old new) :
    old.SameItems new := by
  have frame := delivered.frame
  constructor
  · rw [frame]
  · rw [frame]
  · exact delivered.size
  · exact fun index _ => delivered.item index

theorem hasContext (delivered : Delivered cores old new) {item : Item}
    {terminal : Nat} (has : old.HasContext item terminal) :
    new.HasContext item terminal := by
  obtain ⟨index, inside, equal, member⟩ := has
  refine ⟨index, delivered.size.symm ▸ inside, ?_, ?_⟩
  · rw [delivered.item, equal]
  · exact (delivered.context index inside terminal).mpr (Or.inl member)

theorem distinct (delivered : Delivered cores old new)
    (distinct : old.Distinct) : new.Distinct := by
  rw [State.distinct_iff_nodup, delivered.sameItems.items,
    ← State.distinct_iff_nodup]
  exact distinct

theorem originatorsSound (delivered : Delivered cores old new)
    (sound : old.OriginatorsSound grammar) :
    new.OriginatorsSound grammar := by
  intro index inside origin member
  rw [delivered.size] at inside
  rw [delivered.originators] at member
  obtain ⟨originInside, isStart, scans⟩ := sound index inside origin member
  rw [delivered.size, delivered.item, delivered.item]
  exact ⟨originInside, isStart, scans⟩

theorem nil (state : State) : Delivered [] state state := by
  constructor
  · rfl
  · rfl
  · exact fun _ => rfl
  · exact fun _ => rfl
  · intro index _ terminal
    constructor
    · exact Or.inl
    · rintro (before | ⟨-, _, none, -⟩)
      · exact before
      · cases none

theorem append {later : State} {more : List Configuration}
    (before : Delivered cores old new)
    (after : Delivered more new later) :
    Delivered (cores ++ more) old later := by
  constructor
  · rw [after.frame, before.frame]
  · exact after.size.trans before.size
  · exact fun index => (after.item index).trans (before.item index)
  · intro index
    exact (after.originators index).trans (before.originators index)
  · intro index inside terminal
    have arrives (item : Item) : State.Arrives (cores ++ more) item terminal ↔
        State.Arrives cores item terminal ∨
          State.Arrives more item terminal := by
      simp only [State.Arrives, List.mem_append, or_and_right, exists_or]
    rw [after.context index (before.size.symm ▸ inside), before.item,
      before.context index inside, before.sameItems.coreCount, arrives]
    tauto

theorem single (distinct : old.Distinct) {arriving : Configuration}
    {index : Nat} (found : old.findCore? arriving.item = some index) :
    Delivered [arriving] old (old.modify index fun configuration =>
      { configuration with
        context := configuration.context ∪ arriving.context }) := by
  obtain ⟨found, core⟩ := Option.filter_eq_some_iff.mp found
  obtain ⟨inside, equal⟩ := State.find?_spec found
  rw [decide_eq_true_eq] at core
  constructor
  · rfl
  · exact State.size_modify index _
  · intro other
    exact State.configuration_modify_keeps Configuration.item fun _ => rfl
  · intro other
    exact State.configuration_modify_keeps Configuration.originators
      fun _ => rfl
  · intro other otherInside terminal
    rw [State.configuration_modify inside]
    by_cases same : other = index
    · subst same
      rw [if_pos rfl, TerminalSet.mem_union]
      simp [State.Arrives, core, equal]
    · rw [if_neg same]
      constructor
      · exact Or.inl
      · rintro (before | ⟨-, configuration, listed, item, -⟩)
        · exact before
        · rw [List.mem_singleton.mp listed, ← equal] at item
          exact absurd (distinct index other inside otherInside item).symm same

end Delivered

theorem delivered_of_deliver {cores : List Configuration} {old new : State}
    (distinct : old.Distinct) (result : deliver number old cores = .ok new) :
    Delivered cores old new := by
  induction cores generalizing old with
  | nil =>
      cases result
      exact .nil _
  | cons arriving rest ih =>
      rw [deliver] at result
      split at result
      · cases result
      · rename_i index found
        have first := Delivered.single distinct found
        exact first.append (ih (first.distinct distinct) result)

theorem Delivered.exists_index {cores : List Configuration} {old new : State}
    (delivered : Delivered cores old new) (matching : old.Matches grammar cores)
    {item : Item} {terminal : Nat}
    (arrives : State.Arrives cores item terminal) :
    ∃ index < old.coreCount, (old.configuration index).item = item ∧
      terminal ∈ (new.configuration index).context := by
  obtain ⟨index, inside, equal⟩ :=
    matching.aligned.exists_index (matching.items ▸ arrives.mem_items)
  have item := (matching.aligned.item inside).trans equal
  have core := matching.aligned.length ▸ inside
  refine ⟨index, core, item, ?_⟩
  apply (delivered.context index (matching.aligned.lt_size inside) terminal).mpr
  rw [item]
  exact Or.inr ⟨core, arrives⟩

theorem Delivered.hasContext_of_arrives {cores : List Configuration}
    {old new : State} (delivered : Delivered cores old new)
    (matching : old.Matches grammar cores) {item : Item} {terminal : Nat}
    (arrives : State.Arrives cores item terminal) :
    new.HasContext item terminal := by
  obtain ⟨index, core, equal, member⟩ :=
    delivered.exists_index matching arrives
  have inside := Nat.lt_of_lt_of_le core matching.regular.coreCount_le
  exact ⟨index, delivered.size.symm ▸ inside,
    (delivered.item index).trans equal, member⟩

/-- The target is closed again after the delivery. -/
theorem Delivered.joined (wellFormed : grammar.WellFormed)
    (unused : grammar.GoalUnused) (exact : first.Exact grammar)
    {cores : List Configuration} {old new : State}
    (delivered : Delivered cores old new) (matching : old.Matches grammar cores)
    (closed : old.ItemsClosed grammar) (snug : old.Snug grammar) :
    State.Joined grammar first cores old (new.close grammar first true).1 := by
  apply matching.joined_close wellFormed unused exact closed snug
    delivered.sameItems
    (delivered.originatorsSound matching.regular.originators)
  · intro item terminal
    constructor
    · rintro ⟨index, inside, rfl, member⟩
      rw [delivered.size] at inside
      rw [delivered.item]
      rcases (delivered.context index inside terminal).mp member with
        before | ⟨-, arrives⟩
      · exact Or.inl ⟨index, inside, rfl, before⟩
      · exact Or.inr arrives
    · rintro (before | arrives)
      · exact delivered.hasContext before
      · exact delivered.hasContext_of_arrives matching arrives
  · exact delivered.frame

theorem Delivered.had_arrived {cores : List Configuration}
    {old new : State} (delivered : Delivered cores old new)
    (matching : old.Matches grammar cores)
    (unchanged : new.coreContexts = old.coreContexts) {item : Item}
    {terminal : Nat} (arrives : State.Arrives cores item terminal) :
    old.HasContext item terminal := by
  obtain ⟨index, core, equal, member⟩ :=
    delivered.exists_index matching arrives
  have bound := matching.regular.coreCount_le
  have inside := Nat.lt_of_lt_of_le core bound
  have count := delivered.sameItems.coreCount
  rw [State.coreContexts_eq bound, State.coreContexts_eq
    (count.symm ▸ delivered.size.symm ▸ bound), count] at unchanged
  have same := List.map_inj_left.mp unchanged index (List.mem_range.mpr core)
  exact ⟨index, inside, equal, same ▸ member⟩

/-- Every transition passes all lookaheads on, but for those of waiting states
and those that remain to be pushed along. -/
structure Flowing (grammar : Grammar) (first : FirstSets)
    (good : State → Prop) (base : Automaton) (number : Nat)
    (remaining : List (Symbol × Nat)) (propagating : Propagating) : Prop where
  sealed : propagating.automaton.Sealed grammar first
  all : propagating.automaton.All good
  same : base.SameFrame propagating.automaton
  feeds : ∀ source symbol target,
    (propagating.automaton.state source).successor? symbol = some target →
      source ∉ propagating.queue.waiting →
        ¬ (source = number ∧ (symbol, target) ∈ remaining) →
          Automaton.Feeds grammar (propagating.automaton.state source) symbol
            (propagating.automaton.state target)

theorem flowing_start {good : State → Prop} {base automaton : Automaton}
    (same : base.SameFrame automaton)
    (sealed : automaton.Sealed grammar first) (all : automaton.All good) :
    Flowing grammar first good base 0 []
      { automaton
        queue := .ofList (List.range automaton.size)
        updates := 0 } := by
  constructor
  · exact sealed
  · exact all
  · exact same
  · intro source symbol target edge quiet
    refine absurd ?_ quiet
    rw [WorkQueue.mem_ofList, List.mem_range]
    exact Automaton.lt_size_of_successor edge

/-- A state that is taken from the queue has all its transitions to push
along. -/
theorem Flowing.take {good : State → Prop} {base : Automaton}
    {propagating : Propagating} {popped : Nat} {queue : WorkQueue Nat}
    (flowing : Flowing grammar first good base number [] propagating)
    (found : propagating.queue.pop = some (popped, queue)) :
    Flowing grammar first good base popped
      (propagating.automaton.state popped).successors
      { propagating with queue } := by
  have waiting := WorkQueue.waiting_of_pop found
  constructor
  · exact flowing.sealed
  · exact flowing.all
  · exact flowing.same
  · intro source symbol target edge quiet remains
    apply flowing.feeds source symbol target edge
    · rw [waiting]
      intro member
      rcases List.mem_cons.mp member with rfl | later
      · exact remains ⟨rfl,
          flowing.sealed.framed.keyed.mem_successors.mpr edge⟩
      · exact quiet later
    · rintro ⟨-, none⟩
      cases none

section Pushing

variable {base : Automaton} {propagating next : Propagating}
  {remaining : List (Symbol × Nat)} {good : State → Prop}
  (wellFormed : grammar.WellFormed) (unused : grammar.GoalUnused)
  (exact : first.Exact grammar)
  (sustains : Sustains grammar first False good)

include wellFormed unused exact in
/-- The target takes in what arrives and is closed again. -/
theorem refits_delivered {automaton : Automaton}
    (sealed : automaton.Sealed grammar first) {source target : Nat}
    {symbol : Symbol}
    (edge : (automaton.state source).successor? symbol = some target)
    {after : State}
    (delivered : Delivered
      ((automaton.state source).successorCores grammar true symbol)
      (automaton.state target) after) :
    (automaton.state target).Refits grammar first
      (after.close grammar first true).1 := by
  have inside := sealed.framed.bounded _ _ _ edge
  have regular := sealed.framed.regular target inside
  apply State.refits_close wellFormed unused exact regular
    (sealed.closed target inside).itemsClosed delivered.sameItems
  · exact delivered.originatorsSound regular.originators
  · rintro item terminal ⟨index, within, -, member⟩
    rw [delivered.size] at within
    rcases (delivered.context index within terminal).mp member with
      old | ⟨-, arrives⟩
    · exact sealed.terminated target inside _ terminal
        ⟨index, within, rfl, old⟩
    · exact sealed.arrives_lt (Automaton.lt_size_of_successor edge) arrives
  · rw [delivered.frame]
  · rw [delivered.frame]

theorem matches_of_successor {automaton : Automaton}
    (framed : automaton.Framed grammar) {source target : Nat}
    {symbol : Symbol}
    (edge : (automaton.state source).successor? symbol = some target) :
    (automaton.state target).Matches grammar
      ((automaton.state source).successorCores grammar true symbol) := by
  constructor
  · exact framed.regular target (framed.bounded _ _ _ edge)
  · rw [State.items_successorCores]
    exact framed.edges _ _ _ edge

/-- The transition needs no pushing, for the target has what arrives. -/
theorem Flowing.pass {number : Nat} {edge : Symbol × Nat}
    (flowing : Flowing grammar first good base number (edge :: remaining)
      propagating)
    (feeds : Automaton.Feeds grammar (propagating.automaton.state number)
      edge.1 (propagating.automaton.state edge.2)) :
    Flowing grammar first good base number remaining propagating := by
  constructor
  · exact flowing.sealed
  · exact flowing.all
  · exact flowing.same
  · intro source symbol target found quiet pushed
    by_cases own : source = number ∧ (symbol, target) = edge
    · obtain ⟨rfl, rfl⟩ := own
      exact feeds
    · apply flowing.feeds source symbol target found quiet
      rintro ⟨same, member⟩
      rcases List.mem_cons.mp member with isEdge | later
      · exact own ⟨same, isEdge⟩
      · exact pushed ⟨same, later⟩

/-- The target has grown and waits. -/
theorem Flowing.grow {number target : Nat} {symbol : Symbol}
    (flowing : Flowing grammar first good base number
      ((symbol, target) :: remaining) propagating)
    {changed : State} (updates : Nat)
    (inside : target < propagating.automaton.size)
    (refits : (propagating.automaton.state target).Refits grammar first
      changed)
    (holds : good changed)
    (grows : ∀ item terminal,
      (propagating.automaton.state target).HasContext item terminal →
        changed.HasContext item terminal)
    (arrived : Automaton.Feeds grammar
      (propagating.automaton.state number) symbol changed) :
    Flowing grammar first good base number remaining
      { automaton := propagating.automaton.modify target fun _ => changed
        queue := propagating.queue.push target
        updates } := by
  have frame : propagating.automaton.SameFrame
      (propagating.automaton.modify target fun _ => changed) :=
    .modify refits.sameItems refits.successors
  have served (other : Nat) :
      ∀ item terminal,
        (propagating.automaton.state other).HasContext item terminal →
          ((propagating.automaton.modify target fun _ => changed).state
            other).HasContext item terminal := by
    intro item terminal has
    by_cases same : other = target
    · subst same
      rw [Automaton.state_modify_self inside]
      exact grows item terminal has
    · rw [Automaton.state_modify_ne same]
      exact has
  constructor
  · apply flowing.sealed.modify refits
    intro isStart
    subst isStart
    exact grows _ _ flowing.sealed.goal
  · exact flowing.all.modify fun _ => holds
  · exact flowing.same.trans frame
  · intro source scanned other found quiet pushed
    dsimp only at found quiet ⊢
    rw [frame.successor?_eq] at found
    rw [WorkQueue.mem_push, not_or] at quiet
    obtain ⟨quiet, notTarget⟩ := quiet
    rw [Automaton.state_modify_ne notTarget]
    by_cases own : source = number ∧ (scanned, other) = (symbol, target)
    · obtain ⟨rfl, same⟩ := own
      cases same
      rw [Automaton.state_modify_self inside]
      exact arrived
    · intro item terminal has scans
      apply served other
      refine flowing.feeds source scanned other found quiet ?_ item terminal
        has scans
      rintro ⟨same, member⟩
      rcases List.mem_cons.mp member with isEdge | later
      · exact own ⟨same, isEdge⟩
      · exact pushed ⟨same, later⟩

include wellFormed unused exact sustains in
theorem flowing_pushAlong {number : Nat} {edge : Symbol × Nat}
    (flowing : Flowing grammar first good base number (edge :: remaining)
      propagating)
    (found : (propagating.automaton.state number).successor? edge.1 =
      some edge.2)
    (result : pushAlong grammar first number propagating edge = .ok next) :
    Flowing grammar first good base number remaining next := by
  obtain ⟨symbol, target⟩ := edge
  have sealed := flowing.sealed
  have matching := matches_of_successor sealed.framed found
  rw [pushAlong] at result
  obtain ⟨after, delivery, result⟩ := ok_of_bind result
  have delivered := delivered_of_deliver matching.regular.distinct delivery
  split at result
  · rename_i unchanged
    cases result
    apply flowing.pass
    apply Collecting.feeds_of_arrives
    intro item terminal arrives
    exact delivered.had_arrived matching (beq_iff_eq.mp unchanged) arrives
  · cases result
    apply flowing.grow
    · exact sealed.framed.bounded _ _ _ found
    · exact refits_delivered wellFormed unused exact sealed found delivered
    · have sourceInside := Automaton.lt_size_of_successor found
      have inside := sealed.framed.bounded _ _ _ found
      have present := flowing.all target inside
      apply sustains.joined _ _ _ symbol
        (sealed.framed.regular number sourceInside)
        (sealed.framed.closed number sourceInside)
        (flowing.all number sourceInside) present matching False.elim
      exact delivered.joined wellFormed unused exact matching
        (sealed.framed.closed target inside) (sustains.snug _ present)
    · intro item terminal has
      exact State.close_extends.hasContext (delivered.hasContext has)
    · apply Collecting.feeds_of_arrives
      intro item terminal arrives
      exact State.close_extends.hasContext
        (delivered.hasContext_of_arrives matching arrives)

include wellFormed unused exact sustains in
theorem flowing_pushAll {number : Nat} {edges : List (Symbol × Nat)}
    (flowing : Flowing grammar first good base number edges propagating)
    (found : ∀ edge ∈ edges,
      (base.state number).successor? edge.1 = some edge.2)
    (result : edges.foldlM (pushAlong grammar first number) propagating =
      .ok next) :
    Flowing grammar first good base number [] next := by
  induction edges generalizing propagating with
  | nil =>
      cases result
      exact flowing
  | cons edge rest ih =>
      rw [List.foldlM_cons] at result
      obtain ⟨middle, step, others⟩ := ok_of_bind result
      have own := found edge List.mem_cons_self
      rw [← flowing.same.successor?_eq] at own
      apply ih (flowing_pushAlong wellFormed unused exact sustains flowing own step)
      · intro other later
        exact found other (List.mem_cons_of_mem _ later)
      · exact others

include wellFormed unused exact sustains in
theorem flowing_run {limit number : Nat}
    (flowing : Flowing grammar first good base number [] propagating)
    (result : run grammar first limit propagating = .ok next) :
    ∃ last, Flowing grammar first good base last [] next ∧
      next.queue.waiting = [] := by
  induction limit generalizing number propagating with
  | zero => cases result
  | succ limit ih =>
      rw [run] at result
      split at result
      · rename_i empty
        cases result
        exact ⟨number, flowing, WorkQueue.pop_eq_none.mp empty⟩
      · rename_i popped queue found
        dsimp only at result
        have keyed := flowing.sealed.framed.keyed
        have start := flowing.take found
        obtain ⟨middle, step, later⟩ := ok_of_bind result
        refine ih (flowing_pushAll wellFormed unused exact sustains start ?_ step)
          later
        intro edge member
        rw [← flowing.same.successor?_eq]
        exact keyed.mem_successors.mp member

end Pushing

end Propagating

namespace Automaton

variable {grammar : Grammar} {first : FirstSets}
  {automaton done : Automaton} {updates : Nat} {good : State → Prop}
  (wellFormed : grammar.WellFormed) (unused : grammar.GoalUnused)
  (exact : first.Exact grammar)
  (sustains : Sustains grammar first False good)

/-- What propagation makes of an automaton. -/
structure Propagated (grammar : Grammar) (first : FirstSets)
    (good : State → Prop) (old new : Automaton) : Prop where
  sealed : new.Sealed grammar first
  all : new.All good
  same : old.SameFrame new
  saturated : new.Saturated grammar first

include wellFormed unused exact sustains in
theorem Sealed.propagate (sealed : automaton.Sealed grammar first)
    (all : automaton.All good)
    (result : automaton.propagate grammar first = .ok (done, updates)) :
    Propagated grammar first good automaton done := by
  have start := Propagating.flowing_start (.refl automaton) sealed all
  rw [Automaton.propagate] at result
  obtain ⟨last, run, final⟩ := ok_of_bind result
  cases final
  obtain ⟨_, flowing, empty⟩ :=
    Propagating.flowing_run wellFormed unused exact sustains start run
  constructor
  · exact flowing.sealed
  · exact flowing.all
  · exact flowing.same
  · constructor
    · exact flowing.sealed.goal
    · intro word number leads
      exact flowing.sealed.closed number
        (flowing.sealed.framed.lt_size leads)
    · intro word number _ symbol target edge
      apply flowing.feeds number symbol target edge
      · rw [empty]
        exact List.not_mem_nil
      · rintro ⟨-, none⟩
        cases none

end Automaton

end LRTables
