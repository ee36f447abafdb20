import LRTables.Lane.Family
import LRTables.Proofs.CoreLookaheads
import LRTables.Proofs.Wirings

/-!
# Intact automata

Splitting changes contexts, copies states and redirects transitions between
copies.  All of it leaves an automaton intact: its transitions lead from items
to advanced items, none is missing, and every state is closed.
-/

namespace LRTables

namespace State

variable {grammar : Grammar} {first : FirstSets} {state old changed new : State}

theorem Terminated.close (wellFormed : grammar.WellFormed)
    (exact : first.Exact grammar) {contexts : Bool}
    (terminated : state.Terminated grammar) :
    (state.close grammar first contexts).1.Terminated grammar := by
  have bounds : ClosedBounds grammar first contexts (fun _ => True)
      fun _ terminal => terminal < grammar.terminals.size := by
    intro item nonterminal tail rule context _ rest _ bounded
    obtain ⟨-, rfl⟩ := Item.scanned_of_rest rest
    refine ⟨trivial, ?_⟩
    intro terminal member
    cases contexts with
    | false => exact absurd member Closing.not_mem_generated
    | true =>
        have declared := Grammar.declares_tail wellFormed item
        rcases (Closing.mem_generated exact declared).mp member with
          begins | ⟨-, inherited⟩
        · exact begins.lt wellFormed declared
        · exact bounded terminal inherited
  have within := @close_within grammar first contexts state _ _ bounds (by
    intro index inside
    refine ⟨trivial, ?_⟩
    intro terminal member
    exact terminated _ terminal ⟨index, inside, rfl, member⟩)
  intro item terminal has
  obtain ⟨index, inside, -, member⟩ := has
  exact (within index inside).2 terminal member

/-- The new state can stand in for the old one: it has other lookaheads but is
closed again. -/
structure Refits (grammar : Grammar) (first : FirstSets)
    (old new : State) : Prop where
  sameItems : old.SameItems new
  originators : new.OriginatorsSound grammar
  closed : new.Closed grammar first true
  terminated : new.Terminated grammar
  successors : new.successors = old.successors
  cloneOf : new.cloneOf = old.cloneOf

/-- A state whose lookaheads were changed is closed again. -/
theorem refits_close (wellFormed : grammar.WellFormed)
    (unused : grammar.GoalUnused) (exact : first.Exact grammar)
    (regular : old.Regular grammar) (closed : old.ItemsClosed grammar)
    (sameItems : old.SameItems changed)
    (originators : changed.OriginatorsSound grammar)
    (terminated : changed.Terminated grammar)
    (successors : changed.successors = old.successors)
    (cloneOf : changed.cloneOf = old.cloneOf) :
    old.Refits grammar first (changed.close grammar first true).1 := by
  have changedRegular := sameItems.regular regular originators
  have reclosed := changedRegular.reclose wellFormed unused exact
    (sameItems.itemsClosed closed)
  constructor
  · exact sameItems.trans reclosed.sameItems
  · exact reclosed.regular.originators
  · exact reclosed.closed
  · exact terminated.close wellFormed exact
  · rw [reclosed.links]
    exact successors
  · rw [reclosed.links]
    exact cloneOf

/-- A state without its lookaheads, but for those of the goal. -/
def cleared (state : State) : State :=
  state.mapConfigurations fun configuration =>
    { configuration with
      context :=
        if configuration.item = .goal then .singleton Terminal.endOfInput
        else ∅ }

theorem resetContexts_eq (state : State) :
    state.resetContexts grammar first =
      (state.cleared.close grammar first true).1 :=
  rfl

theorem cleared_sameItems (state : State) : state.SameItems state.cleared := by
  constructor
  · rfl
  · rfl
  · exact size_mapConfigurations _
  · intro index inside
    rw [cleared, configuration_mapConfigurations inside]

theorem hasContext_cleared {item : Item} {terminal : Nat} :
    state.cleared.HasContext item terminal ↔
      item ∈ state.items ∧ item = .goal ∧
        terminal = Terminal.endOfInput := by
  have same := state.cleared_sameItems
  have context {index : Nat} (inside : index < state.configurations.size) :
      terminal ∈ (state.cleared.configuration index).context ↔
        (state.configuration index).item = .goal ∧
          terminal = Terminal.endOfInput := by
    rw [cleared, configuration_mapConfigurations inside]
    dsimp only
    split
    · rename_i isGoal
      rw [TerminalSet.mem_singleton]
      simp [isGoal]
    · rename_i notGoal
      simp [notGoal]
  constructor
  · rintro ⟨index, inside, rfl, member⟩
    rw [same.size] at inside
    obtain ⟨isGoal, isEnd⟩ := (context inside).mp member
    rw [same.item index inside]
    exact ⟨State.mem_items.mpr ⟨index, inside, rfl⟩, isGoal, isEnd⟩
  · rintro ⟨member, isGoal, isEnd⟩
    obtain ⟨index, inside, equal⟩ := State.mem_items.mp member
    refine ⟨index, same.size.symm ▸ inside, ?_, ?_⟩
    · rw [same.item index inside, equal]
    · exact (context inside).mpr ⟨equal.trans isGoal, isEnd⟩

theorem OriginatorsSound.cleared (sound : state.OriginatorsSound grammar) :
    state.cleared.OriginatorsSound grammar := by
  have same := state.cleared_sameItems
  intro index inside origin member
  rw [same.size] at inside
  rw [State.cleared, configuration_mapConfigurations inside] at member
  obtain ⟨originInside, isStart, scans⟩ := sound index inside origin member
  rw [same.size, same.item index inside, same.item origin originInside]
  exact ⟨originInside, isStart, scans⟩

theorem Terminated.joinContexts (terminated : state.Terminated grammar)
    {contexts : List TerminalSet}
    (bounded : ∀ context ∈ contexts, ∀ terminal ∈ context,
      terminal < grammar.terminals.size) :
    (state.joinContexts contexts).Terminated grammar := by
  have same := @joinContexts_sameItems state contexts
  intro item terminal has
  obtain ⟨index, inside, -, member⟩ := has
  rw [same.size] at inside
  rw [configuration_joinContexts inside, TerminalSet.mem_union] at member
  rcases member with old | added
  · exact terminated _ terminal ⟨index, inside, rfl, old⟩
  · by_cases bound : index < contexts.length
    · simp only [List.getD_eq_getElem?_getD, List.getElem?_eq_getElem bound,
        Option.getD_some] at added
      exact bounded _ (List.getElem_mem bound) terminal added
    · simp only [List.getD_eq_getElem?_getD,
        List.getElem?_eq_none (Nat.le_of_not_lt bound),
        Option.getD_none] at added
      exact absurd added (TerminalSet.not_mem_empty terminal)

section Operations

variable (wellFormed : grammar.WellFormed) (unused : grammar.GoalUnused)
  (exact : first.Exact grammar) (regular : state.Regular grammar)
  (closed : state.Closed grammar first true)
  (terminated : state.Terminated grammar)

include wellFormed unused exact regular closed in
theorem refits_resetContexts :
    state.Refits grammar first (state.resetContexts grammar first) := by
  rw [resetContexts_eq]
  apply refits_close wellFormed unused exact regular closed.itemsClosed
    state.cleared_sameItems
  · exact regular.originators.cleared
  · intro item terminal has
    rw [(hasContext_cleared.mp has).2.2]
    exact wellFormed.hasEnd
  · rfl
  · rfl

include wellFormed unused exact regular closed terminated in
theorem refits_join {contexts : List TerminalSet}
    (bounded : ∀ context ∈ contexts, ∀ terminal ∈ context,
      terminal < grammar.terminals.size) :
    state.Refits grammar first
      ((state.joinContexts contexts).close grammar first true).1 := by
  apply refits_close wellFormed unused exact regular closed.itemsClosed
    (joinContexts_sameItems contexts)
  · exact regular.originators.joinContexts contexts
  · exact terminated.joinContexts bounded
  · rfl
  · rfl

end Operations

theorem hasContext_join {contexts : List TerminalSet} {item : Item}
    {terminal : Nat} (has : state.HasContext item terminal) :
    ((state.joinContexts contexts).close grammar first true).1.HasContext
      item terminal := by
  apply close_extends.hasContext
  obtain ⟨index, inside, equal, member⟩ := has
  have same := @joinContexts_sameItems state contexts
  refine ⟨index, same.size.symm ▸ inside, ?_, ?_⟩
  · rw [same.item index inside, equal]
  · rw [configuration_joinContexts inside]
    exact TerminalSet.mem_union.mpr (Or.inl member)

theorem hasContext_resetContexts (member : Item.goal ∈ state.items) :
    (state.resetContexts grammar first).HasContext .goal
      Terminal.endOfInput := by
  rw [resetContexts_eq]
  apply close_extends.hasContext
  exact hasContext_cleared.mpr ⟨member, rfl, rfl⟩

end State

namespace Automaton

variable {grammar : Grammar} {first : FirstSets}
  {automaton old new : Automaton}

/-- No transition leads astray, and every state is closed. -/
structure Sealed (grammar : Grammar) (first : FirstSets)
    (automaton : Automaton) : Prop where
  framed : automaton.Framed grammar
  terminated : automaton.Terminated grammar
  closed : ∀ number < automaton.size,
    (automaton.state number).Closed grammar first true
  goal : (automaton.state Automaton.start).HasContext .goal
    Terminal.endOfInput

/-- No transition is missing, and every copy has the items of its
prototype. -/
structure Intact (grammar : Grammar) (first : FirstSets)
    (automaton : Automaton) : Prop extends
    automaton.Sealed grammar first where
  whole : ∀ number < automaton.size,
    ∀ symbol ∈ (automaton.state number).scannedSymbols grammar,
      ∃ target, (automaton.state number).successor? symbol = some target
  prototype_lt : ∀ number < automaton.size,
    automaton.prototype number < automaton.size
  prototype_items : ∀ number < automaton.size,
    (automaton.state (automaton.prototype number)).SameItems
      (automaton.state number)
  prototype_idem : ∀ number < automaton.size,
    automaton.prototype (automaton.prototype number) =
      automaton.prototype number

/-- There may be more states, but the old ones keep their items. -/
structure Enlarges (old new : Automaton) : Prop where
  size_le : old.size ≤ new.size
  sameItems : ∀ number < old.size,
    (old.state number).SameItems (new.state number)
  prototype : ∀ number < old.size,
    new.prototype number = old.prototype number

namespace Enlarges

theorem refl (automaton : Automaton) : automaton.Enlarges automaton := by
  constructor
  · exact Nat.le_refl _
  · exact fun _ _ => .refl _
  · exact fun _ _ => rfl

theorem trans {later : Automaton} (before : old.Enlarges new)
    (after : new.Enlarges later) : old.Enlarges later := by
  have inside {number : Nat} (member : number < old.size) :
      number < new.size := Nat.lt_of_lt_of_le member before.size_le
  constructor
  · exact before.size_le.trans after.size_le
  · intro number member
    exact (before.sameItems number member).trans
      (after.sameItems number (inside member))
  · intro number member
    rw [after.prototype number (inside member),
      before.prototype number member]

end Enlarges

/-- The core of the second state is what the first one becomes on the
symbol. -/
structure Fits (grammar : Grammar) (automaton : Automaton) (source : Nat)
    (symbol : Symbol) (target : Nat) : Prop where
  source_lt : source < automaton.size
  target_lt : target < automaton.size
  scans : symbol ∈ (automaton.state source).scannedSymbols grammar
  core : (automaton.state target).coreItems =
    (automaton.state source).successorItems grammar symbol

theorem Framed.fits (framed : automaton.Framed grammar) {source target : Nat}
    {symbol : Symbol}
    (edge : (automaton.state source).successor? symbol = some target) :
    automaton.Fits grammar source symbol target :=
  ⟨lt_size_of_successor edge, framed.bounded _ _ _ edge,
    framed.scanned _ _ _ edge, framed.edges _ _ _ edge⟩

theorem Fits.enlarge {source target : Nat} {symbol : Symbol}
    (fits : old.Fits grammar source symbol target)
    (enlarges : old.Enlarges new) :
    new.Fits grammar source symbol target := by
  obtain ⟨sourceInside, targetInside, scans, core⟩ := fits
  constructor
  · exact Nat.lt_of_lt_of_le sourceInside enlarges.size_le
  · exact Nat.lt_of_lt_of_le targetInside enlarges.size_le
  · rw [(enlarges.sameItems source sourceInside).mem_scannedSymbols]
    exact scans
  · rw [(enlarges.sameItems target targetInside).coreItems,
      (enlarges.sameItems source sourceInside).successorItems]
    exact core

theorem Fits.copy {source target copy : Nat} {symbol : Symbol}
    (fits : automaton.Fits grammar source symbol target)
    (intact : automaton.Intact grammar first) (inside : copy < automaton.size)
    (same : automaton.prototype copy = automaton.prototype target) :
    automaton.Fits grammar source symbol copy := by
  obtain ⟨sourceInside, targetInside, scans, core⟩ := fits
  refine ⟨sourceInside, inside, scans, ?_⟩
  have copyItems := intact.prototype_items copy inside
  have targetItems := intact.prototype_items target targetInside
  rw [same] at copyItems
  rw [copyItems.coreItems, ← targetItems.coreItems]
  exact core

theorem modify_of_size_le {number : Nat} {change : State → State}
    (outside : automaton.size ≤ number) :
    automaton.modify number change = automaton := by
  obtain ⟨states⟩ := automaton
  rw [modify, Automaton.mk.injEq]
  apply Array.ext
  · exact Array.size_modify
  · intro index _ inside
    rw [Array.getElem_modify, if_neg]
    intro same
    exact absurd inside (Nat.not_lt.mpr (same ▸ outside))

theorem modify_eq_of_state {number : Nat} (change : State → State) :
    (automaton.modify number fun _ => change (automaton.state number)) =
      automaton.modify number change := by
  obtain ⟨states⟩ := automaton
  rw [modify, modify, Automaton.mk.injEq]
  apply Array.ext
  · rw [Array.size_modify, Array.size_modify]
  · intro index inside _
    rw [Array.size_modify] at inside
    rw [Array.getElem_modify, Array.getElem_modify]
    split
    · rename_i same
      subst same
      rw [state, Array.getD_eq_getD_getElem?,
        Array.getElem?_eq_getElem inside, Option.getD_some]
    · rfl

section Changes

variable {number : Nat} {change : State → State}

theorem Sealed.modify (sealed : automaton.Sealed grammar first)
    (refits : (automaton.state number).Refits grammar first
      (change (automaton.state number)))
    (goal : number = Automaton.start →
      (change (automaton.state number)).HasContext .goal
        Terminal.endOfInput) :
    (automaton.modify number change).Sealed grammar first := by
  have same : automaton.SameFrame (automaton.modify number change) :=
    .modify refits.sameItems refits.successors
  have value (other : Nat) (inside : other < automaton.size) :
      (other = number ∧ (automaton.modify number change).state other =
          change (automaton.state other)) ∨
        other ≠ number ∧ (automaton.modify number change).state other =
          automaton.state other := by
    by_cases equal : other = number
    · subst equal
      exact Or.inl ⟨rfl, state_modify_self inside⟩
    · exact Or.inr ⟨equal, state_modify_ne equal⟩
  constructor
  · apply sealed.framed.of_sameFrame same
    intro other inside
    rcases value other inside with ⟨rfl, changed⟩ | ⟨-, kept⟩
    · rw [changed]
      exact refits.originators
    · rw [kept]
      exact (sealed.framed.regular other inside).originators
  · intro other inside
    rw [size_modify] at inside
    rcases value other inside with ⟨rfl, changed⟩ | ⟨-, kept⟩
    · rw [changed]
      exact refits.terminated
    · rw [kept]
      exact sealed.terminated other inside
  · intro other inside
    rw [size_modify] at inside
    rcases value other inside with ⟨rfl, changed⟩ | ⟨-, kept⟩
    · rw [changed]
      exact refits.closed
    · rw [kept]
      exact sealed.closed other inside
  · rcases value Automaton.start sealed.framed.positive with
      ⟨isStart, changed⟩ | ⟨-, kept⟩
    · rw [changed, isStart]
      exact goal isStart.symm
    · rw [kept]
      exact sealed.goal

theorem enlarges_modify
    (sameItems : (automaton.state number).SameItems
      (change (automaton.state number)))
    (cloneOf : (change (automaton.state number)).cloneOf =
      (automaton.state number).cloneOf) :
    automaton.Enlarges (automaton.modify number change) := by
  constructor
  · rw [size_modify]
  · intro other inside
    by_cases equal : other = number
    · subst equal
      rw [state_modify_self inside]
      exact sameItems
    · rw [state_modify_ne equal]
      exact .refl _
  · intro other inside
    rw [prototype, prototype]
    by_cases equal : other = number
    · subst equal
      rw [state_modify_self inside, cloneOf]
    · rw [state_modify_ne equal]

/-- The states are as many as before and keep their items and transitions. -/
theorem Intact.of_enlarges (intact : old.Intact grammar first)
    (sealed : new.Sealed grammar first) (enlarges : old.Enlarges new)
    (size : new.size = old.size)
    (keeps : ∀ number symbol target,
      (old.state number).successor? symbol = some target →
        ∃ other, (new.state number).successor? symbol = some other) :
    new.Intact grammar first := by
  constructor
  · exact sealed
  · intro other inside symbol scans
    rw [size] at inside
    rw [(enlarges.sameItems other inside).mem_scannedSymbols] at scans
    obtain ⟨target, edge⟩ := intact.whole other inside symbol scans
    exact keeps other symbol target edge
  · intro other inside
    rw [size] at inside
    rw [enlarges.prototype other inside, size]
    exact intact.prototype_lt other inside
  · intro other inside
    rw [size] at inside
    rw [enlarges.prototype other inside]
    have original := intact.prototype_lt other inside
    exact ((enlarges.sameItems _ original).symm.trans
      (intact.prototype_items other inside)).trans
        (enlarges.sameItems other inside)
  · intro other inside
    rw [size] at inside
    have original := intact.prototype_lt other inside
    rw [enlarges.prototype other inside, enlarges.prototype _ original]
    exact intact.prototype_idem other inside

theorem Intact.total (intact : automaton.Intact grammar first) :
    automaton.Total grammar := by
  intro word number leads symbol scans
  exact intact.whole number (intact.framed.lt_size leads) symbol scans

theorem Intact.modify (intact : automaton.Intact grammar first)
    (refits : (automaton.state number).Refits grammar first
      (change (automaton.state number)))
    (goal : number = Automaton.start →
      (change (automaton.state number)).HasContext .goal
        Terminal.endOfInput) :
    (automaton.modify number change).Intact grammar first := by
  have same : automaton.SameFrame (automaton.modify number change) :=
    .modify refits.sameItems refits.successors
  apply intact.of_enlarges
  · exact intact.toSealed.modify refits goal
  · exact enlarges_modify refits.sameItems refits.cloneOf
  · exact size_modify change
  · intro other symbol target edge
    rw [same.successor?_eq]
    exact ⟨target, edge⟩

end Changes

section Operations

variable (wellFormed : grammar.WellFormed) (unused : grammar.GoalUnused)
  (exact : first.Exact grammar)

include wellFormed unused exact in
theorem Sealed.refits_reset (sealed : automaton.Sealed grammar first)
    {number : Nat} (inside : number < automaton.size) :
    (automaton.state number).Refits grammar first
      ((automaton.state number).resetContexts grammar first) :=
  State.refits_resetContexts wellFormed unused exact
    (sealed.framed.regular number inside) (sealed.closed number inside)

theorem Sealed.arrives_lt (sealed : automaton.Sealed grammar first)
    {source : Nat} (inside : source < automaton.size) {symbol : Symbol}
    {item : Item} {terminal : Nat}
    (arrives : State.Arrives
      ((automaton.state source).successorCores grammar true symbol) item
        terminal) :
    terminal < grammar.terminals.size := by
  obtain ⟨origin, has, -, -⟩ := State.arrives_successorCores.mp arrives
  exact sealed.terminated source inside origin terminal has

theorem Sealed.coreContexts_lt (sealed : automaton.Sealed grammar first)
    (number : Nat) :
    ∀ context ∈ (automaton.state number).coreContexts, ∀ terminal ∈ context,
      terminal < grammar.terminals.size := by
  intro context listed terminal member
  by_cases inside : number < automaton.size
  · obtain ⟨configuration, core, rfl⟩ := List.mem_map.mp listed
    have present := Array.mem_toList_iff.mp (List.mem_of_mem_take core)
    obtain ⟨index, bound, rfl⟩ := State.mem_configurations.mp present
    exact sealed.terminated number inside _ terminal
      ⟨index, bound, rfl, member⟩
  · rw [state_of_size_le (Nat.le_of_not_lt inside)] at listed
    cases listed

theorem Sealed.goal_reset (sealed : automaton.Sealed grammar first) :
    ((automaton.state Automaton.start).resetContexts grammar
      first).HasContext .goal Terminal.endOfInput := by
  obtain ⟨index, inside, equal, -⟩ := sealed.goal
  apply State.hasContext_resetContexts
  exact State.mem_items.mpr ⟨index, inside, equal⟩

include wellFormed unused exact in
theorem Sealed.reset (sealed : automaton.Sealed grammar first)
    (number : Nat) :
    (automaton.modify number fun state =>
      state.resetContexts grammar first).Sealed grammar first := by
  by_cases inside : number < automaton.size
  · apply sealed.modify
    · exact sealed.refits_reset wellFormed unused exact inside
    · intro isStart
      subst isStart
      exact sealed.goal_reset
  · rw [modify_of_size_le (Nat.le_of_not_lt inside)]
    exact sealed

include wellFormed unused exact in
theorem Intact.reset (intact : automaton.Intact grammar first)
    (number : Nat) :
    (automaton.modify number fun state =>
      state.resetContexts grammar first).Intact grammar first := by
  by_cases inside : number < automaton.size
  · apply intact.modify
    · exact intact.refits_reset wellFormed unused exact inside
    · intro isStart
      subst isStart
      exact intact.goal_reset
  · rw [modify_of_size_le (Nat.le_of_not_lt inside)]
    exact intact

include wellFormed unused exact in
theorem Sealed.enlarges_reset (sealed : automaton.Sealed grammar first)
    (number : Nat) :
    automaton.Enlarges (automaton.modify number fun state =>
      state.resetContexts grammar first) := by
  by_cases inside : number < automaton.size
  · have refits := sealed.refits_reset wellFormed unused exact inside
    exact enlarges_modify refits.sameItems refits.cloneOf
  · rw [modify_of_size_le (Nat.le_of_not_lt inside)]
    exact .refl _

include wellFormed unused exact in
theorem Sealed.sameFrame_reset (sealed : automaton.Sealed grammar first)
    (number : Nat) :
    automaton.SameFrame (automaton.modify number fun state =>
      state.resetContexts grammar first) := by
  by_cases inside : number < automaton.size
  · have refits := sealed.refits_reset wellFormed unused exact inside
    exact .modify refits.sameItems refits.successors
  · rw [modify_of_size_le (Nat.le_of_not_lt inside)]
    exact .refl _

include wellFormed unused exact in
theorem Intact.join (intact : automaton.Intact grammar first) {number : Nat}
    {contexts : List TerminalSet}
    (bounded : ∀ context ∈ contexts, ∀ terminal ∈ context,
      terminal < grammar.terminals.size) :
    (automaton.modify number fun state =>
        ((state.joinContexts contexts).close grammar first
          true).1).Intact grammar first ∧
      automaton.Enlarges (automaton.modify number fun state =>
        ((state.joinContexts contexts).close grammar first true).1) := by
  by_cases inside : number < automaton.size
  · have refits := State.refits_join wellFormed unused exact
      (intact.framed.regular number inside) (intact.closed number inside)
      (intact.terminated number inside) bounded
    constructor
    · apply intact.modify refits
      intro isStart
      subst isStart
      exact State.hasContext_join intact.goal
    · exact enlarges_modify refits.sameItems refits.cloneOf
  · rw [modify_of_size_le (Nat.le_of_not_lt inside)]
    exact ⟨intact, .refl _⟩

include wellFormed unused exact in
/-- Arriving configurations are merged into a state. -/
theorem Intact.absorb (intact : automaton.Intact grammar first)
    {incoming : List Configuration}
    (bounded : ∀ item terminal, State.Arrives incoming item terminal →
      terminal < grammar.terminals.size)
    (number : Nat) {merged : Automaton} {grown : Bool}
    (result : automaton.absorb grammar first number incoming =
      (merged, grown)) :
    merged.Intact grammar first ∧ automaton.Enlarges merged := by
  rw [Automaton.absorb, State.absorb_eq] at result
  by_cases covered : (automaton.state number).covers incoming = true
  · rw [if_pos covered] at result
    cases result
    exact ⟨intact, .refl _⟩
  · rw [if_neg covered] at result
    cases result
    rw [State.joined, modify_eq_of_state fun state =>
      ((state.joinContexts _).close grammar first true).1]
    apply intact.join wellFormed unused exact
    intro context member terminal inContext
    obtain ⟨configuration, arriving, rfl⟩ := List.mem_map.mp member
    exact bounded configuration.item terminal
      ⟨configuration, arriving, rfl, inContext⟩

end Operations

theorem cloneOf_relink (source : Nat) (symbol : Symbol) (target number : Nat) :
    ((automaton.relink source symbol target).state number).cloneOf =
      (automaton.state number).cloneOf := by
  rcases automaton.relink_cases source symbol target with
    ⟨-, equal⟩ | ⟨-, equal⟩ | ⟨old, -, equal⟩
  · rw [equal]
  · rw [equal, cloneOf_link]
  · rw [equal, cloneOf_link]
    exact state_modify_keeps State.cloneOf fun _ => rfl

theorem enlarges_of_alike (size : new.size = old.size)
    (alike : ∀ number, (old.state number).Alike (new.state number))
    (cloneOf : ∀ number,
      (new.state number).cloneOf = (old.state number).cloneOf) :
    old.Enlarges new := by
  constructor
  · exact Nat.le_of_eq size.symm
  · intro number _
    exact (alike number).sameItems
  · intro number _
    rw [prototype, prototype, cloneOf]

theorem Sealed.of_alike (sealed : old.Sealed grammar first)
    (framed : new.Framed grammar) (size : new.size = old.size)
    (alike : ∀ number, (old.state number).Alike (new.state number)) :
    new.Sealed grammar first := by
  constructor
  · exact framed
  · intro number inside item terminal has
    rw [size] at inside
    rw [(alike number).hasContext_iff] at has
    exact sealed.terminated number inside item terminal has
  · intro number inside
    rw [size] at inside
    exact (alike number).closed (sealed.closed number inside)
  · rw [(alike _).hasContext_iff]
    exact sealed.goal

theorem enlarges_relink (source : Nat) (symbol : Symbol) (target : Nat) :
    automaton.Enlarges (automaton.relink source symbol target) :=
  enlarges_of_alike (size_relink source symbol target)
    (alike_relink source symbol target) (cloneOf_relink source symbol target)

theorem Intact.relink (intact : automaton.Intact grammar first)
    {source target : Nat} {symbol : Symbol}
    (fits : automaton.Fits grammar source symbol target) :
    (automaton.relink source symbol target).Intact grammar first := by
  obtain ⟨sourceInside, targetInside, scans, core⟩ := fits
  have framed := intact.framed.relink sourceInside targetInside scans core
  have enlarges := automaton.enlarges_relink source symbol target
  have size := automaton.size_relink source symbol target
  have sealed := intact.toSealed.of_alike framed size
    (alike_relink source symbol target)
  apply intact.of_enlarges sealed enlarges size
  intro number scanned next edge
  rw [successor?_relink sourceInside]
  split
  · exact ⟨target, rfl⟩
  · exact ⟨next, edge⟩

end Automaton

end LRTables
