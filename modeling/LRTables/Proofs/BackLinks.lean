import LRTables.Proofs.Remakes
import LRTables.Proofs.Retracings

/-!
# Links backward

A transition is kept a second time at its target, as a parent and as the
transitors of the core.  What the targets recall is a relation of its own:
every operation on links changes that relation as it changes the transitions,
so that in the end the two agree.
-/

namespace LRTables

namespace State

variable {grammar : Grammar} {first : FirstSets} {old new later : State}

/-- The new state has the items and the links of the old one. -/
structure SameLinks (old new : State) : Prop where
  frame : new = { old with configurations := new.configurations }
  size : new.configurations.size = old.configurations.size
  item : ∀ index < old.configurations.size,
    (new.configuration index).item = (old.configuration index).item
  transitors : ∀ index < old.configurations.size,
    (new.configuration index).transitors =
      (old.configuration index).transitors

namespace SameLinks

theorem refl (state : State) : state.SameLinks state := by
  constructor
  · rfl
  · rfl
  · exact fun _ _ => rfl
  · exact fun _ _ => rfl

theorem trans (before : old.SameLinks new) (after : new.SameLinks later) :
    old.SameLinks later := by
  have inside {index : Nat} (bound : index < old.configurations.size) :
      index < new.configurations.size := before.size.symm ▸ bound
  constructor
  · rw [after.frame, before.frame]
  · exact after.size.trans before.size
  · intro index bound
    exact (after.item index (inside bound)).trans (before.item index bound)
  · intro index bound
    exact (after.transitors index (inside bound)).trans
      (before.transitors index bound)

theorem sameItems (same : old.SameLinks new) : old.SameItems new := by
  have frame := same.frame
  constructor
  · rw [frame]
  · rw [frame]
  · exact same.size
  · exact same.item

theorem close (same : old.SameLinks new) (closed : old.ItemsClosed grammar)
    (distinct : old.Distinct) {contexts : Bool} :
    old.SameLinks (new.close grammar first contexts).1 := by
  have newClosed := same.sameItems.itemsClosed closed
  have newDistinct : new.Distinct := by
    rw [distinct_iff_nodup, same.sameItems.items, ← distinct_iff_nodup]
    exact distinct
  have grows : new.Extends (new.close grammar first contexts).1 :=
    close_extends
  have sameItems : new.SameItems (new.close grammar first contexts).1 :=
    newClosed.close_sameItems newDistinct
  apply same.trans
  exact ⟨grows.frame, sameItems.size, grows.item, grows.transitors⟩

theorem mapConfigurations (state : State)
    {change : Configuration → Configuration}
    (item : ∀ configuration : Configuration,
      (change configuration).item = configuration.item)
    (transitors : ∀ configuration : Configuration,
      (change configuration).transitors = configuration.transitors) :
    state.SameLinks (state.mapConfigurations change) := by
  constructor
  · rfl
  · exact size_mapConfigurations change
  · intro index inside
    rw [configuration_mapConfigurations inside, item]
  · intro index inside
    rw [configuration_mapConfigurations inside, transitors]

theorem joinContexts (state : State) (contexts : List TerminalSet) :
    state.SameLinks (state.joinContexts contexts) := by
  have same := @joinContexts_sameItems state contexts
  refine ⟨rfl, same.size, same.item, ?_⟩
  intro index inside
  rw [configuration_joinContexts inside]

theorem resetContexts {state : State} (closed : state.ItemsClosed grammar)
    (distinct : state.Distinct) :
    state.SameLinks (state.resetContexts grammar first) := by
  rw [resetContexts_eq]
  apply SameLinks.close _ closed distinct
  exact mapConfigurations state (fun _ => rfl) fun _ => rfl

theorem joined {state : State} (closed : state.ItemsClosed grammar)
    (distinct : state.Distinct) (cores : List Configuration) :
    state.SameLinks (state.joined grammar first cores) :=
  (joinContexts state _).close closed distinct

/-- A delivery changes lookaheads only. -/
theorem of_deliver {number : Nat} {cores : List Configuration}
    (result : Propagating.deliver number old cores = .ok new) :
    old.SameLinks new := by
  induction cores generalizing old with
  | nil =>
      cases result
      exact refl _
  | cons arriving rest ih =>
      rw [Propagating.deliver] at result
      split at result
      · cases result
      · apply SameLinks.trans _ (ih result)
        constructor
        · rfl
        · exact size_modify _ _
        · intro index _
          exact configuration_modify_keeps Configuration.item fun _ => rfl
        · intro index _
          exact configuration_modify_keeps Configuration.transitors
            fun _ => rfl

end SameLinks

end State

namespace Automaton

variable {grammar : Grammar} {automaton old new later : Automaton}
  {source target : Nat} {symbol : Symbol}

/-- All states have the items and the links that they had. -/
structure SameLinks (old new : Automaton) : Prop where
  size : new.size = old.size
  state : ∀ number, (old.state number).SameLinks (new.state number)

namespace SameLinks

theorem refl (automaton : Automaton) : automaton.SameLinks automaton :=
  ⟨rfl, fun _ => .refl _⟩

theorem trans (before : old.SameLinks new) (after : new.SameLinks later) :
    old.SameLinks later :=
  ⟨after.size.trans before.size,
    fun number => (before.state number).trans (after.state number)⟩

theorem modify {number : Nat} {change : State → State}
    (same : number < automaton.size → (automaton.state number).SameLinks
      (change (automaton.state number))) :
    automaton.SameLinks (automaton.modify number change) := by
  refine ⟨size_modify change, ?_⟩
  intro other
  by_cases equal : other = number
  · subst equal
    by_cases inside : other < automaton.size
    · rw [state_modify_self inside]
      exact same inside
    · rw [modify_of_size_le (Nat.le_of_not_lt inside)]
      exact .refl _
  · rw [state_modify_ne equal]
    exact .refl _

theorem successors (same : old.SameLinks new) (number : Nat) :
    (new.state number).successors = (old.state number).successors := by
  rw [(same.state number).frame]

theorem successor?_eq (same : old.SameLinks new) (number : Nat)
    (symbol : Symbol) :
    (new.state number).successor? symbol =
      (old.state number).successor? symbol := by
  rw [State.successor?_eq, State.successor?_eq, same.successors]

theorem sameFrame (same : old.SameLinks new) : old.SameFrame new := by
  constructor
  · exact same.size
  · exact fun number _ => (same.state number).sameItems
  · exact fun number _ => same.successors number

theorem parents (same : old.SameLinks new) (number : Nat) :
    (new.state number).parents = (old.state number).parents := by
  rw [(same.state number).frame]

theorem holds_iff (same : old.SameLinks new) {place : Place} :
    new.Holds place ↔ old.Holds place := by
  rw [Holds, Holds, same.size, (same.state place.state).size]

theorem item (same : old.SameLinks new) {place : Place}
    (holds : old.Holds place) :
    (new.configuration place).item = (old.configuration place).item :=
  (same.state place.state).item place.index holds.2

theorem transitors (same : old.SameLinks new) {place : Place}
    (holds : old.Holds place) :
    (new.configuration place).transitors =
      (old.configuration place).transitors :=
  (same.state place.state).transitors place.index holds.2

theorem of_retraced (retraced : old.Retraced new) : old.SameLinks new := by
  refine ⟨retraced.size, fun number => ?_⟩
  constructor
  · exact retraced.frame number
  · exact retraced.sizes number
  · intro index _
    exact (retraced.relabels { state := number, index }).item
  · intro index _
    exact (retraced.relabels { state := number, index }).transitors

end SameLinks

/-- Transitions, given by source, symbol and target. -/
abbrev Edges := Nat → Symbol → Nat → Prop

/-- The transitions of the automaton. -/
def edges (automaton : Automaton) : Edges := fun source symbol target =>
  (automaton.state source).successor? symbol = some target

/-- The first configuration becomes the second one along a transition. -/
def BecomesBy (grammar : Grammar) (automaton : Automaton) (edges : Edges)
    (place target : Place) : Prop :=
  automaton.Holds place ∧ ∃ symbol,
    edges place.state symbol target.state ∧
      (automaton.configuration place).item.scanned grammar = some symbol ∧
      (automaton.configuration target).item =
        (automaton.configuration place).item.advance

/-- With a new transition the configurations of its source become those of the
core of its target. -/
theorem becomesBy_link {edges : Edges} {place other : Place}
    (framed : automaton.Framed grammar)
    (fits : automaton.Fits grammar source symbol target)
    (holds : automaton.Holds place) :
    (automaton.link source symbol target).BecomesBy grammar
        (fun origin scanned next => edges origin scanned next ∨
          origin = source ∧ scanned = symbol ∧ next = target) other place ↔
      automaton.BecomesBy grammar edges other place ∨
        place.state = target ∧
          place.index < (automaton.state place.state).coreCount ∧
          other.state = source ∧
          other.index < (automaton.state source).configurations.size ∧
          (automaton.configuration place).item =
            ((automaton.state source).configuration
              other.index).item.advance := by
  obtain ⟨sourceInside, targetInside, -, core⟩ := fits
  have regular := framed.regular place.state holds.1
  rw [BecomesBy, BecomesBy, holds_link, item_link holds]
  constructor
  · rintro ⟨inside, scanned, edge | ⟨isSource, -, isTarget⟩, scans, equal⟩
    · rw [item_link inside] at scans equal
      exact Or.inl ⟨inside, scanned, edge, scans, equal⟩
    · rw [item_link inside] at equal
      refine Or.inr ⟨isTarget, ?_, isSource, ?_, ?_⟩
      · rw [regular.lt_coreCount holds.2]
        show (automaton.configuration place).item.InKernel
        rw [equal]
        exact Item.inKernel_advance _
      · exact isSource ▸ inside.2
      · rw [equal, configuration, isSource]
  · rintro (⟨inside, scanned, edge, scans, equal⟩ |
      ⟨isTarget, isCore, isSource, bound, equal⟩)
    · refine ⟨inside, scanned, Or.inl edge, ?_⟩
      rw [item_link inside]
      exact ⟨scans, equal⟩
    · have inside : automaton.Holds other :=
        ⟨isSource ▸ sourceInside, isSource ▸ bound⟩
      have member : (automaton.configuration place).item ∈
          (automaton.state target).coreItems := by
        rw [← isTarget]
        exact (State.mem_coreItems regular.coreCount_le).mpr
          ⟨place.index, isCore, rfl⟩
      rw [core] at member
      obtain ⟨origin, -, scans, advanced⟩ :=
        State.mem_successorItems.mp member
      have same : (automaton.configuration other).item = origin := by
        apply Item.advance_injective
        rw [← advanced, equal, configuration, isSource]
      refine ⟨inside, symbol, Or.inr ⟨isSource, rfl, isTarget⟩, ?_⟩
      rw [item_link inside, same]
      exact ⟨scans, advanced⟩

/-- The parents and the transitors of all states are those of the given
transitions, each kept once. -/
structure Recalls (grammar : Grammar) (automaton : Automaton)
    (edges : Edges) : Prop where
  parents : ∀ number parent,
    parent ∈ (automaton.state number).parents ↔
      ∃ symbol, edges parent symbol number
  parents_nodup : ∀ number, (automaton.state number).parents.Nodup
  transitors : ∀ target, automaton.Holds target → ∀ place,
    place ∈ (automaton.configuration target).transitors ↔
      automaton.BecomesBy grammar edges place target
  transitors_nodup : ∀ place, automaton.Holds place →
    (automaton.configuration place).transitors.Nodup

/-- The targets recall the transitions of the automaton. -/
def Mutual (grammar : Grammar) (automaton : Automaton) : Prop :=
  automaton.Recalls grammar automaton.edges

namespace Recalls

variable {edges : Edges} (recalls : automaton.Recalls grammar edges)

include recalls in
theorem congr {other : Edges}
    (same : ∀ source symbol target,
      edges source symbol target ↔ other source symbol target) :
    automaton.Recalls grammar other := by
  have equal : edges = other :=
    funext fun source => funext fun symbol => funext fun target =>
      propext (same source symbol target)
  exact equal ▸ recalls

include recalls in
theorem sameLinks (same : automaton.SameLinks new) :
    new.Recalls grammar edges := by
  constructor
  · intro number parent
    rw [same.parents]
    exact recalls.parents number parent
  · intro number
    rw [same.parents]
    exact recalls.parents_nodup number
  · intro target holds place
    rw [same.holds_iff] at holds
    rw [same.transitors holds, recalls.transitors target holds, BecomesBy,
      BecomesBy, same.holds_iff, same.item holds]
    refine and_congr_right fun inside => ?_
    rw [same.item inside]
  · intro place holds
    rw [same.holds_iff] at holds
    rw [same.transitors holds]
    exact recalls.transitors_nodup place holds

include recalls in
/-- The target of a new transition recalls it. -/
theorem link (framed : automaton.Framed grammar)
    (fits : automaton.Fits grammar source symbol target) :
    (automaton.link source symbol target).Recalls grammar
      fun origin scanned next => edges origin scanned next ∨
        origin = source ∧ scanned = symbol ∧ next = target := by
  obtain ⟨sourceInside, targetInside, scans, core⟩ := fits
  have distinct := (framed.regular source sourceInside).distinct
  constructor
  · intro number parent
    rw [mem_parents_link targetInside, recalls.parents]
    constructor
    · rintro (⟨scanned, edge⟩ | ⟨rfl, rfl⟩)
      · exact ⟨scanned, Or.inl edge⟩
      · exact ⟨symbol, Or.inr ⟨rfl, rfl, rfl⟩⟩
    · rintro ⟨scanned, edge | ⟨rfl, -, rfl⟩⟩
      · exact Or.inl ⟨scanned, edge⟩
      · exact Or.inr ⟨rfl, rfl⟩
  · intro number
    rw [parents_link targetInside]
    split
    · exact Ordered.nodup_insert (recalls.parents_nodup target) source
    · exact recalls.parents_nodup number
  · intro place holds other
    rw [holds_link] at holds
    rw [mem_transitors_link distinct holds, recalls.transitors place holds]
    exact (becomesBy_link framed ⟨sourceInside, targetInside, scans, core⟩
      holds).symm
  · intro place holds
    rw [holds_link] at holds
    rw [configuration_link holds]
    split
    · split
      · exact recalls.transitors_nodup place holds
      · exact Ordered.nodup_insert (recalls.transitors_nodup place holds) _
    · exact recalls.transitors_nodup place holds

theorem holds_dropParent {former : Nat} {place : Place} :
    (automaton.modify former fun state => state.dropParent source).Holds
        place ↔
      automaton.Holds place :=
  holds_of_alike (size_modify _)
    fun number => alike_modify number (alike_dropParent source)

theorem item_dropParent {former : Nat} {place : Place}
    (holds : automaton.Holds place) :
    ((automaton.modify former fun state =>
        state.dropParent source).configuration place).item =
      (automaton.configuration place).item :=
  (alike_modify place.state
    (alike_dropParent source)).sameItems.item place.index holds.2

theorem transitors_dropParent {former : Nat} {place : Place}
    (holds : automaton.Holds place) :
    ((automaton.modify former fun state =>
        state.dropParent source).configuration place).transitors =
      if place.state = former then
        (automaton.configuration place).transitors.filter fun other =>
          other.state != source
      else (automaton.configuration place).transitors := by
  rw [configuration]
  split
  · rename_i same
    subst same
    rw [state_modify_self holds.1]
    exact congrArg Configuration.transitors
      (State.configuration_mapConfigurations holds.2)
  · rename_i different
    rw [state_modify_ne different]
    rfl

include recalls in
/-- A state that drops a parent forgets all transitions from it. -/
theorem dropParent (former source : Nat) :
    (automaton.modify former fun state =>
        state.dropParent source).Recalls grammar
      fun origin scanned next => edges origin scanned next ∧
        ¬ (next = former ∧ origin = source) := by
  constructor
  · intro number parent
    rw [mem_parents_dropParent, recalls.parents, exists_and_right]
  · intro number
    by_cases same : number = former
    · subst same
      by_cases inside : number < automaton.size
      · rw [state_modify_self inside]
        exact (recalls.parents_nodup number).filter _
      · rw [modify_of_size_le (Nat.le_of_not_lt inside)]
        exact recalls.parents_nodup number
    · rw [state_modify_ne same]
      exact recalls.parents_nodup number
  · intro place holds other
    rw [holds_dropParent] at holds
    have becomes : (automaton.modify former fun state =>
          state.dropParent source).BecomesBy grammar
          (fun origin scanned next => edges origin scanned next ∧
            ¬ (next = former ∧ origin = source)) other place ↔
        automaton.BecomesBy grammar edges other place ∧
          ¬ (place.state = former ∧ other.state = source) := by
      rw [BecomesBy, BecomesBy, holds_dropParent, item_dropParent holds]
      constructor
      · rintro ⟨inside, scanned, ⟨edge, apart⟩, scans, equal⟩
        rw [item_dropParent inside] at scans equal
        exact ⟨⟨inside, scanned, edge, scans, equal⟩, apart⟩
      · rintro ⟨⟨inside, scanned, edge, scans, equal⟩, apart⟩
        refine ⟨inside, scanned, ⟨edge, apart⟩, ?_⟩
        rw [item_dropParent inside]
        exact ⟨scans, equal⟩
    rw [becomes, transitors_dropParent holds, ← recalls.transitors place holds]
    split
    · rename_i same
      simp [same]
    · rename_i different
      simp [different]
  · intro place holds
    rw [holds_dropParent] at holds
    rw [transitors_dropParent holds]
    split
    · exact (recalls.transitors_nodup place holds).filter _
    · exact recalls.transitors_nodup place holds

include recalls in
/-- A state that is appended without links is in no transition. -/
theorem add (bounded : ∀ source symbol target, edges source symbol target →
      source < automaton.size ∧ target < automaton.size) {added : State}
    (parents : added.parents = [])
    (transitors : ∀ index < added.configurations.size,
      (added.configuration index).transitors = []) :
    (automaton.add added).Recalls grammar edges := by
  have value {place : Place} (inside : place.state < automaton.size) :=
    @configuration_add_of_lt automaton added place inside
  have holds {place : Place} (inside : place.state < automaton.size) :=
    @holds_add_of_lt automaton added place inside
  have orphan {number : Nat} (outside : ¬ number < automaton.size) :
      ((automaton.add added).state number).parents = [] := by
    rcases Nat.eq_or_lt_of_not_lt outside with rfl | past
    · rw [state_add_size, parents]
    · rw [state_of_size_le (by rwa [size_add])]
      rfl
  have blank {place : Place} (inside : (automaton.add added).Holds place)
      (fresh : place.state = automaton.size) :
      ((automaton.add added).configuration place).transitors = [] := by
    have bound := inside.2
    rw [fresh, state_add_size] at bound
    rw [configuration, fresh, state_add_size]
    exact transitors place.index bound
  constructor
  · intro number parent
    by_cases inside : number < automaton.size
    · rw [state_add_of_lt inside]
      exact recalls.parents number parent
    · rw [orphan inside]
      constructor
      · intro member
        cases member
      · rintro ⟨symbol, edge⟩
        exact absurd (bounded _ _ _ edge).2 inside
  · intro number
    by_cases inside : number < automaton.size
    · rw [state_add_of_lt inside]
      exact recalls.parents_nodup number
    · rw [orphan inside]
      exact List.nodup_nil
  · intro target inside place
    rcases lt_or_eq_of_lt_size_add inside.1 with old | fresh
    · rw [value old, recalls.transitors target ((holds old).mp inside)]
      constructor
      · rintro ⟨placeHolds, symbol, edge, scans, equal⟩
        have placeInside := placeHolds.1
        refine ⟨(holds placeInside).mpr placeHolds, symbol, edge, ?_, ?_⟩
        · rw [value placeInside]
          exact scans
        · rw [value old, value placeInside]
          exact equal
      · rintro ⟨placeHolds, symbol, edge, scans, equal⟩
        have placeInside := (bounded _ _ _ edge).1
        rw [value placeInside] at scans equal
        rw [value old] at equal
        exact ⟨(holds placeInside).mp placeHolds, symbol, edge, scans, equal⟩
    · rw [blank inside fresh]
      constructor
      · intro member
        cases member
      · rintro ⟨-, symbol, edge, -, -⟩
        have bound := (bounded _ _ _ edge).2
        rw [fresh] at bound
        exact absurd bound (Nat.lt_irrefl _)
  · intro place inside
    rcases lt_or_eq_of_lt_size_add inside.1 with old | fresh
    · rw [value old]
      exact recalls.transitors_nodup place ((holds old).mp inside)
    · rw [blank inside fresh]
      exact List.nodup_nil

theorem linkAll (recalls : automaton.Recalls grammar edges)
    (framed : automaton.Framed grammar) {links : List (Symbol × Nat)}
    (fits : ∀ edge ∈ links, automaton.Fits grammar source edge.1 edge.2) :
    (automaton.linkAll source links).Recalls grammar
      fun origin scanned next => edges origin scanned next ∨
        origin = source ∧ (scanned, next) ∈ links := by
  induction links generalizing automaton edges with
  | nil =>
      apply recalls.congr
      simp
  | cons edge rest ih =>
      have own := fits edge List.mem_cons_self
      have enlarges := (linked_link own.source_lt edge.1 edge.2).enlarges
      have linked := ih (recalls.link framed own) (framed.link own)
        fun other later =>
          (fits other (List.mem_cons_of_mem _ later)).enlarge enlarges
      apply linked.congr
      intro origin scanned next
      rw [List.mem_cons, Prod.ext_iff, or_assoc, ← and_or_left]

include recalls in
/-- Unreachable states are cut off together with their transitions. -/
theorem detach : automaton.detachUnreachable.Recalls grammar
    fun origin scanned next => edges origin scanned next ∧
      automaton.reachable.getD origin false = true := by
  have holds {place : Place} :
      automaton.detachUnreachable.Holds place ↔ automaton.Holds place :=
    holds_of_alike size_detach alike_detach
  have item {place : Place} (inside : automaton.Holds place) :
      (automaton.detachUnreachable.configuration place).item =
        (automaton.configuration place).item :=
    (alike_detach place.state).sameItems.item place.index inside.2
  have transitors {place : Place} (inside : automaton.Holds place) :
      (automaton.detachUnreachable.configuration place).transitors =
        (automaton.configuration place).transitors.filter fun other =>
          automaton.reachable.getD other.state false := by
    rw [configuration, state_detach inside.1]
    exact congrArg Configuration.transitors
      (State.configuration_mapConfigurations inside.2)
  have parents (number : Nat) :
      (automaton.detachUnreachable.state number).parents =
        (automaton.state number).parents.filter fun parent =>
          automaton.reachable.getD parent false := by
    by_cases inside : number < automaton.size
    · rw [state_detach inside]
    · have outside := Nat.le_of_not_lt inside
      rw [state_of_size_le outside,
        state_of_size_le (size_detach.symm ▸ outside)]
      rfl
  constructor
  · intro number parent
    rw [parents, List.mem_filter, recalls.parents, exists_and_right]
  · intro number
    rw [parents]
    exact (recalls.parents_nodup number).filter _
  · intro target inside place
    rw [holds] at inside
    rw [transitors inside, List.mem_filter, recalls.transitors target inside,
      BecomesBy, BecomesBy, holds, item inside]
    constructor
    · rintro ⟨⟨placeHolds, symbol, edge, scans, equal⟩, reached⟩
      refine ⟨placeHolds, symbol, ⟨edge, reached⟩, ?_⟩
      rw [item placeHolds]
      exact ⟨scans, equal⟩
    · rintro ⟨placeHolds, symbol, ⟨edge, reached⟩, scans, equal⟩
      rw [item placeHolds] at scans equal
      exact ⟨⟨placeHolds, symbol, edge, scans, equal⟩, reached⟩
  · intro place inside
    rw [holds] at inside
    rw [transitors inside]
    exact (recalls.transitors_nodup place inside).filter _

end Recalls

/-- All added transitions are kept if no two are on the same symbol. -/
theorem edges_linkAll (inside : source < automaton.size)
    {links : List (Symbol × Nat)} (keyed : Ordered.Keyed links)
    (missing : ∀ edge ∈ links,
      (automaton.state source).successor? edge.1 = none)
    (origin : Nat) (scanned : Symbol) (next : Nat) :
    (automaton.linkAll source links).edges origin scanned next ↔
      automaton.edges origin scanned next ∨
        origin = source ∧ (scanned, next) ∈ links := by
  induction links generalizing automaton with
  | nil => simp [linkAll]
  | cons edge rest ih =>
      obtain ⟨symbol, target⟩ := edge
      rw [Ordered.Keyed, List.map_cons, List.nodup_cons] at keyed
      have found (other : Nat) (read : Symbol) :=
        @successor?_link automaton source target other symbol read inside
      rw [linkAll, List.foldl_cons, ← linkAll, ih]
      · rw [edges, edges, found, List.mem_cons]
        by_cases own : origin = source ∧ scanned = symbol
        · obtain ⟨rfl, rfl⟩ := own
          have absent := missing (scanned, target) List.mem_cons_self
          simp [absent, eq_comm]
        · rw [if_neg own]
          have different : ¬ (origin = source ∧
              (scanned, next) = (symbol, target)) := by
            rintro ⟨same, equal⟩
            exact own ⟨same, congrArg Prod.fst equal⟩
          tauto
      · rwa [size_link]
      · exact keyed.2
      · intro later member
        rw [found, if_neg]
        · exact missing later (List.mem_cons_of_mem _ member)
        · rintro ⟨-, same⟩
          exact keyed.1 (List.mem_map.mpr ⟨later, member, same⟩)

namespace Mutual

variable (reciprocal : automaton.Mutual grammar)
  (framed : automaton.Framed grammar)

include reciprocal in
theorem sameLinks (same : automaton.SameLinks new) : new.Mutual grammar := by
  apply (Recalls.sameLinks reciprocal same).congr
  intro origin scanned next
  rw [edges, edges, same.successor?_eq]

theorem of_empty : empty.Mutual grammar := by
  have blank (number : Nat) : empty.state number = default :=
    state_of_size_le (Nat.zero_le number)
  constructor
  · intro number parent
    rw [blank]
    constructor
    · intro member
      cases member
    · rintro ⟨symbol, edge⟩
      rw [edges, blank] at edge
      cases edge
  · intro number
    rw [blank]
    exact List.nodup_nil
  · intro target holds
    exact absurd holds.1 (Nat.not_lt_zero _)
  · intro place holds
    exact absurd holds.1 (Nat.not_lt_zero _)

include reciprocal in
theorem add (bounded : automaton.Bounded) {added : State}
    (successors : added.successors = [])
    (parents : added.parents = [])
    (transitors : ∀ index < added.configurations.size,
      (added.configuration index).transitors = []) :
    (automaton.add added).Mutual grammar := by
  have inside (origin : Nat) (scanned : Symbol) (next : Nat)
      (edge : automaton.edges origin scanned next) :
      origin < automaton.size ∧ next < automaton.size :=
    ⟨lt_size_of_successor edge, bounded _ _ _ edge⟩
  apply (Recalls.add reciprocal inside parents transitors).congr
  intro origin scanned next
  rw [edges, edges, successor?_add successors]

include reciprocal framed in
/-- The old target of a redirected transition forgets it, and the new one
recalls it. -/
theorem relink (fits : automaton.Fits grammar source symbol target) :
    (automaton.relink source symbol target).Mutual grammar := by
  have inside := fits.source_lt
  -- What is recalled besides the new transition is all other transitions.
  have swap {kept : Edges}
      (recalls : (automaton.relink source symbol target).Recalls grammar
        fun origin scanned next => kept origin scanned next ∨
          origin = source ∧ scanned = symbol ∧ next = target)
      (others : ∀ origin scanned next, kept origin scanned next ↔
        automaton.edges origin scanned next ∧
          ¬ (origin = source ∧ scanned = symbol)) :
      (automaton.relink source symbol target).Mutual grammar := by
    apply recalls.congr
    intro origin scanned next
    rw [others, edges, edges, successor?_relink inside]
    by_cases own : origin = source ∧ scanned = symbol
    · simp [own, eq_comm]
    · rw [if_neg own]
      tauto
  rcases automaton.relink_cases source symbol target with
    ⟨-, equal⟩ | ⟨missing, equal⟩ | ⟨former, found, equal⟩
  · rw [equal]
    exact reciprocal
  · apply swap
    · rw [equal]
      exact Recalls.link reciprocal framed fits
    · intro origin scanned next
      refine ⟨fun edge => ⟨edge, ?_⟩, fun edge => edge.1⟩
      rintro ⟨rfl, rfl⟩
      rw [edges, missing] at edge
      cases edge
  · have alike (number : Nat) := @alike_modify automaton former _ number
      (alike_dropParent source)
    have dropped : (automaton.modify former fun state =>
        state.dropParent source).Framed grammar := by
      apply framed.of_alike (size_modify _) alike
      · intro number
        rw [successors_dropParent]
        exact framed.keyed number
      · intro number scanned next edge
        rw [State.successor?_eq, successors_dropParent] at edge
        exact ⟨framed.bounded _ _ _ edge, framed.scanned _ _ _ edge,
          framed.edges _ _ _ edge⟩
    apply swap
    · rw [equal]
      apply Recalls.link (Recalls.dropParent reciprocal former source) dropped
      exact fits.enlarge (enlarges_of_alike (size_modify _) alike
        fun number => state_modify_keeps State.cloneOf fun _ => rfl)
    · intro origin scanned next
      refine and_congr_right fun edge => not_congr ?_
      constructor
      · rintro ⟨rfl, rfl⟩
        exact ⟨rfl, framed.symbol_unique edge found⟩
      · rintro ⟨rfl, rfl⟩
        exact ⟨Option.some.inj (edge.symm.trans found), rfl⟩

include reciprocal in
/-- The targets of the transitions of a copy recall it. -/
theorem clone {first : FirstSets} (intact : automaton.Intact grammar first)
    {number : Nat} (inside : number < automaton.size) :
    (automaton.clone number).Mutual grammar := by
  have framed := intact.framed
  have barely := intact.sealed_bareCopy inside
  have added : (automaton.add (automaton.bareCopy number)).Mutual grammar := by
    refine add reciprocal framed.bounded rfl rfl fun index bound => ?_
    have bound : index < (automaton.state number).configurations.size := by
      rw [← State.size_mapConfigurations]
      exact bound
    exact congrArg Configuration.transitors
      (State.configuration_mapConfigurations bound)
  rw [clone_eq]
  apply (Recalls.linkAll added barely.framed
    (intact.fits_bareCopy inside)).congr
  intro origin scanned next
  rw [edges_linkAll _ (framed.keyed number)]
  · intro edge _
    rw [state_add_size]
    rfl
  · rw [size_add]
    exact Nat.lt_succ_self _

include reciprocal in
theorem detach : automaton.detachUnreachable.Mutual grammar := by
  apply (Recalls.detach reciprocal).congr
  intro origin scanned next
  rw [edges, edges, successor?_detach]
  split
  · rename_i reached
    simp [reached]
  · rename_i unreached
    simp [unreached]

end Mutual

end Automaton

end LRTables
