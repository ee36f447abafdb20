import LRTables.Proofs.FaithfulAutomata
import LRTables.Proofs.Rivals
import Mathlib.Data.List.ProdSigma

/-!
# Lanes of conflicts

If rivals share a lookahead, it comes to be one of a reduce/reduce conflict
further on, and the lanes of that conflict lead back to the rivals.  So the
region of the conflicts has every state in which rivals share a lookahead.
-/

namespace LRTables

namespace Automaton

variable {grammar : Grammar} {first : FirstSets} {automaton base : Automaton}
  {log : ConflictLog} {place source : Place} {terminal : Nat}

theorem toList_states (automaton : Automaton) :
    automaton.states.toList =
      (List.range automaton.size).map automaton.state := by
  apply List.ext_getElem
  · simp [size]
  · intro number inside _
    rw [Array.length_toList] at inside
    simp [state, Array.getD_eq_getD_getElem?, inside]

theorem configurationCount_eq (automaton : Automaton) :
    automaton.configurationCount =
      ((List.range automaton.size).map fun number =>
        (automaton.state number).configurations.size).sum := by
  have count (states : List State) (start : Nat) :
      states.foldl (fun count state => count + state.configurations.size)
          start =
        start + (states.map fun state => state.configurations.size).sum := by
    induction states generalizing start with
    | nil => rfl
    | cons state rest ih =>
        rw [List.foldl_cons, ih, List.map_cons, List.sum_cons, Nat.add_assoc]
  rw [configurationCount, ← Array.foldl_toList, count, toList_states,
    List.map_map, Nat.zero_add]
  rfl

/-- The places of all states. -/
def places (automaton : Automaton) : List Place :=
  (List.range automaton.size).flatMap automaton.placesOf

theorem Holds.mem_places (holds : automaton.Holds place) :
    place ∈ automaton.places := by
  have isPlace : place ∈ automaton.placesOf place.state :=
    List.mem_map.mpr ⟨place.index, List.mem_range.mpr holds.2, rfl⟩
  exact List.mem_flatMap.mpr ⟨place.state, List.mem_range.mpr holds.1, isPlace⟩

theorem length_places (automaton : Automaton) :
    automaton.places.length = automaton.configurationCount := by
  rw [places, List.length_flatMap, configurationCount_eq]
  simp only [placesOf, List.length_map, List.length_range]

theorem holds_of_mem_context (inContext : terminal ∈ automaton.context place) :
    automaton.Holds place := by
  by_contra outside
  rw [context, configuration_of_not_holds outside] at inContext
  exact TerminalSet.not_mem_empty terminal inContext

theorem hasContext_of_mem_context
    (inContext : terminal ∈ automaton.context place) :
    (automaton.state place.state).HasContext
      (automaton.configuration place).item terminal :=
  ⟨place.index, (holds_of_mem_context inContext).2, rfl, inContext⟩

/-- What a lane of a terminal can come from. -/
theorem mem_laneStep {member other : Place × Nat} :
    other ∈ automaton.laneStep grammar first member ↔
      other.1 ∈ automaton.laneTargets grammar first member.1 ∧
        other.2 = member.2 ∧ other.2 ∈ automaton.context other.1 := by
  obtain ⟨place, terminal⟩ := member
  obtain ⟨source, token⟩ := other
  have sources : (if (automaton.configuration place).item = .goal then []
      else if (automaton.configuration place).item.dot > 0 then
        (automaton.configuration place).transitors
      else (automaton.originatorsOf place).filter fun origin =>
        (first.heads
          ((automaton.configuration origin).item.tail grammar)).2) =
      automaton.laneTargets grammar first place := by
    rw [laneTargets, originatorsOf, List.filter_map]
    rfl
  show (source, token) ∈ (List.filter (automaton.holds terminal) _).map _ ↔ _
  rw [sources, List.mem_map]
  constructor
  · rintro ⟨origin, member, same⟩
    cases same
    obtain ⟨isTarget, held⟩ := List.mem_filter.mp member
    exact ⟨isTarget, rfl, TerminalSet.mem_iff_contains.mpr held⟩
  · rintro ⟨isTarget, same, inContext⟩
    dsimp only at same
    subst same
    exact ⟨source, List.mem_filter.mpr
      ⟨isTarget, TerminalSet.mem_iff_contains.mp inContext⟩, rfl⟩

/-- The sources of a conflict are the reductions that compete in it, if
precedence does not settle it. -/
theorem mem_conflictSources {conflict : Conflict} :
    (place, terminal) ∈ automaton.conflictSources grammar conflict ↔
      (∃ other, conflict.other = .reduce other) ∧
        conflict.byPrecedence = false ∧
        conflict.Concerns place.state terminal
          (automaton.configuration place).item.rule ∧
        (automaton.configuration place).item.isFinal grammar = true ∧
        terminal ∈ automaton.context place := by
  rw [conflictSources]
  constructor
  · intro isSource
    split at isSource
    · rename_i other isOther
      split at isSource
      · cases isSource
      · rename_i unsettled
        obtain ⟨source, kept, same⟩ := List.mem_map.mp isSource
        cases same
        obtain ⟨isPlace, test⟩ := List.mem_filter.mp kept
        obtain ⟨index, isFinal, rfl⟩ := List.mem_map.mp isPlace
        rw [Bool.and_eq_true, Bool.or_eq_true, beq_iff_eq, beq_iff_eq] at test
        obtain ⟨rule, inContext⟩ := test
        refine ⟨⟨other, isOther⟩, Bool.eq_false_iff.mpr unsettled,
          ⟨rfl, rfl, rule.imp Eq.symm fun same => ?_⟩,
          (State.mem_finals.mp isFinal).2,
          TerminalSet.mem_iff_contains.mpr inContext⟩
        rw [same]
        exact isOther
    · cases isSource
  · rintro ⟨⟨other, isOther⟩, unsettled, ⟨isState, isLookahead, rule⟩, final,
      inContext⟩
    have isFinal : place.index ∈
        (automaton.state place.state).finals grammar :=
      State.mem_finals.mpr ⟨(holds_of_mem_context inContext).2, final⟩
    rw [isOther]
    simp only [unsettled, Bool.false_eq_true, if_false, isState, isLookahead]
    refine List.mem_map.mpr ⟨place, List.mem_filter.mpr ⟨?_, ?_⟩, rfl⟩
    · exact List.mem_map.mpr ⟨place.index, isFinal, rfl⟩
    · rw [Bool.and_eq_true, Bool.or_eq_true, beq_iff_eq, beq_iff_eq]
      refine ⟨rule.imp Eq.symm fun same => ?_,
        TerminalSet.mem_iff_contains.mp inContext⟩
      cases isOther.symm.trans same
      rfl

theorem context_of_reachedFrom {member : Place × Nat}
    (reached : ReachedFrom (automaton.laneStep grammar first)
      (log.conflicts.toList.flatMap (automaton.conflictSources grammar))
      member) : member.2 ∈ automaton.context member.1 := by
  obtain ⟨root, isRoot, lane⟩ := reached
  cases lane with
  | refl =>
      obtain ⟨conflict, -, isSource⟩ := List.mem_flatMap.mp isRoot
      exact (mem_conflictSources.mp isSource).2.2.2.2
  | tail _ step => exact (mem_laneStep.mp step).2.2

/-- The places and terminals on conflict lanes are those that lanes lead back to
from the sources of conflicts. -/
theorem mem_laneMembers (terminated : automaton.Terminated grammar)
    {member : Place × Nat} :
    member ∈ automaton.laneMembers grammar first log ↔
      ReachedFrom (automaton.laneStep grammar first)
        (log.conflicts.toList.flatMap (automaton.conflictSources grammar))
        member := by
  rw [laneMembers, Array.mem_toList_iff]
  apply @mem_discover _ _ _ _ _ _
    (automaton.places ×ˢ List.range grammar.terminals.size)
  · intro node reached
    have inContext := context_of_reachedFrom reached
    have holds := holds_of_mem_context inContext
    rw [List.mem_product, List.mem_range]
    exact ⟨holds.mem_places, terminated node.1.state holds.1 _ _
      (hasContext_of_mem_context inContext)⟩
  · rw [List.length_product, length_places, List.length_range]
    exact Nat.lt_two_pow_self

theorem context_of_laneMembers (terminated : automaton.Terminated grammar)
    {member : Place × Nat}
    (isMember : member ∈ automaton.laneMembers grammar first log) :
    member.2 ∈ automaton.context member.1 :=
  context_of_reachedFrom ((mem_laneMembers terminated).mp isMember)

theorem states_addToRegion (region : Region) (member : Place × Nat) :
    (automaton.addToRegion grammar first region member).states =
      Ordered.insert region.states member.1.state :=
  Ordered.keys_update

theorem contains_iff {region : Region} {number : Nat} :
    region.contains number = true ↔ number ∈ region.states :=
  List.contains_iff_mem

theorem foldl_iff_of_adds {State Member : Type} {step : State → Member → State}
    {holds : State → Prop} {adds : Member → Prop}
    (each : ∀ state member,
      holds (step state member) ↔ holds state ∨ adds member)
    (members : List Member) (state : State) :
    holds (members.foldl step state) ↔
      holds state ∨ ∃ member ∈ members, adds member := by
  induction members generalizing state with
  | nil => simp
  | cons member rest ih =>
      rw [List.foldl_cons, ih, each, List.exists_mem_cons_iff, or_assoc]

theorem contains_mark {number : Nat} :
    (automaton.markConflictLanes grammar first log).2.contains number =
        true ↔
      ∃ member ∈ automaton.laneMembers grammar first log,
        member.1.state = number := by
  have collected := @foldl_iff_of_adds _ _
    (automaton.addToRegion grammar first)
    (fun region => number ∈ region.states)
    (fun member => member.1.state = number)
    (fun region member => by
      rw [states_addToRegion, Ordered.mem_insert, eq_comm])
    (automaton.laneMembers grammar first log) .empty
  rw [contains_iff]
  exact collected.trans (or_iff_right List.not_mem_nil)

/-- The item of the state is on a conflict lane of the terminal. -/
def OnLane (grammar : Grammar) (first : FirstSets) (automaton : Automaton)
    (log : ConflictLog) (number : Nat) (item : Item) (terminal : Nat) : Prop :=
  ∃ index, (automaton.configuration { state := number, index }).item = item ∧
    ({ state := number, index }, terminal) ∈
      automaton.laneMembers grammar first log

theorem TracedFrom.laneTargets_eq
    (traced : TracedFrom grammar first base automaton) (place : Place) :
    automaton.laneTargets grammar first place =
      base.laneTargets grammar first place := by
  have relabels := traced.retraced.relabels
  simp only [laneTargets, (relabels _).item, (relabels _).originators,
    (relabels _).transitors]

section Rivals

variable (wellFormed : grammar.WellFormed) (unused : grammar.GoalUnused)
  (exact : first.Exact grammar)
  (traced : TracedFrom grammar first base automaton)
  (tame : ∀ word number, automaton.Leads word number →
    (automaton.state number).Tame grammar false)
  (tells : Table.Tells grammar false automaton automaton.size log)

include wellFormed unused exact traced in
theorem TracedFrom.mem_laneMembers_of_target
    (isMember : (place, terminal) ∈ automaton.laneMembers grammar first log)
    (isTarget : source ∈ base.laneTargets grammar first place)
    (inContext : terminal ∈ automaton.context source) :
    (source, terminal) ∈ automaton.laneMembers grammar first log := by
  have terminated := traced.terminated wellFormed unused exact
  rw [← traced.laneTargets_eq] at isTarget
  exact (mem_laneMembers terminated).mpr
    (((mem_laneMembers terminated).mp isMember).step
      (mem_laneStep.mpr ⟨isTarget, rfl, inContext⟩))

include wellFormed unused exact traced tame tells in
theorem TracedFrom.onLane_of_final {word : List Symbol} {number : Nat}
    {here there : Item} (leads : automaton.Leads word number)
    (hasHere : (automaton.state number).HasContext here terminal)
    (hasThere : (automaton.state number).HasContext there terminal)
    (final : here.isFinal grammar = true)
    (otherFinal : there.isFinal grammar = true)
    (different : here.rule ≠ there.rule) :
    automaton.OnLane grammar first log number here terminal := by
  have framed := traced.framed
  have inside := framed.lt_size leads
  have attested :=
    (traced.evident wellFormed unused exact number inside).attested
  -- Neither rule is that of the goal, for acceptance competes with nothing.
  have notGoal {one other : Item} {terminal : Nat}
      (has : (automaton.state number).HasContext one terminal)
      (otherHas : (automaton.state number).HasContext other terminal)
      (final : one.isFinal grammar = true)
      (otherFinal : other.isFinal grammar = true)
      (different : one.rule ≠ other.rule) : one.rule ≠ goalRule := by
    intro isGoal
    obtain ⟨path, -, admits⟩ := attested.context one terminal has
    have atEnd := admits.eq_endOfInput wellFormed unused isGoal
    subst atEnd
    exact (tame word number leads).acceptReduce other.rule
      ⟨one, has, final, isGoal⟩ ⟨other, otherHas, otherFinal, rfl,
        fun otherGoal => different (isGoal.trans otherGoal.symm)⟩
  obtain ⟨conflict, logged, concerns⟩ := tells.logged word number inside leads
    here.rule there.rule terminal
    ⟨here, hasHere, final, rfl,
      notGoal hasHere hasThere final otherFinal different⟩
    ⟨there, hasThere, otherFinal, rfl,
      notGoal hasThere hasHere otherFinal final different.symm⟩ different
  have competes := (tells.competes conflict logged).2
  rw [concerns.state] at competes
  obtain ⟨index, _, rfl, inContext⟩ := hasHere
  have isSource : (({ state := number, index } : Place), terminal) ∈
      automaton.conflictSources grammar conflict := by
    obtain ⟨other, isOther, -⟩ := competes.exists_other
    exact mem_conflictSources.mpr
      ⟨⟨other, isOther⟩, competes.unsettled, concerns, final, inContext⟩
  refine ⟨index, rfl,
    (mem_laneMembers (traced.terminated wellFormed unused exact)).mpr ?_⟩
  exact ⟨_, List.mem_flatMap.mpr ⟨conflict, Array.mem_toList_iff.mpr logged,
    isSource⟩, .refl⟩

theorem TracedFrom.holds_of_mem_context
    (traced : TracedFrom grammar first base automaton)
    (inContext : terminal ∈ automaton.context place) : base.Holds place := by
  have holds := Automaton.holds_of_mem_context inContext
  rwa [Holds, traced.retraced.size, traced.retraced.sizes] at holds

theorem TracedFrom.becomes (traced : TracedFrom grammar first base automaton)
    {source target : Place} {symbol : Symbol}
    (edge : (automaton.state source.state).successor? symbol =
      some target.state)
    (scans : (automaton.configuration source).item.scanned grammar =
      some symbol)
    (isAdvance : (automaton.configuration target).item =
      (automaton.configuration source).item.advance)
    (inContext : terminal ∈ automaton.context source) :
    base.Becomes grammar source target := by
  have relabels := traced.retraced.relabels
  rw [traced.retraced.sameFrame.successor?_eq] at edge
  rw [(relabels _).item] at scans isAdvance
  rw [(relabels _).item] at isAdvance
  exact ⟨traced.holds_of_mem_context inContext, symbol, edge, scans, isAdvance⟩

include wellFormed unused exact traced in
/-- From an advanced item a lane leads back over the transition. -/
theorem TracedFrom.onLane_of_advance {number target : Nat} {item : Item}
    {symbol : Symbol}
    (edge : (automaton.state number).successor? symbol = some target)
    (scans : item.scanned grammar = some symbol)
    (has : (automaton.state number).HasContext item terminal)
    (onLane : automaton.OnLane grammar first log target item.advance
      terminal) :
    automaton.OnLane grammar first log number item terminal := by
  have laned := traced.lookaheadless.laned wellFormed unused
  obtain ⟨index, isAdvance, isMember⟩ := onLane
  obtain ⟨origin, _, rfl, inContext⟩ := has
  have held := context_of_laneMembers
    (traced.terminated wellFormed unused exact) isMember
  have becomes : base.Becomes grammar { state := number, index := origin }
      { state := target, index } :=
    traced.becomes edge scans isAdvance inContext
  exact ⟨origin, rfl, traced.mem_laneMembers_of_target wellFormed unused exact
    isMember (laned.mem_laneTargets_of_becomes
      (traced.holds_of_mem_context held) becomes) inContext⟩

include wellFormed unused exact traced in
/-- From a rule a lane leads back to the item that hands its lookaheads on. -/
theorem TracedFrom.onLane_of_hands {number : Nat} {item inner : Item}
    (hands : grammar.Hands item inner)
    (has : (automaton.state number).HasContext item terminal)
    (onLane : automaton.OnLane grammar first log number inner terminal) :
    automaton.OnLane grammar first log number item terminal := by
  have laned := traced.lookaheadless.laned wellFormed unused
  have relabels := traced.retraced.relabels
  obtain ⟨index, isInner, isMember⟩ := onLane
  obtain ⟨origin, _, isItem, inContext⟩ := has
  have held := context_of_laneMembers
    (traced.terminated wellFormed unused exact) isMember
  refine ⟨origin, isItem, traced.mem_laneMembers_of_target wellFormed unused
    exact isMember ?_ inContext⟩
  apply laned.mem_laneTargets_of_hands wellFormed unused exact
  · exact traced.holds_of_mem_context held
  · exact traced.holds_of_mem_context inContext
  · rw [← (relabels _).item, ← (relabels _).item]
    exact isInner ▸ isItem ▸ hands

include wellFormed unused exact traced tame tells in
/-- Rivals that share a lookahead are on lanes of conflicts. -/
theorem TracedFrom.onLane_of_rivals
    (unrolled : base.All (State.Unrolled grammar)) {here there : Item}
    (rivals : grammar.Rivals here there) {word : List Symbol} {number : Nat}
    (leads : automaton.Leads word number)
    (hasHere : (automaton.state number).HasContext here terminal)
    (hasThere : (automaton.state number).HasContext there terminal) :
    automaton.OnLane grammar first log number here terminal ∧
      automaton.OnLane grammar first log number there terminal := by
  have faithful := traced.faithful wellFormed unused exact unrolled
  induction rivals generalizing word number with
  | finals final otherFinal different =>
      exact ⟨traced.onLane_of_final wellFormed unused exact tame tells leads
          hasHere hasThere final otherFinal different,
        traced.onLane_of_final wellFormed unused exact tame tells leads
          hasThere hasHere otherFinal final different.symm⟩
  | scanned scans otherScans _ ih =>
      obtain ⟨target, edge, -, passes⟩ :=
        faithful.advance leads hasHere.mem_items scans
      obtain ⟨left, right⟩ := ih (leads.step edge) (passes terminal hasHere)
        (faithful.saturated.feeds word number leads _ target edge _ terminal
          hasThere otherScans)
      exact ⟨traced.onLane_of_advance wellFormed unused exact edge scans
          hasHere left,
        traced.onLane_of_advance wellFormed unused exact edge otherScans
          hasThere right⟩
  | left hands _ ih =>
      have closed := faithful.saturated.closed word number leads
      obtain ⟨left, right⟩ := ih leads
        (closed.hasContext_of_hands wellFormed exact hands hasHere) hasThere
      exact ⟨traced.onLane_of_hands wellFormed unused exact hands hasHere left,
        right⟩
  | right hands _ ih =>
      have closed := faithful.saturated.closed word number leads
      obtain ⟨left, right⟩ := ih leads hasHere
        (closed.hasContext_of_hands wellFormed exact hands hasThere)
      exact ⟨left,
        traced.onLane_of_hands wellFormed unused exact hands hasThere right⟩

end Rivals

end Automaton

end LRTables
