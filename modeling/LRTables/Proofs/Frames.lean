import LRTables.Proofs.Paths

/-!
# Operations on framed automata

An automaton stays framed when contexts change, when a state without
transitions is added, when a transition is led to a state with the right core,
and when unreachable states are cut off.
-/

namespace LRTables.Automaton

variable {automaton other : Automaton} {grammar : Grammar}

/-- The other automaton has the same items at the same places and the same
transitions. -/
structure SameFrame (automaton other : Automaton) : Prop where
  size : other.size = automaton.size
  sameItems : ∀ number < automaton.size,
    (automaton.state number).SameItems (other.state number)
  successors : ∀ number < automaton.size,
    (other.state number).successors = (automaton.state number).successors

namespace SameFrame

theorem successors_eq (same : automaton.SameFrame other) (number : Nat) :
    (other.state number).successors = (automaton.state number).successors := by
  by_cases inside : number < automaton.size
  · exact same.successors number inside
  · have outside := Nat.le_of_not_lt inside
    rw [state_of_size_le outside, state_of_size_le (same.size ▸ outside)]

theorem successor?_eq (same : automaton.SameFrame other) (number : Nat)
    (symbol : Symbol) :
    (other.state number).successor? symbol =
      (automaton.state number).successor? symbol := by
  rw [State.successor?_eq, State.successor?_eq, same.successors_eq]

theorem leads_iff (same : automaton.SameFrame other) {word : List Symbol}
    {number : Nat} :
    other.Leads word number ↔ automaton.Leads word number := by
  constructor
  · intro leads
    induction leads with
    | start => exact .start
    | step _ edge ih =>
        rw [same.successor?_eq] at edge
        exact .step ih edge
  · intro leads
    induction leads with
    | start => exact .start
    | step _ edge ih =>
        rw [← same.successor?_eq] at edge
        exact .step ih edge

theorem refl (automaton : Automaton) : automaton.SameFrame automaton := by
  constructor
  · rfl
  · intro number _
    exact .refl _
  · intro number _
    rfl

theorem trans {later : Automaton} (first : automaton.SameFrame other)
    (second : other.SameFrame later) : automaton.SameFrame later := by
  constructor
  · rw [second.size, first.size]
  · intro number inside
    exact (first.sameItems number inside).trans
      (second.sameItems number (first.size ▸ inside))
  · intro number inside
    rw [second.successors number (first.size ▸ inside),
      first.successors number inside]

theorem modify {number : Nat} {change : State → State}
    (sameItems : (automaton.state number).SameItems
      (change (automaton.state number)))
    (successors : (change (automaton.state number)).successors =
      (automaton.state number).successors) :
    automaton.SameFrame (automaton.modify number change) := by
  constructor
  · exact size_modify change
  · intro other inside
    by_cases same : other = number
    · subst same
      rw [state_modify_self inside]
      exact sameItems
    · rw [state_modify_ne same]
      exact .refl _
  · intro other inside
    by_cases same : other = number
    · subst same
      rw [state_modify_self inside]
      exact successors
    · rw [state_modify_ne same]

end SameFrame

theorem Total.of_sameFrame (total : automaton.Total grammar)
    (same : automaton.SameFrame other) : other.Total grammar := by
  intro word number leads symbol scans
  rw [same.successor?_eq]
  rw [same.leads_iff] at leads
  by_cases inside : number < automaton.size
  · rw [(same.sameItems number inside).mem_scannedSymbols] at scans
    exact total word number leads symbol scans
  · have outside := Nat.le_of_not_lt inside
    rw [state_of_size_le (same.size ▸ outside)] at scans
    cases scans

namespace Framed

theorem of_sameFrame (framed : automaton.Framed grammar)
    (same : automaton.SameFrame other)
    (originators : ∀ number < automaton.size,
      (other.state number).OriginatorsSound grammar) :
    other.Framed grammar := by
  have inside {number : Nat} (member : number < other.size) :
      number < automaton.size := same.size ▸ member
  constructor
  · exact same.size.symm ▸ framed.positive
  · intro number
    rw [same.successors_eq]
    exact framed.keyed number
  · intro number symbol target edge
    rw [same.successor?_eq] at edge
    rw [same.size]
    exact framed.bounded number symbol target edge
  · rw [(same.sameItems _ framed.positive).coreItems]
    exact framed.start
  · intro number member
    exact (same.sameItems number (inside member)).regular
      (framed.regular number (inside member))
      (originators number (inside member))
  · intro number member
    exact (same.sameItems number (inside member)).itemsClosed
      (framed.closed number (inside member))
  · intro number symbol target edge
    rw [same.successor?_eq] at edge
    rw [(same.sameItems number
      (lt_size_of_successor edge)).mem_scannedSymbols]
    exact framed.scanned number symbol target edge
  · intro number symbol target edge
    rw [same.successor?_eq] at edge
    have source := lt_size_of_successor edge
    have targetInside := framed.bounded number symbol target edge
    rw [(same.sameItems target targetInside).coreItems,
      (same.sameItems number source).successorItems]
    exact framed.edges number symbol target edge

theorem add (framed : automaton.Framed grammar) {added : State}
    (regular : added.Regular grammar) (closed : added.ItemsClosed grammar)
    (successors : added.successors = []) :
    (automaton.add added).Framed grammar := by
  -- All transitions are those of old states.
  have edge {number target : Nat} {symbol : Symbol}
      (found : ((automaton.add added).state number).successor? symbol =
        some target) :
      number < automaton.size ∧
        (automaton.state number).successor? symbol = some target := by
    rw [successor?_add successors] at found
    exact ⟨lt_size_of_successor found, found⟩
  constructor
  · rw [size_add]
    exact Nat.lt_succ_of_lt framed.positive
  · intro number
    rcases Nat.lt_trichotomy number automaton.size with old | rfl | past
    · rw [state_add_of_lt old]
      exact framed.keyed number
    · rw [state_add_size, successors]
      exact List.nodup_nil
    · rw [state_of_size_le (by rwa [size_add])]
      exact List.nodup_nil
  · intro number symbol target found
    rw [size_add]
    exact Nat.lt_succ_of_lt (framed.bounded _ _ _ (edge found).2)
  · rw [state_add_of_lt framed.positive]
    exact framed.start
  · intro number inside
    rcases lt_or_eq_of_lt_size_add inside with old | rfl
    · rw [state_add_of_lt old]
      exact framed.regular number old
    · rw [state_add_size]
      exact regular
  · intro number inside
    rcases lt_or_eq_of_lt_size_add inside with old | rfl
    · rw [state_add_of_lt old]
      exact framed.closed number old
    · rw [state_add_size]
      exact closed
  · intro number symbol target found
    obtain ⟨inside, old⟩ := edge found
    rw [state_add_of_lt inside]
    exact framed.scanned number symbol target old
  · intro number symbol target found
    obtain ⟨inside, old⟩ := edge found
    rw [state_add_of_lt inside,
      state_add_of_lt (framed.bounded _ _ _ old)]
    exact framed.edges number symbol target old

/-- Agreement of all states, apart from links. -/
theorem of_alike (framed : automaton.Framed grammar)
    (size : other.size = automaton.size)
    (alike : ∀ number,
      (automaton.state number).Alike (other.state number))
    (keyed : other.Keyed)
    (edges : ∀ number symbol target,
      (other.state number).successor? symbol = some target →
        target < automaton.size ∧
          symbol ∈ (automaton.state number).scannedSymbols grammar ∧
          (automaton.state target).coreItems =
            (automaton.state number).successorItems grammar symbol) :
    other.Framed grammar := by
  constructor
  · exact size.symm ▸ framed.positive
  · exact keyed
  · intro number symbol target edge
    exact size.symm ▸ (edges number symbol target edge).1
  · rw [(alike _).sameItems.coreItems]
    exact framed.start
  · intro number inside
    exact (alike number).regular (framed.regular number (size ▸ inside))
  · intro number inside
    exact (alike number).sameItems.itemsClosed
      (framed.closed number (size ▸ inside))
  · intro number symbol target edge
    rw [(alike number).sameItems.mem_scannedSymbols]
    exact (edges number symbol target edge).2.1
  · intro number symbol target edge
    rw [(alike target).sameItems.coreItems,
      (alike number).sameItems.successorItems]
    exact (edges number symbol target edge).2.2

theorem relink (framed : automaton.Framed grammar) {source target : Nat}
    {symbol : Symbol} (sourceInside : source < automaton.size)
    (targetInside : target < automaton.size)
    (scans : symbol ∈ (automaton.state source).scannedSymbols grammar)
    (core : (automaton.state target).coreItems =
      (automaton.state source).successorItems grammar symbol) :
    (automaton.relink source symbol target).Framed grammar := by
  apply framed.of_alike
  · exact size_relink source symbol target
  · exact alike_relink source symbol target
  · exact framed.keyed.relink sourceInside symbol target
  · intro number scanned next edge
    rw [successor?_relink sourceInside] at edge
    split at edge
    · rename_i both
      obtain ⟨rfl, rfl⟩ := both
      cases edge
      exact ⟨targetInside, scans, core⟩
    · exact ⟨framed.bounded _ _ _ edge, framed.scanned _ _ _ edge,
        framed.edges _ _ _ edge⟩

end Framed

theorem size_detach : automaton.detachUnreachable.size = automaton.size := by
  simp [detachUnreachable, size]

theorem state_detach {number : Nat} (inside : number < automaton.size) :
    automaton.detachUnreachable.state number =
      { (automaton.state number).mapConfigurations (fun configuration =>
          { configuration with
            transitors := configuration.transitors.filter fun place =>
              automaton.reachable.getD place.state false }) with
        successors := if automaton.reachable.getD number false then
          (automaton.state number).successors else []
        parents := (automaton.state number).parents.filter fun parent =>
          automaton.reachable.getD parent false } := by
  have bound : number < automaton.states.size := inside
  simp only [detachUnreachable, state, Array.getD_eq_getD_getElem?,
    Array.getElem?_mapIdx, Array.getElem?_eq_getElem bound, Option.map_some,
    Option.getD_some]
  rfl

theorem alike_detach (number : Nat) :
    (automaton.state number).Alike
      (automaton.detachUnreachable.state number) := by
  by_cases inside : number < automaton.size
  · rw [state_detach inside]
    refine (alike_mapConfigurations _ ?_ ?_ ?_).trans
      (alike_of_configurations rfl rfl rfl)
    · intro configuration
      rfl
    · intro configuration
      rfl
    · intro configuration
      rfl
  · have outside := Nat.le_of_not_lt inside
    rw [state_of_size_le outside, state_of_size_le (size_detach.symm ▸ outside)]
    exact .refl _

theorem successors_detach (number : Nat) :
    (automaton.detachUnreachable.state number).successors =
      if automaton.reachable.getD number false then
        (automaton.state number).successors else [] := by
  by_cases inside : number < automaton.size
  · rw [state_detach inside]
  · have outside := Nat.le_of_not_lt inside
    rw [state_of_size_le outside, state_of_size_le (size_detach.symm ▸ outside)]
    split <;> rfl

theorem successor?_detach (number : Nat) (symbol : Symbol) :
    (automaton.detachUnreachable.state number).successor? symbol =
      if automaton.reachable.getD number false then
        (automaton.state number).successor? symbol else none := by
  rw [State.successor?, successors_detach]
  split <;> rfl

theorem Framed.leads_detach (framed : automaton.Framed grammar)
    {word : List Symbol} {number : Nat} :
    automaton.detachUnreachable.Leads word number ↔
      automaton.Leads word number := by
  constructor
  · intro leads
    induction leads with
    | start => exact .start
    | step _ edge ih =>
        rw [successor?_detach] at edge
        split at edge
        · exact .step ih edge
        · cases edge
  · intro leads
    induction leads with
    | start => exact .start
    | @step word source _ _ before edge ih =>
        refine .step ih ?_
        rw [successor?_detach, if_pos (framed.reachable_iff.mpr
          ⟨word, before⟩)]
        exact edge

theorem Framed.detach (framed : automaton.Framed grammar) :
    automaton.detachUnreachable.Framed grammar := by
  apply framed.of_alike
  · exact size_detach
  · exact alike_detach
  · intro number
    rw [successors_detach]
    split
    · exact framed.keyed number
    · exact List.nodup_nil
  · intro number symbol target edge
    rw [successor?_detach] at edge
    split at edge
    · exact ⟨framed.bounded _ _ _ edge, framed.scanned _ _ _ edge,
        framed.edges _ _ _ edge⟩
    · cases edge

theorem Framed.successor?_detach_of_leads (framed : automaton.Framed grammar)
    {word : List Symbol} {number : Nat}
    (leads : automaton.Leads word number) (symbol : Symbol) :
    (automaton.detachUnreachable.state number).successor? symbol =
      (automaton.state number).successor? symbol := by
  rw [successor?_detach, if_pos (framed.reachable_iff.mpr ⟨word, leads⟩)]

theorem Total.detach (framed : automaton.Framed grammar)
    (total : automaton.Total grammar) :
    automaton.detachUnreachable.Total grammar := by
  intro word number leads symbol scans
  rw [framed.leads_detach] at leads
  rw [(alike_detach number).sameItems.mem_scannedSymbols] at scans
  rw [framed.successor?_detach_of_leads leads]
  exact total word number leads symbol scans

end LRTables.Automaton
