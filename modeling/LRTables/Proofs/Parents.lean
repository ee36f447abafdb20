import LRTables.Proofs.Frames

/-!
# Parents

Every state knows the sources of the transitions that lead to it.  A state
without parents is therefore led to from nowhere.
-/

namespace LRTables

namespace Automaton

variable {grammar : Grammar} {automaton : Automaton}
  {source target other : Nat} {symbol : Symbol}

/-- All transitions into a state come from one of the parents that it knows. -/
structure Parented (automaton : Automaton) : Prop where
  lt_size : ∀ number, ∀ parent ∈ (automaton.state number).parents,
    parent < automaton.size
  knows : ∀ source symbol target,
    (automaton.state source).successor? symbol = some target →
      source ∈ (automaton.state target).parents

theorem Framed.symbol_unique (framed : automaton.Framed grammar)
    {scanned : Symbol}
    (edge : (automaton.state source).successor? symbol = some target)
    (another : (automaton.state source).successor? scanned = some target) :
    symbol = scanned :=
  State.eq_of_successorItems_eq (framed.scanned _ _ _ another)
    ((framed.edges _ _ _ edge).symm.trans (framed.edges _ _ _ another))

theorem parents_link (inside : target < automaton.size) :
    ((automaton.link source symbol target).state other).parents =
      if other = target then
        Ordered.insert (automaton.state target).parents source
      else (automaton.state other).parents := by
  have first (number : Nat) :
      ((automaton.modify source fun state =>
        { state with
          successors := Ordered.put state.successors symbol target }).state
          number).parents =
        (automaton.state number).parents :=
    state_modify_keeps State.parents fun _ => rfl
  by_cases same : other = target
  · subst same
    rw [if_pos rfl, link, state_modify_self (by rwa [size_modify])]
    exact congrArg (fun parents => Ordered.insert parents source) (first other)
  · rw [if_neg same, link, state_modify_ne same]
    exact first other

theorem mem_parents_link {parent : Nat} (inside : target < automaton.size) :
    parent ∈ ((automaton.link source symbol target).state other).parents ↔
      parent ∈ (automaton.state other).parents ∨
        other = target ∧ parent = source := by
  rw [parents_link inside]
  split
  · rename_i same
    subst same
    simp [Ordered.mem_insert]
  · rename_i different
    simp [different]

theorem mem_parents_dropParent {old parent : Nat} :
    parent ∈ ((automaton.modify old fun state => state.dropParent source).state
        other).parents ↔
      parent ∈ (automaton.state other).parents ∧
        ¬ (other = old ∧ parent = source) := by
  by_cases same : other = old
  · subst same
    by_cases inside : other < automaton.size
    · rw [state_modify_self inside]
      simp [State.dropParent, State.mapConfigurations]
    · have outside := Nat.le_of_not_lt inside
      rw [state_of_size_le outside, state_of_size_le (by rwa [size_modify])]
      constructor
      · intro member
        cases member
      · intro holds
        cases holds.1
  · rw [state_modify_ne same]
    simp [same]

theorem parents_relink (inside : target < automaton.size)
    (different : other ≠ target)
    (orphan : (automaton.state other).parents = []) :
    ((automaton.relink source symbol target).state other).parents = [] := by
  rcases automaton.relink_cases source symbol target with
    ⟨-, equal⟩ | ⟨-, equal⟩ | ⟨old, -, equal⟩
  · rw [equal, orphan]
  · rw [equal, parents_link inside, if_neg different, orphan]
  · rw [equal, parents_link (by rwa [size_modify]), if_neg different]
    apply List.eq_nil_iff_forall_not_mem.mpr
    intro parent member
    have before := (mem_parents_dropParent.mp member).1
    rw [orphan] at before
    cases before

namespace Parented

/-- A new transition makes its source known to its target. -/
theorem link (parented : ∀ number, ∀ parent ∈
      (automaton.state number).parents, parent < automaton.size)
    (knows : ∀ origin scanned next,
      (automaton.state origin).successor? scanned = some next →
        ¬ (origin = source ∧ scanned = symbol) →
          origin ∈ (automaton.state next).parents)
    (sourceInside : source < automaton.size)
    (targetInside : target < automaton.size) :
    (automaton.link source symbol target).Parented := by
  constructor
  · intro number parent member
    rw [size_link]
    rcases (mem_parents_link targetInside).mp member with old | ⟨-, rfl⟩
    · exact parented number parent old
    · exact sourceInside
  · intro origin scanned next edge
    rw [successor?_link sourceInside] at edge
    rw [mem_parents_link targetInside]
    split at edge
    · rename_i own
      cases edge
      exact Or.inr ⟨rfl, own.1⟩
    · rename_i another
      exact Or.inl (knows origin scanned next edge another)

/-- The old target of a redirected transition forgets its source, for no other
transition leads there from that source. -/
theorem relink (parented : automaton.Parented)
    (framed : automaton.Framed grammar) (sourceInside : source < automaton.size)
    (targetInside : target < automaton.size) :
    (automaton.relink source symbol target).Parented := by
  rcases automaton.relink_cases source symbol target with
    ⟨-, equal⟩ | ⟨-, equal⟩ | ⟨old, found, equal⟩
  · rw [equal]
    exact parented
  · rw [equal]
    exact .link parented.lt_size
      (fun origin scanned next edge _ => parented.knows _ _ _ edge)
      sourceInside targetInside
  · rw [equal]
    apply Parented.link
    · intro number parent member
      rw [size_modify]
      exact parented.lt_size number parent
        (mem_parents_dropParent.mp member).1
    · intro origin scanned next edge another
      rw [State.successor?_eq, successors_dropParent,
        ← State.successor?_eq] at edge
      refine mem_parents_dropParent.mpr ⟨parented.knows _ _ _ edge, ?_⟩
      rintro ⟨rfl, rfl⟩
      exact another ⟨rfl, framed.symbol_unique edge found⟩
    · rwa [size_modify]
    · rwa [size_modify]

theorem of_empty : empty.Parented := by
  have blank (number : Nat) : empty.state number = default :=
    state_of_size_le (Nat.zero_le number)
  constructor
  · intro number parent member
    rw [blank] at member
    cases member
  · intro source symbol target edge
    rw [blank] at edge
    cases edge

/-- A state is appended that has no links yet. -/
theorem add (parented : automaton.Parented)
    (bounded : automaton.Bounded) {added : State}
    (successors : added.successors = []) (parents : added.parents = []) :
    (automaton.add added).Parented := by
  constructor
  · intro number parent member
    rw [size_add]
    by_cases inside : number < automaton.size
    · rw [state_add_of_lt inside] at member
      exact Nat.lt_succ_of_lt (parented.lt_size number parent member)
    · rcases Nat.eq_or_lt_of_not_lt inside with rfl | outside
      · rw [state_add_size, parents] at member
        cases member
      · rw [state_of_size_le (by rwa [size_add])] at member
        cases member
  · intro origin scanned next edge
    have inside := lt_size_of_successor edge
    rw [size_add, Nat.lt_succ_iff_lt_or_eq] at inside
    rcases inside with inside | rfl
    · rw [state_add_of_lt inside] at edge
      rw [state_add_of_lt (bounded _ _ _ edge)]
      exact parented.knows _ _ _ edge
    · rw [state_add_size, State.successor?, successors] at edge
      cases edge

theorem detach (parented : automaton.Parented)
    (bounded : automaton.Bounded) :
    automaton.detachUnreachable.Parented := by
  have parents {number : Nat} (inside : number < automaton.size) :
      (automaton.detachUnreachable.state number).parents =
        (automaton.state number).parents.filter fun parent =>
          automaton.reachable.getD parent false := by
    rw [state_detach inside]
  constructor
  · intro number parent member
    rw [size_detach]
    by_cases inside : number < automaton.size
    · rw [parents inside] at member
      exact parented.lt_size number parent (List.mem_filter.mp member).1
    · have outside := Nat.le_of_not_lt inside
      rw [state_of_size_le (by rwa [size_detach])] at member
      cases member
  · intro origin scanned next edge
    rw [successor?_detach] at edge
    split at edge
    · rename_i reached
      rw [parents (bounded _ _ _ edge)]
      exact List.mem_filter.mpr ⟨parented.knows _ _ _ edge, reached⟩
    · cases edge

theorem of_links {old new : Automaton} (parented : old.Parented)
    (size : new.size = old.size)
    (parents : ∀ number,
      (new.state number).parents = (old.state number).parents)
    (successors : ∀ number,
      (new.state number).successors = (old.state number).successors) :
    new.Parented := by
  constructor
  · intro number parent member
    rw [parents] at member
    rw [size]
    exact parented.lt_size number parent member
  · intro origin scanned next edge
    rw [State.successor?_eq, successors, ← State.successor?_eq] at edge
    rw [parents]
    exact parented.knows _ _ _ edge

end Parented

end Automaton

end LRTables
