import LRTables.Proofs.Intact

/-!
# Copies of states

A copy has the items of its prototype and leads where the copied state leads.
While a region is split, each family holds copies of one state, and whatever is
done to the copies leaves the automaton intact.
-/

namespace LRTables

namespace Automaton

variable {grammar : Grammar} {first : FirstSets}
  {automaton old new base : Automaton}

/-- Transitions are only added or redirected. -/
structure Linked (old new : Automaton) : Prop where
  size : new.size = old.size
  alike : ∀ number, (old.state number).Alike (new.state number)
  cloneOf : ∀ number, (new.state number).cloneOf = (old.state number).cloneOf
  keeps : ∀ number symbol target,
    (old.state number).successor? symbol = some target →
      ∃ other, (new.state number).successor? symbol = some other

namespace Linked

theorem refl (automaton : Automaton) : automaton.Linked automaton := by
  constructor
  · rfl
  · exact fun _ => .refl _
  · exact fun _ => rfl
  · exact fun _ _ target edge => ⟨target, edge⟩

theorem trans {later : Automaton} (before : old.Linked new)
    (after : new.Linked later) : old.Linked later := by
  constructor
  · exact after.size.trans before.size
  · exact fun number => (before.alike number).trans (after.alike number)
  · exact fun number => (after.cloneOf number).trans (before.cloneOf number)
  · intro number symbol target edge
    obtain ⟨other, linked⟩ := before.keeps number symbol target edge
    exact after.keeps number symbol other linked

theorem enlarges (linked : old.Linked new) : old.Enlarges new :=
  enlarges_of_alike linked.size linked.alike linked.cloneOf

end Linked

theorem linked_link {source : Nat} (inside : source < automaton.size)
    (symbol : Symbol) (target : Nat) :
    automaton.Linked (automaton.link source symbol target) := by
  constructor
  · exact size_link source symbol target
  · exact alike_link source symbol target
  · exact cloneOf_link
  · intro number scanned next edge
    rw [successor?_link inside]
    split
    · exact ⟨target, rfl⟩
    · exact ⟨next, edge⟩

theorem Framed.link (framed : automaton.Framed grammar)
    {source target : Nat} {symbol : Symbol}
    (fits : automaton.Fits grammar source symbol target) :
    (automaton.link source symbol target).Framed grammar := by
  obtain ⟨sourceInside, targetInside, scans, core⟩ := fits
  apply framed.of_alike
  · exact size_link source symbol target
  · exact alike_link source symbol target
  · exact framed.keyed.link sourceInside symbol target
  · intro number scanned next edge
    rw [successor?_link sourceInside] at edge
    split at edge
    · rename_i both
      obtain ⟨rfl, rfl⟩ := both
      cases edge
      exact ⟨targetInside, scans, core⟩
    · exact ⟨framed.bounded _ _ _ edge, framed.scanned _ _ _ edge,
        framed.edges _ _ _ edge⟩

/-- Add transitions from one state. -/
def linkAll (automaton : Automaton) (source : Nat)
    (edges : List (Symbol × Nat)) : Automaton :=
  edges.foldl (fun grown edge => grown.link source edge.1 edge.2) automaton

theorem linked_linkAll {source : Nat} (inside : source < automaton.size)
    (edges : List (Symbol × Nat)) :
    automaton.Linked (automaton.linkAll source edges) := by
  induction edges generalizing automaton with
  | nil => exact .refl _
  | cons edge rest ih =>
      have linked := linked_link inside edge.1 edge.2
      exact linked.trans (ih (linked.size.symm ▸ inside))

theorem Framed.linkAll (framed : automaton.Framed grammar) {source : Nat}
    {edges : List (Symbol × Nat)}
    (fits : ∀ edge ∈ edges, automaton.Fits grammar source edge.1 edge.2) :
    (automaton.linkAll source edges).Framed grammar := by
  induction edges generalizing automaton with
  | nil => exact framed
  | cons edge rest ih =>
      have own := fits edge List.mem_cons_self
      have enlarges := (linked_link own.source_lt edge.1 edge.2).enlarges
      apply ih (framed.link own)
      intro other member
      exact (fits other (List.mem_cons_of_mem _ member)).enlarge enlarges

theorem successor?_linkAll {source : Nat} (inside : source < automaton.size)
    {edges : List (Symbol × Nat)} {edge : Symbol × Nat}
    (member : edge ∈ edges) :
    ∃ target, ((automaton.linkAll source edges).state source).successor?
      edge.1 = some target := by
  induction edges generalizing automaton with
  | nil => cases member
  | cons head rest ih =>
      have linked := linked_link inside head.1 head.2
      have stillInside := linked.size.symm ▸ inside
      rcases List.mem_cons.mp member with rfl | later
      · apply (linked_linkAll stillInside rest).keeps source edge.1 edge.2
        rw [successor?_link inside, if_pos ⟨rfl, rfl⟩]
      · exact ih stillInside later

/-- The state that is appended for a copy, before its transitions are
added. -/
def bareCopy (automaton : Automaton) (number : Nat) : State :=
  { (automaton.state number).mapConfigurations fun configuration =>
      { configuration with
        transitors := []
        marks := .none } with
    successors := []
    parents := []
    cloneOf := some (automaton.prototype number) }

theorem clone_eq (automaton : Automaton) (number : Nat) :
    automaton.clone number =
      (automaton.add (automaton.bareCopy number)).linkAll automaton.size
        (automaton.state number).successors :=
  rfl

theorem alike_bareCopy (number : Nat) :
    (automaton.state number).Alike (automaton.bareCopy number) := by
  refine (alike_mapConfigurations _ ?_ ?_ ?_).trans
    (alike_of_configurations rfl rfl rfl)
  · intro configuration
    rfl
  · intro configuration
    rfl
  · intro configuration
    rfl

theorem enlarges_add (added : State) :
    automaton.Enlarges (automaton.add added) := by
  constructor
  · rw [size_add]
    exact Nat.le_succ _
  · intro number inside
    rw [state_add_of_lt inside]
    exact .refl _
  · intro number inside
    rw [prototype, prototype, state_add_of_lt inside]

theorem Fits.of_sameItems {source target other : Nat} {symbol : Symbol}
    (fits : automaton.Fits grammar source symbol target)
    (inside : other < automaton.size)
    (same : (automaton.state source).SameItems (automaton.state other)) :
    automaton.Fits grammar other symbol target := by
  obtain ⟨-, targetInside, scans, core⟩ := fits
  refine ⟨inside, targetInside, ?_, ?_⟩
  · rw [same.mem_scannedSymbols]
    exact scans
  · rw [same.successorItems]
    exact core

/-- A state without transitions is appended. -/
theorem Sealed.add (sealed : automaton.Sealed grammar first) {added : State}
    (framed : (automaton.add added).Framed grammar)
    (terminated : added.Terminated grammar)
    (closed : added.Closed grammar first true) :
    (automaton.add added).Sealed grammar first := by
  have value {number : Nat} (inside : number < (automaton.add added).size) :
      (number < automaton.size ∧
          (automaton.add added).state number = automaton.state number) ∨
        (automaton.add added).state number = added := by
    rcases lt_or_eq_of_lt_size_add inside with old | rfl
    · exact Or.inl ⟨old, state_add_of_lt old⟩
    · exact Or.inr (state_add_size added)
  constructor
  · exact framed
  · intro number inside
    rcases value inside with ⟨old, same⟩ | same
    · rw [same]
      exact sealed.terminated number old
    · rw [same]
      exact terminated
  · intro number inside
    rcases value inside with ⟨old, same⟩ | same
    · rw [same]
      exact sealed.closed number old
    · rw [same]
      exact closed
  · rw [state_add_of_lt sealed.framed.positive]
    exact sealed.goal

/-- What a clone adds to an automaton. -/
structure Cloned (grammar : Grammar) (first : FirstSets)
    (old new : Automaton) (number : Nat) : Prop where
  intact : new.Intact grammar first
  enlarges : old.Enlarges new
  size : new.size = old.size + 1
  prototype : new.prototype old.size = old.prototype number

theorem Intact.sealed_bareCopy (intact : automaton.Intact grammar first)
    {number : Nat} (inside : number < automaton.size) :
    (automaton.add (automaton.bareCopy number)).Sealed grammar first := by
  have alike := automaton.alike_bareCopy number
  apply intact.toSealed.add
  · exact intact.framed.add
      (alike.regular (intact.framed.regular number inside))
      (alike.sameItems.itemsClosed (intact.framed.closed number inside)) rfl
  · intro item terminal has
    rw [alike.hasContext_iff] at has
    exact intact.terminated number inside item terminal has
  · exact alike.closed (intact.closed number inside)

theorem Intact.fits_bareCopy (intact : automaton.Intact grammar first)
    {number : Nat} (inside : number < automaton.size) :
    ∀ edge ∈ (automaton.state number).successors,
      (automaton.add (automaton.bareCopy number)).Fits grammar
        automaton.size edge.1 edge.2 := by
  intro edge member
  have found := intact.framed.keyed.mem_successors.mp member
  have fits := (intact.framed.fits found).enlarge
    (automaton.enlarges_add (automaton.bareCopy number))
  apply fits.of_sameItems
  · rw [size_add]
    exact Nat.lt_succ_self _
  · rw [state_add_of_lt inside, state_add_size]
    exact (automaton.alike_bareCopy number).sameItems

/-- An automaton stays intact when a copy of a state is appended that leads
where the state itself leads. -/
theorem Intact.appendCopy (intact : old.Intact grammar first)
    (sealed : new.Sealed grammar first) (enlarges : old.Enlarges new)
    (size : new.size = old.size + 1) {number : Nat}
    (inside : number < old.size)
    (copied : new.prototype old.size = old.prototype number)
    (items : (old.state number).SameItems (new.state old.size))
    (keeps : ∀ other < old.size, ∀ symbol target,
      (old.state other).successor? symbol = some target →
        ∃ next, (new.state other).successor? symbol = some next)
    (leads : ∀ symbol target,
      (old.state number).successor? symbol = some target →
        ∃ next, (new.state old.size).successor? symbol = some next) :
    new.Intact grammar first := by
  have split {other : Nat} (member : other < new.size) :
      other < old.size ∨ other = old.size := by
    rw [size] at member
    exact Nat.lt_succ_iff_lt_or_eq.mp member
  have source := intact.prototype_lt number inside
  constructor
  · exact sealed
  · intro other member symbol scans
    rcases split member with before | rfl
    · rw [(enlarges.sameItems other before).mem_scannedSymbols] at scans
      obtain ⟨target, edge⟩ := intact.whole other before symbol scans
      exact keeps other before symbol target edge
    · rw [items.mem_scannedSymbols] at scans
      obtain ⟨target, edge⟩ := intact.whole number inside symbol scans
      exact leads symbol target edge
  · intro other member
    rcases split member with before | rfl
    · rw [enlarges.prototype other before]
      exact Nat.lt_of_lt_of_le (intact.prototype_lt other before)
        enlarges.size_le
    · rw [copied]
      exact Nat.lt_of_lt_of_le source enlarges.size_le
  · intro other member
    rcases split member with before | rfl
    · rw [enlarges.prototype other before]
      have original := intact.prototype_lt other before
      exact ((enlarges.sameItems _ original).symm.trans
        (intact.prototype_items other before)).trans
          (enlarges.sameItems other before)
    · rw [copied]
      exact ((enlarges.sameItems _ source).symm.trans
        (intact.prototype_items number inside)).trans items
  · intro other member
    rcases split member with before | rfl
    · have original := intact.prototype_lt other before
      rw [enlarges.prototype other before, enlarges.prototype _ original]
      exact intact.prototype_idem other before
    · rw [copied, enlarges.prototype _ source]
      exact intact.prototype_idem number inside

theorem Intact.clone (intact : automaton.Intact grammar first) {number : Nat}
    (inside : number < automaton.size) :
    Cloned grammar first automaton (automaton.clone number) number := by
  rw [clone_eq]
  have alike := automaton.alike_bareCopy number
  have barely := intact.sealed_bareCopy inside
  have fits := intact.fits_bareCopy inside
  have enlarged := automaton.enlarges_add (automaton.bareCopy number)
  have size := automaton.size_add (automaton.bareCopy number)
  have copyState := automaton.state_add_size (automaton.bareCopy number)
  have copyPrototype : (automaton.add (automaton.bareCopy number)).prototype
      automaton.size = automaton.prototype number := by
    rw [prototype, copyState]
    rfl
  have olds {other : Nat} (old : other < automaton.size) :
      (automaton.add (automaton.bareCopy number)).state other =
        automaton.state other := state_add_of_lt old
  generalize automaton.add (automaton.bareCopy number) = grown at *
  have fresh : automaton.size < grown.size := size ▸ Nat.lt_succ_self _
  have linked := linked_linkAll fresh (automaton.state number).successors
  have framed := barely.framed.linkAll fits
  have linkedCopy {symbol : Symbol} {target : Nat}
      (edge : (automaton.state number).successor? symbol = some target) :=
    successor?_linkAll fresh (intact.framed.keyed.mem_successors.mpr edge)
  generalize grown.linkAll automaton.size (automaton.state number).successors =
    result at *
  have enlarges := enlarged.trans linked.enlarges
  have copied : result.prototype automaton.size =
      automaton.prototype number := by
    rw [linked.enlarges.prototype _ fresh, copyPrototype]
  have total : result.size = automaton.size + 1 := linked.size.trans size
  have items := (linked.alike automaton.size).sameItems
  rw [copyState] at items
  refine ⟨?_, enlarges, total, copied⟩
  apply intact.appendCopy (barely.of_alike framed linked.size linked.alike)
    enlarges total inside copied (alike.sameItems.trans items)
  · intro other before symbol target edge
    apply linked.keeps other symbol target
    rw [olds before]
    exact edge
  · exact fun symbol target => linkedCopy

end Automaton

end LRTables
