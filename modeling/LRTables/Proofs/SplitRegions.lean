import LRTables.Proofs.Nestings
import LRTables.Proofs.SplitStarts
import LRTables.Proofs.SplitSteps

/-!
# What a splitting leaves alone

Only states of the region and their copies change in the course of a splitting.
All other states keep their lookaheads, and the same words lead to them as
before.
-/

namespace LRTables

open Automaton

theorem Automaton.SameLinks.prototype {old new : Automaton}
    (same : old.SameLinks new) (number : Nat) :
    new.prototype number = old.prototype number := by
  rw [Automaton.prototype, Automaton.prototype, (same.state number).frame]

theorem Automaton.SameLinks.enlarges {old new : Automaton}
    (same : old.SameLinks new) : old.Enlarges new := by
  constructor
  · exact Nat.le_of_eq same.size.symm
  · exact fun number _ => (same.state number).sameItems
  · exact fun number _ => same.prototype number

theorem Families.mem_members {families : Families} {prototype copy : Nat}
    (member : copy ∈ families.copiesOf prototype) :
    copy ∈ families.members := by
  rw [copiesOf, Ordered.find?] at member
  cases found : families.find? fun entry => entry.1 == prototype with
  | none =>
      rw [found] at member
      cases member
  | some entry =>
      rw [found] at member
      exact List.mem_flatMap.mpr
        ⟨entry, List.mem_of_find?_eq_some found, member⟩

namespace Splitting

variable {grammar : Grammar} {first : FirstSets} {region : Region}
  {automaton : Automaton} {old new splitting : Splitting}

/-- Every state is a state of the automaton or a copy of one.  Those of the
region are in the families, and the others have the lookaheads that they had. -/
structure Localized (region : Region) (automaton : Automaton)
    (splitting : Splitting) : Prop where
  enlarges : automaton.Enlarges splitting.automaton
  original : ∀ number < splitting.automaton.size,
    splitting.automaton.prototype number < automaton.size
  outside : ∀ number < splitting.automaton.size,
    ¬ Regional region splitting.automaton number →
      number < automaton.size ∧
        (automaton.state number).Alike (splitting.automaton.state number)
  enlisted : ∀ number < splitting.automaton.size,
    Regional region splitting.automaton number →
      number ∈ splitting.families.copiesOf
        (splitting.automaton.prototype number)

theorem localized_begin
    (originals : ∀ number, automaton.prototype number = number) :
    Localized region automaton (begin automaton region) := by
  constructor
  · exact .refl _
  · intro number inside
    exact (originals number).symm ▸ inside
  · intro number inside _
    exact ⟨inside, .refl _⟩
  · intro number inside regional
    exact Families.mem_copiesOf_ofRegion inside regional

/-- The same states are there, and outside the region they are as before. -/
theorem Localized.change {changed : Automaton}
    (localized : Localized region automaton splitting)
    (enlarges : splitting.automaton.Enlarges changed)
    (size : changed.size = splitting.automaton.size)
    (alike : ∀ number < splitting.automaton.size,
      ¬ Regional region splitting.automaton number →
        (splitting.automaton.state number).Alike (changed.state number)) :
    Localized region automaton { splitting with automaton := changed } := by
  have prototypes {number : Nat} (inside : number < changed.size) :
      changed.prototype number = splitting.automaton.prototype number :=
    enlarges.prototype number (size ▸ inside)
  constructor
  · exact localized.enlarges.trans enlarges
  · intro number inside
    dsimp only at inside ⊢
    rw [prototypes inside]
    exact localized.original number (size ▸ inside)
  · intro number inside apart
    dsimp only at inside apart ⊢
    rw [Regional, prototypes inside] at apart
    obtain ⟨within, same⟩ :=
      localized.outside number (size ▸ inside) apart
    exact ⟨within, same.trans (alike number (size ▸ inside) apart)⟩
  · intro number inside regional
    dsimp only at inside regional ⊢
    rw [Regional, prototypes inside] at regional
    rw [prototypes inside]
    exact localized.enlisted number (size ▸ inside) regional

theorem Localized.clone (localized : Localized region automaton splitting)
    (intact : splitting.automaton.Intact grammar first) {prototype : Nat}
    (inside : prototype < splitting.automaton.size)
    (isOriginal : splitting.automaton.prototype prototype = prototype)
    (contained : region.contains prototype = true) :
    Localized region automaton
      { splitting with
        automaton := splitting.automaton.clone prototype
        families :=
          splitting.families.add prototype splitting.automaton.size } := by
  have cloned := intact.clone inside
  have copy : (splitting.automaton.clone prototype).prototype
      splitting.automaton.size = prototype :=
    cloned.prototype.trans isOriginal
  have cases_of_lt {number : Nat}
      (bound : number < (splitting.automaton.clone prototype).size) :
      number < splitting.automaton.size ∨
        number = splitting.automaton.size := by
    rw [cloned.size] at bound
    exact Nat.lt_succ_iff_lt_or_eq.mp bound
  constructor
  · exact localized.enlarges.trans cloned.enlarges
  · intro number bound
    rcases cases_of_lt bound with before | rfl
    · dsimp only
      rw [cloned.enlarges.prototype number before]
      exact localized.original number before
    · dsimp only
      rw [copy, ← isOriginal]
      exact localized.original prototype inside
  · intro number bound apart
    rcases cases_of_lt bound with before | rfl
    · rw [Regional, cloned.enlarges.prototype number before] at apart
      obtain ⟨within, alike⟩ := localized.outside number before apart
      exact ⟨within, alike.trans (alike_clone before)⟩
    · rw [Regional, copy] at apart
      exact absurd contained apart
  · intro number bound regional
    dsimp only
    rw [Families.copiesOf_add]
    rcases cases_of_lt bound with before | rfl
    · rw [Regional, cloned.enlarges.prototype number before] at regional
      rw [cloned.enlarges.prototype number before]
      have member := localized.enlisted number before regional
      split
      · rename_i own
        exact List.mem_append_left _ (own ▸ member)
      · exact member
    · rw [if_pos copy]
      exact List.mem_append_right _ (List.mem_singleton.mpr rfl)

theorem Step.localized (step : Step grammar first region old new)
    (localized : Localized region automaton old) :
    Localized region automaton new := by
  cases step with
  | count =>
      exact ⟨localized.enlarges, localized.original, localized.outside,
        localized.enlisted⟩
  | retune number change regional same =>
      have links : old.automaton.SameLinks
          (old.automaton.modify number change) := .modify same
      apply localized.change links.enlarges links.size
      intro other _ apart
      have different : other ≠ number := fun isNumber =>
        apart (isNumber ▸ regional)
      rw [state_modify_ne different]
      exact .refl _
  | clone prototype intact inside isOriginal contained =>
      exact localized.clone intact inside isOriginal contained
  | relink source symbol target =>
      apply localized.change
        (old.automaton.enlarges_relink source symbol target)
        (size_relink source symbol target)
      intro number _ _
      exact alike_relink source symbol target number

theorem Steps.localized (steps : Steps grammar first region old new)
    (localized : Localized region automaton old) :
    Localized region automaton new := by
  induction steps with
  | refl => exact localized
  | tail _ step ih => exact step.localized ih

section Words

variable {base : Automaton} {word : List Symbol} {number : Nat}
  (traced : TracedFrom grammar first base automaton)
  (intact : splitting.automaton.Intact grammar first)
  (localized : Localized region automaton splitting)

include intact localized in
theorem Localized.sameItems (inside : number < splitting.automaton.size) :
    (automaton.state (splitting.automaton.prototype number)).SameItems
      (splitting.automaton.state number) :=
  (localized.enlarges.sameItems _ (localized.original number inside)).trans
    (intact.prototype_items number inside)

include traced localized in
theorem Localized.prototype_eq (inside : number < splitting.automaton.size)
    (apart : ¬ Regional region splitting.automaton number) :
    splitting.automaton.prototype number = number := by
  obtain ⟨within, -⟩ := localized.outside number inside apart
  rw [localized.enlarges.prototype number within, traced.prototype_eq within]

include traced intact localized in
/-- A transition between copies is one between the states themselves. -/
theorem Localized.edge_prototype {source target : Nat} {symbol : Symbol}
    (edge : (splitting.automaton.state source).successor? symbol =
      some target) :
    (automaton.state (splitting.automaton.prototype source)).successor?
        symbol = some (splitting.automaton.prototype target) := by
  have framed := intact.framed
  have sourceInside := lt_size_of_successor edge
  have targetInside := framed.bounded _ _ _ edge
  have sourceItems := localized.sameItems intact sourceInside
  have targetItems := localized.sameItems intact targetInside
  have original := localized.original source sourceInside
  obtain ⟨word, leads⟩ := traced.exists_leads original
  have scans := framed.scanned _ _ _ edge
  rw [sourceItems.mem_scannedSymbols] at scans
  obtain ⟨next, found⟩ := traced.retraced.total
    traced.lookaheadless.collected.total word _ leads symbol scans
  have same : next = splitting.automaton.prototype target := by
    apply traced.apart next (traced.framed.bounded _ _ _ found) _
      (localized.original target targetInside)
    calc (automaton.state next).coreItems
      _ = (automaton.state
            (splitting.automaton.prototype source)).successorItems
              grammar symbol := traced.framed.edges _ _ _ found
      _ = (splitting.automaton.state source).successorItems grammar
            symbol := sourceItems.successorItems.symm
      _ = (splitting.automaton.state target).coreItems :=
            (framed.edges _ _ _ edge).symm
      _ = (automaton.state
            (splitting.automaton.prototype target)).coreItems :=
            targetItems.coreItems
  exact same ▸ found

include traced intact localized in
theorem Localized.leads_prototype
    (leads : splitting.automaton.Leads word number) :
    automaton.Leads word (splitting.automaton.prototype number) := by
  induction leads with
  | start =>
      have positive := traced.framed.positive
      rw [localized.enlarges.prototype _ positive,
        traced.prototype_eq positive]
      exact .start
  | step before edge ih =>
      exact ih.step (localized.edge_prototype traced intact edge)

include traced intact localized in
/-- A word that led to a state leads to the state or to a copy of it. -/
theorem Localized.exists_leads {place : Nat}
    (leads : automaton.Leads word place) :
    ∃ number, splitting.automaton.Leads word number ∧
      splitting.automaton.prototype number = place := by
  have found : ∃ number, splitting.automaton.Leads word number := by
    induction leads with
    | start => exact ⟨_, .start⟩
    | @step word source target symbol before edge ih =>
        obtain ⟨number, leads⟩ := ih
        have own := localized.leads_prototype traced intact leads
        have inside := intact.framed.lt_size leads
        have scans := traced.framed.scanned _ _ _ edge
        rw [before.unique own,
          ← (localized.sameItems intact inside).mem_scannedSymbols] at scans
        obtain ⟨next, step⟩ := intact.total word number leads symbol scans
        exact ⟨next, leads.step step⟩
  obtain ⟨number, own⟩ := found
  exact ⟨number, own,
    (localized.leads_prototype traced intact own).unique leads⟩

include traced intact localized in
/-- The same words lead to a state outside the region as before. -/
theorem Localized.leads_iff (inside : number < splitting.automaton.size)
    (apart : ¬ Regional region splitting.automaton number) :
    splitting.automaton.Leads word number ↔ automaton.Leads word number := by
  have own := localized.prototype_eq traced inside apart
  constructor
  · intro leads
    have before := localized.leads_prototype traced intact leads
    rwa [own] at before
  · intro leads
    obtain ⟨other, found, same⟩ := localized.exists_leads traced intact leads
    have outside : ¬ Regional region splitting.automaton other := by
      rw [Regional, same, ← own]
      exact apart
    have isOther := localized.prototype_eq traced
      (intact.framed.lt_size found) outside
    rw [← same, isOther]
    exact found

end Words

end Splitting

end LRTables
