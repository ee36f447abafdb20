import LRTables.Proofs.Sustained

/-!
# Splittings

In the course of a splitting, each family holds copies of one state, and every
transition that is redirected goes to another copy of the state that it fits.
Properties of states that every change sustains hold of all states throughout.
-/

namespace LRTables

namespace Families

theorem copiesOf_add (families : Families) (prototype copy other : Nat) :
    (families.add prototype copy).copiesOf other =
      if other = prototype then families.copiesOf prototype ++ [copy]
      else families.copiesOf other := by
  rw [copiesOf, add, Ordered.find?_update]
  split
  · rfl
  · rfl

/-- Every family holds copies of its own state only. -/
def Sound (automaton : Automaton) (families : Families) : Prop :=
  ∀ prototype, ∀ copy ∈ families.copiesOf prototype,
    copy < automaton.size ∧ automaton.prototype copy = prototype

theorem Sound.enlarge {old new : Automaton} {families : Families}
    (sound : families.Sound old) (enlarges : old.Enlarges new) :
    families.Sound new := by
  intro prototype copy member
  obtain ⟨inside, same⟩ := sound prototype copy member
  refine ⟨Nat.lt_of_lt_of_le inside enlarges.size_le, ?_⟩
  rw [enlarges.prototype copy inside, same]

theorem Sound.add {automaton : Automaton} {families : Families}
    (sound : families.Sound automaton) {copy : Nat}
    (inside : copy < automaton.size) :
    (families.add (automaton.prototype copy) copy).Sound automaton := by
  intro prototype other member
  rw [copiesOf_add] at member
  split at member
  · rename_i own
    rcases List.mem_append.mp member with old | added
    · rw [own]
      exact sound _ other old
    · rw [List.mem_singleton.mp added]
      exact ⟨inside, own.symm⟩
  · exact sound _ other member

theorem sound_ofRegion (automaton : Automaton) (region : Region) :
    (ofRegion automaton region).Sound automaton := by
  have collected (numbers : List Nat) (families : Families)
      (inside : ∀ number ∈ numbers, number < automaton.size)
      (sound : families.Sound automaton) :
      (numbers.foldl (fun (families : Families) number =>
        if region.contains (automaton.prototype number) then
          families.add (automaton.prototype number) number
        else families) families).Sound automaton := by
    induction numbers generalizing families with
    | nil => exact sound
    | cons number rest ih =>
        rw [List.foldl_cons]
        apply ih
        · intro other later
          exact inside other (List.mem_cons_of_mem _ later)
        · split
          · exact sound.add (inside number List.mem_cons_self)
          · exact sound
  apply collected
  · intro number listed
    exact List.mem_range.mp listed
  · intro prototype copy none
    cases none

end Families

namespace Splitting

variable {grammar : Grammar} {first : FirstSets} {base : Automaton}
  {clean : Prop} {good : State → Prop} {old new splitting : Splitting}

/-- What holds in the course of a splitting. -/
structure Kept (grammar : Grammar) (first : FirstSets)
    (good : State → Prop) (base : Automaton) (splitting : Splitting) :
    Prop where
  intact : splitting.automaton.Intact grammar first
  enlarges : base.Enlarges splitting.automaton
  families : splitting.families.Sound splitting.automaton
  good : splitting.automaton.All good

theorem kept_begin {automaton : Automaton}
    (intact : automaton.Intact grammar first)
    (enlarges : base.Enlarges automaton) (all : automaton.All good)
    (region : Region) :
    (begin automaton region).Kept grammar first good base := by
  constructor
  · exact intact
  · exact enlarges
  · exact Families.sound_ofRegion automaton region
  · exact all

theorem Kept.enlarge (kept : old.Kept grammar first good base)
    (intact : new.automaton.Intact grammar first)
    (enlarges : old.automaton.Enlarges new.automaton)
    (all : new.automaton.All good)
    (families : new.families = old.families) :
    new.Kept grammar first good base := by
  constructor
  · exact intact
  · exact kept.enlarges.trans enlarges
  · rw [families]
    exact kept.families.enlarge enlarges
  · exact all

section Operations

variable (wellFormed : grammar.WellFormed) (unused : grammar.GoalUnused)
  (exact : first.Exact grammar)
  (sustains : Sustains grammar first clean good)

include wellFormed unused exact sustains in
theorem Kept.reset (kept : splitting.Kept grammar first good base)
    (number : Nat) :
    (splitting.reset grammar first number).Kept grammar first good base :=
  kept.enlarge (kept.intact.reset wellFormed unused exact number)
    (kept.intact.enlarges_reset wellFormed unused exact number)
    (sustains.resetAt kept.intact.toSealed kept.good number) rfl

include wellFormed unused exact sustains in
theorem Kept.resetAll {splitting : Splitting}
    (kept : splitting.Kept grammar first good base) (numbers : List Nat) :
    (numbers.foldl (Splitting.reset grammar first) splitting).Kept grammar
      first good base := by
  induction numbers generalizing splitting with
  | nil => exact kept
  | cons number rest ih =>
      exact ih (kept.reset wellFormed unused exact sustains number)

/-- The choice of a copy that is to take in what arrives. -/
structure Chosen (grammar : Grammar) (first : FirstSets) (clean : Prop)
    (good : State → Prop) (base : Automaton)
    (incoming : List Configuration) (old : Splitting)
    (prototype target : Nat) (new : Splitting) : Prop where
  kept : new.Kept grammar first good base
  enlarges : old.automaton.Enlarges new.automaton
  target_lt : target < new.automaton.size
  prototype : new.automaton.prototype target = prototype
  receives : clean →
    (new.automaton.state target).covers incoming = true ∨
      (new.automaton.state target).Receives incoming

theorem Kept.chosen (kept : splitting.Kept grammar first good base)
    {incoming : List Configuration} {prototype target : Nat}
    (inside : target < splitting.automaton.size)
    (same : splitting.automaton.prototype target = prototype)
    (receives : clean →
      (splitting.automaton.state target).covers incoming = true ∨
        (splitting.automaton.state target).Receives incoming) :
    Chosen grammar first clean good base incoming splitting prototype target
      splitting :=
  ⟨kept, .refl _, inside, same, receives⟩

theorem Kept.chosen_copy (kept : splitting.Kept grammar first good base)
    {incoming : List Configuration} {prototype target : Nat}
    (member : target ∈ splitting.families.copiesOf prototype)
    (receives : clean →
      (splitting.automaton.state target).covers incoming = true ∨
        (splitting.automaton.state target).Receives incoming) :
    Chosen grammar first clean good base incoming splitting prototype target
      splitting := by
  obtain ⟨inside, same⟩ := kept.families prototype target member
  exact kept.chosen inside same receives

theorem mem_copiesOf_of_covering? {prototype target : Nat}
    {incoming : List Configuration}
    (found : splitting.covering? prototype incoming = some target) :
    target ∈ splitting.families.copiesOf prototype :=
  List.mem_of_find?_eq_some found

theorem covers_of_covering? {prototype target : Nat}
    {incoming : List Configuration}
    (found : splitting.covering? prototype incoming = some target) :
    (splitting.automaton.state target).covers incoming = true :=
  List.find?_some (p := fun copy =>
    (splitting.automaton.state copy).covers incoming) found

theorem not_covers_of_covering? {prototype : Nat}
    {incoming : List Configuration}
    (missing : splitting.covering? prototype incoming = none) :
    ∀ copy ∈ splitting.families.copiesOf prototype,
      (splitting.automaton.state copy).covers incoming = false := by
  intro copy member
  exact Bool.eq_false_iff.mpr (List.find?_eq_none.mp missing copy member)

include wellFormed unused exact sustains in
/-- The choice of a new copy. -/
theorem Kept.chosen_clone (kept : splitting.Kept grammar first good base)
    {incoming : List Configuration} {prototype : Nat}
    (inside : prototype < splitting.automaton.size)
    (original : splitting.automaton.prototype prototype = prototype)
    (moved : .goal ∉ (splitting.automaton.state prototype).coreItems) :
    Chosen grammar first clean good base incoming splitting prototype
      splitting.automaton.size (splitting.clone grammar first prototype) := by
  have cloned := kept.intact.clone inside
  have fresh : splitting.automaton.size <
      (splitting.automaton.clone prototype).size := by
    rw [cloned.size]
    exact Nat.lt_succ_self _
  have own : (splitting.automaton.clone prototype).prototype
      splitting.automaton.size = prototype :=
    cloned.prototype.trans original
  have added := (kept.families.enlarge cloned.enlarges).add fresh
  rw [own] at added
  have grown : Kept grammar first good base
      { splitting with
        automaton := splitting.automaton.clone prototype
        families :=
          splitting.families.add prototype splitting.automaton.size
        counts :=
          { splitting.counts with clones := splitting.counts.clones + 1 } } :=
    ⟨cloned.intact, kept.enlarges.trans cloned.enlarges, added,
      sustains.clone kept.good inside⟩
  have resetting := cloned.intact.enlarges_reset wellFormed unused exact
    splitting.automaton.size
  constructor
  · exact grown.reset wellFormed unused exact sustains
      splitting.automaton.size
  · exact cloned.enlarges.trans resetting
  · exact Nat.lt_of_lt_of_le fresh resetting.size_le
  · exact (resetting.prototype _ fresh).trans own
  · intro _
    have regular := cloned.intact.framed.regular _ fresh
    have items := (cloned.intact.prototype_items _ fresh).coreItems
    rw [own, (cloned.enlarges.sameItems prototype inside).coreItems] at items
    have reset : (splitting.clone grammar first prototype).automaton.state
          splitting.automaton.size =
        ((splitting.automaton.clone prototype).state
          splitting.automaton.size).resetContexts grammar first :=
      Automaton.state_modify_self fresh
    rw [reset]
    exact Or.inr (State.receives_resetContexts wellFormed unused regular
      (items ▸ moved))

theorem Chosen.fits {source prototype target : Nat} {symbol : Symbol}
    {incoming : List Configuration}
    (chosen : Chosen grammar first clean good base incoming old prototype
      target new)
    (fits : old.automaton.Fits grammar source symbol prototype)
    (original : old.automaton.prototype prototype = prototype) :
    new.automaton.Fits grammar source symbol target := by
  apply (fits.enlarge chosen.enlarges).copy chosen.kept.intact
    chosen.target_lt
  rw [chosen.prototype,
    chosen.enlarges.prototype prototype fits.target_lt, original]

theorem Chosen.matching {source prototype target : Nat} {symbol : Symbol}
    {incoming : List Configuration}
    (chosen : Chosen grammar first clean good base incoming old prototype
      target new)
    (fits : old.automaton.Fits grammar source symbol prototype)
    (original : old.automaton.prototype prototype = prototype) :
    (new.automaton.state target).Matches grammar
      ((old.automaton.state source).successorCores grammar true symbol) := by
  constructor
  · exact chosen.kept.intact.framed.regular target chosen.target_lt
  · rw [(chosen.fits fits original).core, State.items_successorCores]
    exact (chosen.enlarges.sameItems source fits.source_lt).successorItems

include wellFormed unused exact sustains in
/-- What arrives is taken in by the chosen copy, and the transition goes
there. -/
theorem Chosen.take {source prototype target : Nat} {symbol : Symbol}
    {merged : Automaton} {grown : Bool}
    (kept : old.Kept grammar first good base)
    (chosen : Chosen grammar first clean good base
      ((old.automaton.state source).successorCores grammar true symbol) old
      prototype target new)
    (fits : old.automaton.Fits grammar source symbol prototype)
    (original : old.automaton.prototype prototype = prototype)
    (result : new.automaton.absorb grammar first target
      ((old.automaton.state source).successorCores grammar true symbol) =
        (merged, grown)) :
    merged.Intact grammar first ∧ new.automaton.Enlarges merged ∧
      merged.All good ∧
      (merged.relink source symbol target).Intact grammar first := by
  have before := kept.intact.toSealed
  obtain ⟨intact, absorbed⟩ := chosen.kept.intact.absorb wellFormed unused
    exact (fun _ _ => before.arrives_lt fits.source_lt) target result
  have enlarges := chosen.enlarges.trans absorbed
  have fitsNew := chosen.fits fits original
  refine ⟨intact, absorbed, ?_, intact.relink (fitsNew.enlarge absorbed)⟩
  refine sustains.absorb wellFormed unused exact
    chosen.kept.intact.toSealed chosen.kept.good
    (before.framed.regular source fits.source_lt)
    (before.framed.closed source fits.source_lt)
    (kept.good source fits.source_lt) ?_ chosen.receives result
  intro _
  rw [fitsNew.core]
  exact (chosen.enlarges.sameItems source fits.source_lt).successorItems

end Operations

end Splitting

end LRTables
