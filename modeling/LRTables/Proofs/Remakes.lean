import LRTables.Proofs.PagerSplits
import LRTables.Proofs.Parents
import LRTables.Proofs.Propagations

/-!
# Transitions that are made again

A transition whose target lacks some of what arrives gets another target, which
is provided first: a copy that has it all, one that takes it in, or a new one.
Only that target changes, and it waits from then on.
-/

namespace LRTables

theorem WorkQueue.push_of_mem {queue : WorkQueue Nat} {number : Nat}
    (member : number ∈ queue.waiting) : queue.push number = queue := by
  rw [push, dif_pos member]

theorem WorkQueue.push_push (queue : WorkQueue Nat) (number : Nat) :
    (queue.push number).push number = queue.push number :=
  push_of_mem (mem_push.mpr (Or.inr rfl))

namespace State

variable {grammar : Grammar} {first : FirstSets}

theorem links_joined (state : State) (cores : List Configuration) :
    state.joined grammar first cores =
      { state with
        configurations :=
          (state.joined grammar first cores).configurations } :=
  close_extends.frame

theorem links_resetContexts (state : State) :
    state.resetContexts grammar first =
      { state with
        configurations := (state.resetContexts grammar first).configurations } :=
  close_extends.frame

end State

namespace Automaton

variable {grammar : Grammar} {first : FirstSets} {automaton : Automaton}
  {source target number : Nat} {incoming : List Configuration}

theorem absorb_of_covers
    (covers : (automaton.state target).covers incoming = true) :
    automaton.absorb grammar first target incoming = (automaton, false) := by
  rw [absorb, State.absorb_eq, if_pos covers]
  rfl

theorem absorb_of_not_covers
    (lacks : (automaton.state target).covers incoming = false) :
    automaton.absorb grammar first target incoming =
      (automaton.modify target fun _ =>
        (automaton.state target).joined grammar first incoming, true) := by
  rw [absorb, State.absorb_eq, lacks]
  rfl

theorem size_absorb :
    (automaton.absorb grammar first target incoming).1.size =
      automaton.size := by
  cases covers : (automaton.state target).covers incoming with
  | true => rw [absorb_of_covers covers]
  | false => rw [absorb_of_not_covers covers, size_modify]

theorem state_absorb_ne (different : number ≠ target) :
    (automaton.absorb grammar first target incoming).1.state number =
      automaton.state number := by
  cases covers : (automaton.state target).covers incoming with
  | true => rw [absorb_of_covers covers]
  | false => rw [absorb_of_not_covers covers, state_modify_ne different]

/-- A state keeps its links when it absorbs what arrives. -/
theorem links_absorb (number : Nat) :
    ((automaton.absorb grammar first target incoming).1.state
        number).successors = (automaton.state number).successors ∧
      ((automaton.absorb grammar first target incoming).1.state
        number).parents = (automaton.state number).parents := by
  cases covers : (automaton.state target).covers incoming with
  | true => rw [absorb_of_covers covers]; exact ⟨rfl, rfl⟩
  | false =>
      rw [absorb_of_not_covers covers]
      by_cases same : number = target
      · subst same
        by_cases inside : number < automaton.size
        · rw [state_modify_self inside, State.links_joined]
          exact ⟨rfl, rfl⟩
        · rw [modify_of_size_le (Nat.le_of_not_lt inside)]
          exact ⟨rfl, rfl⟩
      · rw [state_modify_ne same]
        exact ⟨rfl, rfl⟩

theorem Parented.absorb (parented : automaton.Parented) :
    (automaton.absorb grammar first target incoming).1.Parented :=
  parented.of_links size_absorb (fun number => (links_absorb number).2)
    fun number => (links_absorb number).1

theorem Parented.reset (parented : automaton.Parented) (number : Nat) :
    (automaton.modify number fun state =>
      state.resetContexts grammar first).Parented := by
  apply parented.of_links (size_modify _)
  · intro other
    apply state_modify_keeps State.parents
    intro state
    rw [State.links_resetContexts]
  · intro other
    apply state_modify_keeps State.successors
    intro state
    rw [State.links_resetContexts]

theorem hasContext_of_absorb {item : Item} {terminal : Nat}
    (has : (automaton.state number).HasContext item terminal) :
    ((automaton.absorb grammar first target incoming).1.state
      number).HasContext item terminal := by
  cases covers : (automaton.state target).covers incoming with
  | true => rwa [absorb_of_covers covers]
  | false =>
      rw [absorb_of_not_covers covers]
      by_cases same : number = target
      · subst same
        by_cases inside : number < automaton.size
        · rw [state_modify_self inside]
          exact State.hasContext_join has
        · rwa [modify_of_size_le (Nat.le_of_not_lt inside)]
      · rwa [state_modify_ne same]

theorem hasContext_absorb (inside : target < automaton.size)
    (matching : (automaton.state target).Matches grammar incoming)
    {item : Item} {terminal : Nat}
    (arrives : State.Arrives incoming item terminal) :
    ((automaton.absorb grammar first target incoming).1.state
      target).HasContext item terminal := by
  cases covers : (automaton.state target).covers incoming with
  | true =>
      rw [absorb_of_covers covers]
      exact (State.covers_iff matching.aligned).mp covers item terminal arrives
  | false =>
      rw [absorb_of_not_covers covers, state_modify_self inside]
      exact State.close_extends.hasContext
        ((State.hasContext_joinContexts matching.aligned).mpr (Or.inr arrives))

theorem Fits.matching {symbol : Symbol}
    (fits : automaton.Fits grammar source symbol target)
    (framed : automaton.Framed grammar) :
    (automaton.state target).Matches grammar
      ((automaton.state source).successorCores grammar true symbol) := by
  constructor
  · exact framed.regular target fits.target_lt
  · rw [State.items_successorCores]
    exact fits.core

theorem covers_iff_feeds {source target : State} {symbol : Symbol}
    (matching : target.Matches grammar
      (source.successorCores grammar true symbol)) :
    target.covers (source.successorCores grammar true symbol) = true ↔
      Feeds grammar source symbol target := by
  rw [State.covers_iff matching.aligned]
  constructor
  · exact Collecting.feeds_of_arrives
  · intro feeds item terminal arrives
    obtain ⟨origin, has, scans, rfl⟩ :=
      State.arrives_successorCores.mp arrives
    exact feeds origin terminal has scans

theorem relink_of_successor {symbol : Symbol}
    (edge : (automaton.state source).successor? symbol = some target) :
    automaton.relink source symbol target = automaton := by
  rw [relink, edge]
  exact if_pos rfl

theorem successors_linkAll_ne {other : Nat} (different : other ≠ source)
    (edges : List (Symbol × Nat)) :
    ((automaton.linkAll source edges).state other).successors =
      (automaton.state other).successors := by
  induction edges generalizing automaton with
  | nil => rfl
  | cons edge rest ih => exact ih.trans (successors_link_ne different)

theorem mem_parents_linkAll {edges : List (Symbol × Nat)}
    (inside : ∀ edge ∈ edges, edge.2 < automaton.size) {other parent : Nat}
    (member : parent ∈
      ((automaton.linkAll source edges).state other).parents) :
    parent ∈ (automaton.state other).parents ∨
      parent = source ∧ ∃ edge ∈ edges, edge.2 = other := by
  induction edges generalizing automaton with
  | nil => exact Or.inl member
  | cons edge rest ih =>
      have later : ∀ next ∈ rest,
          next.2 < (automaton.link source edge.1 edge.2).size := by
        intro next listed
        rw [size_link]
        exact inside next (List.mem_cons_of_mem _ listed)
      rcases ih later member with before | ⟨same, next, listed, equal⟩
      · rcases (mem_parents_link (inside edge List.mem_cons_self)).mp before
          with old | ⟨rfl, same⟩
        · exact Or.inl old
        · exact Or.inr ⟨same, edge, List.mem_cons_self, rfl⟩
      · exact Or.inr ⟨same, next, List.mem_cons_of_mem _ listed, equal⟩

theorem Parented.linkAll (parented : automaton.Parented)
    (sourceInside : source < automaton.size) {edges : List (Symbol × Nat)}
    (inside : ∀ edge ∈ edges, edge.2 < automaton.size) :
    (automaton.linkAll source edges).Parented := by
  induction edges generalizing automaton with
  | nil => exact parented
  | cons edge rest ih =>
      apply ih
      · exact .link parented.lt_size
          (fun _ _ _ found _ => parented.knows _ _ _ found)
          sourceInside (inside edge List.mem_cons_self)
      · rwa [size_link]
      · intro next listed
        rw [size_link]
        exact inside next (List.mem_cons_of_mem _ listed)

section Cloning

variable (framed : automaton.Framed grammar)

include framed in
theorem Framed.target_lt {edge : Symbol × Nat}
    (member : edge ∈ (automaton.state number).successors) :
    edge.2 < automaton.size :=
  framed.bounded _ _ _ (framed.keyed.mem_successors.mp member)

include framed in
theorem Parented.clone (parented : automaton.Parented) (number : Nat) :
    (automaton.clone number).Parented := by
  rw [clone_eq]
  apply (parented.add framed.bounded rfl rfl).linkAll
  · rw [size_add]
    exact Nat.lt_succ_self _
  · intro edge member
    rw [size_add]
    exact Nat.lt_succ_of_lt (framed.target_lt member)

theorem alike_clone {other : Nat} (inside : other < automaton.size) :
    (automaton.state other).Alike ((automaton.clone number).state other) := by
  have fresh : automaton.size < (automaton.add (automaton.bareCopy
      number)).size := by
    rw [size_add]
    exact Nat.lt_succ_self _
  have linked := (linked_linkAll fresh
    (automaton.state number).successors).alike other
  rwa [state_add_of_lt inside] at linked

theorem successors_clone {other : Nat} (inside : other < automaton.size) :
    ((automaton.clone number).state other).successors =
      (automaton.state other).successors := by
  rw [clone_eq, successors_linkAll_ne (Nat.ne_of_lt inside),
    state_add_of_lt inside]

include framed in
/-- A copy leads only to states that have a parent already. -/
theorem Parented.orphan_clone (parented : automaton.Parented) {other : Nat}
    (inside : other < automaton.size)
    (orphan : (automaton.state other).parents = []) :
    ((automaton.clone number).state other).parents = [] := by
  apply List.eq_nil_iff_forall_not_mem.mpr
  intro parent member
  rw [clone_eq] at member
  have bounded : ∀ edge ∈ (automaton.state number).successors,
      edge.2 < (automaton.add (automaton.bareCopy number)).size := by
    intro edge listed
    rw [size_add]
    exact Nat.lt_succ_of_lt (framed.target_lt listed)
  rcases mem_parents_linkAll bounded member with old | ⟨-, edge, listed, rfl⟩
  · rw [state_add_of_lt inside, orphan] at old
    cases old
  · have known := parented.knows _ _ _ (framed.keyed.mem_successors.mp listed)
    rw [orphan] at known
    cases known

end Cloning

end Automaton

namespace Splitting

variable {grammar : Grammar} {first : FirstSets} {splitting : Splitting}

theorem automaton_clone (splitting : Splitting) (prototype : Nat) :
    (splitting.clone grammar first prototype).automaton =
      (splitting.automaton.clone prototype).modify splitting.automaton.size
        fun state => state.resetContexts grammar first :=
  rfl

theorem size_clone (splitting : Splitting) (prototype : Nat) :
    (splitting.clone grammar first prototype).automaton.size =
      splitting.automaton.size + 1 := by
  have fresh : splitting.automaton.size < (splitting.automaton.add
      (splitting.automaton.bareCopy prototype)).size := by
    rw [Automaton.size_add]
    exact Nat.lt_succ_self _
  rw [automaton_clone, Automaton.size_modify, Automaton.clone_eq,
    (Automaton.linked_linkAll fresh _).size, Automaton.size_add]

/-- A copy with what it was made for. -/
def provide (grammar : Grammar) (first : FirstSets) (splitting : Splitting)
    (prototype : Nat) (incoming : List Configuration) : Automaton :=
  ((splitting.clone grammar first prototype).automaton.absorb grammar first
    splitting.automaton.size incoming).1

theorem size_provide (prototype : Nat) (incoming : List Configuration) :
    (splitting.provide grammar first prototype incoming).size =
      splitting.automaton.size + 1 := by
  rw [provide, Automaton.size_absorb, size_clone]

theorem state_provide {prototype number : Nat} {incoming : List Configuration}
    (inside : number < splitting.automaton.size) :
    (splitting.provide grammar first prototype incoming).state number =
      (splitting.automaton.clone prototype).state number := by
  have different := Nat.ne_of_lt inside
  rw [provide, Automaton.state_absorb_ne different, automaton_clone,
    Automaton.state_modify_ne different]

theorem alike_provide {prototype number : Nat} {incoming : List Configuration}
    (inside : number < splitting.automaton.size) :
    (splitting.automaton.state number).Alike
      ((splitting.provide grammar first prototype incoming).state number) := by
  rw [state_provide inside]
  exact Automaton.alike_clone inside

end Splitting

namespace PagerSplitting

variable {grammar : Grammar} {first : FirstSets} {base : Automaton}
  {incoming : List Configuration} {current target : Nat}
  {old new : Splitting}

/-- Where a transition is to go whose target lacks some of what arrives, and
what provides for it. -/
inductive Provides (grammar : Grammar) (first : FirstSets)
    (incoming : List Configuration) (current : Nat) (old : Splitting) :
    Nat → Splitting → Prop where
  | covering (target : Nat) :
      target ∈ old.families.copiesOf (old.automaton.prototype current) →
      (old.automaton.state target).covers incoming = true →
      Provides grammar first incoming current old target old
  | joined (target : Nat) :
      target = current ∨
        target ∈ old.families.copiesOf (old.automaton.prototype current) →
      (old.automaton.state target).covers incoming = false →
      (old.automaton.state target).Receives incoming →
      Provides grammar first incoming current old target
        { old.countMerge with
          automaton :=
            (old.automaton.absorb grammar first target incoming).1 }
  | cloned :
      (∀ copy ∈ old.families.copiesOf (old.automaton.prototype current),
        (old.automaton.state copy).covers incoming = false ∧
          ¬ (old.automaton.state copy).Receives incoming) →
      Provides grammar first incoming current old old.automaton.size
        { automaton := old.provide grammar first
            (old.automaton.prototype current) incoming
          families := old.families.add (old.automaton.prototype current)
            old.automaton.size
          counts :=
            { old.counts with clones := old.counts.clones + 1 } }

/-- The chosen copy, once it has absorbed what arrives, is provided.  It grows
if it is the target of before. -/
theorem provides_choose {chosen : Splitting}
    (lacks : (old.automaton.state current).covers incoming = false)
    (inside : current < old.automaton.size)
    (result : choose grammar first old current incoming = (target, chosen)) :
    Provides grammar first incoming current old target
        { chosen with
          automaton :=
            (chosen.automaton.absorb grammar first target incoming).1 } ∧
      (target = current →
        (chosen.automaton.absorb grammar first target incoming).2 = true) := by
  obtain ⟨rfl, copy, covers⟩ |
    ⟨refuses, ⟨rfl, among, receives⟩ | ⟨rfl, rfl, incompatible⟩⟩ :=
    choose_cases result
  · rw [Automaton.absorb_of_covers covers]
    refine ⟨.covering target copy covers, ?_⟩
    rintro rfl
    rw [covers] at lacks
    cases lacks
  · have lacking : (old.automaton.state target).covers incoming = false := by
      rcases among with rfl | copy
      · exact lacks
      · exact refuses target copy
    refine ⟨.joined target among lacking receives, ?_⟩
    intro _
    exact congrArg Prod.snd (Automaton.absorb_of_not_covers lacking)
  · refine ⟨.cloned ?_, ?_⟩
    · intro copy member
      exact ⟨refuses copy member, incompatible copy member⟩
    · rintro same
      exact absurd inside (same ▸ Nat.lt_irrefl _)

namespace Provides

theorem lt_or_eq
    (provides : Provides grammar first incoming current old target new)
    {number : Nat} (inside : number < new.automaton.size) :
    number < old.automaton.size ∨ number = target := by
  cases provides with
  | covering => exact Or.inl inside
  | joined =>
      dsimp only at inside
      rw [Automaton.size_absorb] at inside
      exact Or.inl inside
  | cloned =>
      dsimp only at inside
      rw [Splitting.size_provide] at inside
      exact Nat.lt_succ_iff_lt_or_eq.mp inside

theorem alike
    (provides : Provides grammar first incoming current old target new)
    {number : Nat} (inside : number < old.automaton.size)
    (different : number ≠ target) :
    (old.automaton.state number).Alike (new.automaton.state number) := by
  cases provides with
  | covering => exact .refl _
  | joined =>
      rw [Automaton.state_absorb_ne different]
      exact .refl _
  | cloned =>
      dsimp only
      exact Splitting.alike_provide inside

theorem grows
    (provides : Provides grammar first incoming current old target new)
    {number : Nat} (inside : number < old.automaton.size) {item : Item}
    {terminal : Nat}
    (has : (old.automaton.state number).HasContext item terminal) :
    (new.automaton.state number).HasContext item terminal := by
  by_cases same : number = target
  · subst same
    cases provides with
    | covering => exact has
    | joined => exact Automaton.hasContext_of_absorb has
    | cloned => exact absurd inside (Nat.lt_irrefl _)
  · exact (provides.alike inside same).hasContext_iff.mpr has

theorem successors
    (provides : Provides grammar first incoming current old target new)
    {number : Nat} (inside : number < old.automaton.size) :
    (new.automaton.state number).successors =
      (old.automaton.state number).successors := by
  cases provides with
  | covering => rfl
  | joined => exact (Automaton.links_absorb number).1
  | cloned =>
      rw [Splitting.state_provide inside]
      exact Automaton.successors_clone inside

theorem parented
    (provides : Provides grammar first incoming current old target new)
    (framed : old.automaton.Framed grammar)
    (parented : old.automaton.Parented) : new.automaton.Parented := by
  cases provides with
  | covering => exact parented
  | joined => exact parented.absorb
  | cloned =>
      have cleared : (old.clone grammar first
          (old.automaton.prototype current)).automaton.Parented :=
        (parented.clone framed _).reset _
      dsimp only [Splitting.provide]
      exact cleared.absorb

theorem orphan
    (provides : Provides grammar first incoming current old target new)
    (framed : old.automaton.Framed grammar)
    (parented : old.automaton.Parented) {number : Nat}
    (inside : number < old.automaton.size)
    (orphan : (old.automaton.state number).parents = []) :
    (new.automaton.state number).parents = [] := by
  cases provides with
  | covering => exact orphan
  | joined => exact (Automaton.links_absorb number).2.trans orphan
  | cloned =>
      dsimp only
      rw [Splitting.state_provide inside]
      exact parented.orphan_clone framed inside orphan

theorem copiesOf_subset
    (provides : Provides grammar first incoming current old target new)
    {prototype copy : Nat}
    (member : copy ∈ old.families.copiesOf prototype) :
    copy ∈ new.families.copiesOf prototype := by
  cases provides with
  | covering => exact member
  | joined => exact member
  | cloned =>
      change copy ∈ (old.families.add (old.automaton.prototype current)
        old.automaton.size).copiesOf prototype
      rw [Families.copiesOf_add]
      split
      · rename_i same
        exact List.mem_append_left _ (same ▸ member)
      · exact member

theorem target_mem
    (provides : Provides grammar first incoming current old target new) :
    target = current ∨
      target ∈ new.families.copiesOf (old.automaton.prototype current) := by
  cases provides with
  | covering _ member => exact Or.inr member
  | joined _ among => exact among
  | cloned =>
      change _ ∨ old.automaton.size ∈
        (old.families.add (old.automaton.prototype current)
          old.automaton.size).copiesOf (old.automaton.prototype current)
      rw [Families.copiesOf_add, if_pos rfl]
      exact Or.inr (List.mem_append_right _ List.mem_cons_self)

end Provides

/-- What is known of a provided target. -/
structure Provided (grammar : Grammar) (first : FirstSets)
    (good : State → Prop) (base : Automaton)
    (incoming : List Configuration) (current : Nat) (old : Splitting)
    (target : Nat) (new : Splitting) : Prop where
  provides : Provides grammar first incoming current old target new
  kept : new.Kept grammar first good base
  enlarges : old.automaton.Enlarges new.automaton
  target_lt : target < new.automaton.size
  prototype : new.automaton.prototype target = old.automaton.prototype current
  arrived : ∀ item terminal, State.Arrives incoming item terminal →
    (new.automaton.state target).HasContext item terminal

variable {pager : PagerSplitting} {source : Nat} {symbol : Symbol}
  {good : State → Prop}
  (wellFormed : grammar.WellFormed) (unused : grammar.GoalUnused)
  (exact : first.Exact grammar) (sustains : Sustains grammar first True good)

include wellFormed unused exact sustains in
/-- A transition is left alone or goes to the target that is provided for it,
which waits from then on. -/
theorem remake_cases (kept : pager.splitting.Kept grammar first good base)
    (edge : (pager.splitting.automaton.state source).successor? symbol =
      some current) :
    (Automaton.Feeds grammar (pager.splitting.automaton.state source) symbol
        (pager.splitting.automaton.state current) ∧
      remake grammar first source pager (symbol, current) = pager) ∨
    ∃ target provided,
      (pager.splitting.automaton.state current).covers
          ((pager.splitting.automaton.state source).successorCores grammar
            true symbol) = false ∧
      Provided grammar first good base
        ((pager.splitting.automaton.state source).successorCores grammar true
          symbol) current pager.splitting target provided ∧
      remake grammar first source pager (symbol, current) =
        { splitting :=
            { provided with
              automaton :=
                provided.automaton.relink source symbol target }
          queue := pager.queue.push target } := by
  have framed := kept.intact.framed
  have fits := framed.fits edge
  have inside := fits.target_lt
  have original := kept.intact.prototype_idem current inside
  have fitsPrototype := fits.copy kept.intact
    (kept.intact.prototype_lt current inside) original
  obtain ⟨covers, same⟩ | ⟨target, splitting, merged, grown, lacks, choice,
      absorbed, next⟩ :=
    @remake_split grammar first pager source current symbol _ rfl
  · exact Or.inl ⟨(Automaton.covers_iff_feeds
      (Propagating.matches_of_successor framed edge)).mp covers, same⟩
  · refine Or.inr ?_
    have chosen := chosen_choose wellFormed unused exact sustains kept fits
      choice
    obtain ⟨provides, grows⟩ := @provides_choose grammar first _ current
      target _ splitting lacks inside choice
    obtain ⟨mergedIntact, enlarges, all, -⟩ :=
      chosen.take wellFormed unused exact sustains kept fitsPrototype original
        absorbed
    rw [absorbed] at provides grows
    refine ⟨target, { splitting with automaton := merged }, lacks, ?_, ?_⟩
    · constructor
      · exact provides
      · exact chosen.kept.enlarge mergedIntact enlarges all rfl
      · exact chosen.enlarges.trans enlarges
      · exact Nat.lt_of_lt_of_le chosen.target_lt enlarges.size_le
      · rw [← chosen.prototype]
        exact enlarges.prototype target chosen.target_lt
      · intro item terminal arrives
        have has := @Automaton.hasContext_absorb grammar first _ target _
          chosen.target_lt (chosen.matching fitsPrototype original) item
          terminal arrives
        rwa [absorbed] at has
    · dsimp only at grows
      rw [next]
      split
      · rename_i same
        subst same
        have present : (merged.state source).successor? symbol =
            some target := by
          rw [State.successor?, provides.successors fits.source_lt]
          exact edge
        rw [Automaton.relink_of_successor present, if_pos (grows rfl)]
      · have queues : (if grown = true then pager.queue.push target
            else pager.queue).push target = pager.queue.push target := by
          split
          · exact WorkQueue.push_push _ _
          · rfl
        rw [queues]

end PagerSplitting

end LRTables
