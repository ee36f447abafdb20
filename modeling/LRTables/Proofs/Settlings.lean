import LRTables.Proofs.Remakes

/-!
# Settled splits

While transitions are made again, every state that neither waits nor has lost
all its parents has passed its lookaheads on to the region, and no state
outside the region changes.
-/

namespace LRTables

namespace PagerSplitting

variable {grammar : Grammar} {first : FirstSets} {base : Automaton}
  {region : Region} {good : State → Prop} {pager : PagerSplitting}
  {number : Nat} {remaining : List (Symbol × Nat)}

/-- The state is the start or has a parent. -/
def Rooted (automaton : Automaton) (number : Nat) : Prop :=
  number = Automaton.start ∨ (automaton.state number).parents ≠ []

/-- What holds while some transitions of a state remain to be made again. -/
structure Settling (grammar : Grammar) (first : FirstSets)
    (good : State → Prop) (base : Automaton) (region : Region)
    (number : Nat) (remaining : List (Symbol × Nat))
    (pager : PagerSplitting) : Prop where
  kept : pager.splitting.Kept grammar first good base
  parented : pager.splitting.automaton.Parented
  original : ∀ other < pager.splitting.automaton.size,
    pager.splitting.automaton.prototype other < base.size
  complete : ∀ other < pager.splitting.automaton.size,
    region.contains (pager.splitting.automaton.prototype other) = true →
      other ∈ pager.splitting.families.copiesOf
        (pager.splitting.automaton.prototype other)
  outside : ∀ other < pager.splitting.automaton.size,
    region.contains (pager.splitting.automaton.prototype other) = false →
      pager.splitting.automaton.prototype other = other ∧
        (base.state other).Alike (pager.splitting.automaton.state other)
  waiting : ∀ other ∈ pager.queue.waiting,
    other < pager.splitting.automaton.size
  keyed : Ordered.Keyed remaining
  pending : ∀ edge ∈ remaining,
    (pager.splitting.automaton.state number).successor? edge.1 =
        some edge.2 ∧
      region.contains (pager.splitting.automaton.prototype edge.2) = true
  feeds : ∀ source symbol target,
    (pager.splitting.automaton.state source).successor? symbol =
        some target →
      region.contains (pager.splitting.automaton.prototype target) = true →
      source ∉ pager.queue.waiting →
      Rooted pager.splitting.automaton source →
      ¬ (source = number ∧ (symbol, target) ∈ remaining) →
        Automaton.Feeds grammar (pager.splitting.automaton.state source)
          symbol (pager.splitting.automaton.state target)

/-- A transition that feeds its target need not be made again. -/
theorem Settling.pass {edge : Symbol × Nat}
    (settling : Settling grammar first good base region number
      (edge :: remaining) pager)
    (feeds : Automaton.Feeds grammar
      (pager.splitting.automaton.state number) edge.1
      (pager.splitting.automaton.state edge.2)) :
    Settling grammar first good base region number remaining pager := by
  constructor
  · exact settling.kept
  · exact settling.parented
  · exact settling.original
  · exact settling.complete
  · exact settling.outside
  · exact settling.waiting
  · exact (List.nodup_cons.mp settling.keyed).2
  · intro other later
    exact settling.pending other (List.mem_cons_of_mem _ later)
  · intro source symbol target found inRegion quiet rooted made
    by_cases own : source = number ∧ (symbol, target) = edge
    · obtain ⟨rfl, rfl⟩ := own
      exact feeds
    · apply settling.feeds source symbol target found inRegion quiet rooted
      rintro ⟨same, member⟩
      rcases List.mem_cons.mp member with isEdge | later
      · exact own ⟨same, isEdge⟩
      · exact made ⟨same, later⟩

section Redirecting

variable {current target : Nat} {symbol : Symbol} {provided : Splitting}
  (settling : Settling grammar first good base region number
    ((symbol, current) :: remaining) pager)
  (supply : Provided grammar first good base
    ((pager.splitting.automaton.state number).successorCores grammar true
      symbol) current pager.splitting target provided)

include supply in
theorem lt_or_eq_redirect {other : Nat}
    (inside : other < (provided.automaton.relink number symbol target).size) :
    other < pager.splitting.automaton.size ∨ other = target := by
  rw [Automaton.size_relink] at inside
  exact supply.provides.lt_or_eq inside

include supply in
theorem alike_redirect {other : Nat}
    (inside : other < pager.splitting.automaton.size)
    (different : other ≠ target) :
    (pager.splitting.automaton.state other).Alike
      ((provided.automaton.relink number symbol target).state other) :=
  (supply.provides.alike inside different).trans
    (Automaton.alike_relink _ _ _ _)

include settling supply in
/-- When the transition has been redirected and the target waits, all other
states that need not wait feed their targets. -/
theorem Settling.feeds_redirect {source next : Nat} {scanned : Symbol}
    (found : ((provided.automaton.relink number symbol target).state
      source).successor? scanned = some next)
    (inRegion : region.contains
      ((provided.automaton.relink number symbol target).prototype next) = true)
    (quiet : source ∉ pager.queue.waiting) (notTarget : source ≠ target)
    (rooted : Rooted (provided.automaton.relink number symbol target) source)
    (made : ¬ (source = number ∧ (scanned, next) ∈ remaining)) :
    Automaton.Feeds grammar
      ((provided.automaton.relink number symbol target).state source) scanned
      ((provided.automaton.relink number symbol target).state next) := by
  have provides := supply.provides
  have framed := settling.kept.intact.framed
  obtain ⟨edge, -⟩ := settling.pending (symbol, current) List.mem_cons_self
  have providedInside := Nat.lt_of_lt_of_le
    (Automaton.lt_size_of_successor edge) supply.enlarges.size_le
  have enlarges := supply.enlarges.trans
    (provided.automaton.enlarges_relink number symbol target)
  have before := (lt_or_eq_redirect supply
    (Automaton.lt_size_of_successor found)).resolve_right notTarget
  have same := alike_redirect supply before notTarget
  rw [Automaton.successor?_relink providedInside] at found
  split at found
  · rename_i own
    obtain ⟨rfl, rfl⟩ := own
    cases found
    apply Collecting.feeds_of_arrives
    intro item terminal arrives
    obtain ⟨origin, has, scans, rfl⟩ :=
      State.arrives_successorCores.mp arrives
    rw [(Automaton.alike_relink _ _ _ _).hasContext_iff]
    apply supply.arrived
    exact State.arrives_successorCores.mpr
      ⟨origin, same.hasContext_iff.mp has, scans, rfl⟩
  · rename_i another
    rw [State.successor?_eq, provides.successors before,
      ← State.successor?_eq] at found
    have nextInside := framed.bounded _ _ _ found
    rw [enlarges.prototype next nextInside] at inRegion
    have rootedBefore : Rooted pager.splitting.automaton source := by
      rcases rooted with start | known
      · exact Or.inl start
      · refine Or.inr fun orphan => known ?_
        exact Automaton.parents_relink supply.target_lt notTarget
          (provides.orphan framed settling.parented before orphan)
    have feeds := settling.feeds source scanned next found inRegion quiet
      rootedBefore (by
        rintro ⟨rfl, member⟩
        rcases List.mem_cons.mp member with isEdge | later
        · cases isEdge
          exact another ⟨rfl, rfl⟩
        · exact made ⟨rfl, later⟩)
    intro item terminal has scans
    rw [(Automaton.alike_relink _ _ _ _).hasContext_iff]
    exact provides.grows nextInside
      (feeds item terminal (same.hasContext_iff.mp has) scans)

include settling supply in
/-- The transition is redirected to the target that was provided. -/
theorem Settling.redirect
    (kept : Splitting.Kept grammar first good base
      { provided with
        automaton := provided.automaton.relink number symbol target }) :
    Settling grammar first good base region number remaining
      { splitting :=
          { provided with
            automaton := provided.automaton.relink number symbol target }
        queue := pager.queue.push target } := by
  have provides := supply.provides
  have framed := settling.kept.intact.framed
  obtain ⟨edge, currentInRegion⟩ :=
    settling.pending (symbol, current) List.mem_cons_self
  have sourceInside := Automaton.lt_size_of_successor edge
  have providedInside := Nat.lt_of_lt_of_le sourceInside
    supply.enlarges.size_le
  have enlarges := supply.enlarges.trans
    (provided.automaton.enlarges_relink number symbol target)
  have original := settling.original current (framed.bounded _ _ _ edge)
  have redirected := provided.automaton.enlarges_relink number symbol target
  have targetPrototype :
      (provided.automaton.relink number symbol target).prototype target =
        pager.splitting.automaton.prototype current :=
    (redirected.prototype target supply.target_lt).trans supply.prototype
  constructor
  · exact kept
  · exact (provides.parented framed settling.parented).relink
      supply.kept.intact.framed providedInside supply.target_lt
  · intro other inside
    rcases lt_or_eq_redirect supply inside with before | rfl
    · rw [enlarges.prototype other before]
      exact settling.original other before
    · rw [targetPrototype]
      exact original
  · intro other inside inRegion
    rcases lt_or_eq_redirect supply inside with before | rfl
    · rw [enlarges.prototype other before] at inRegion ⊢
      exact provides.copiesOf_subset (settling.complete other before inRegion)
    · rw [targetPrototype] at inRegion ⊢
      rcases provides.target_mem with rfl | member
      · exact provides.copiesOf_subset (settling.complete _
          (framed.bounded _ _ _ edge) inRegion)
      · exact member
  · intro other inside apart
    have different : other ≠ target := by
      rintro rfl
      rw [targetPrototype, currentInRegion] at apart
      cases apart
    have before := (lt_or_eq_redirect supply inside).resolve_right different
    rw [enlarges.prototype other before] at apart ⊢
    obtain ⟨same, old⟩ := settling.outside other before apart
    exact ⟨same, old.trans (alike_redirect supply before different)⟩
  · intro other member
    rw [Automaton.size_relink]
    rcases WorkQueue.mem_push.mp member with waits | rfl
    · exact Nat.lt_of_lt_of_le (settling.waiting other waits)
        supply.enlarges.size_le
    · exact supply.target_lt
  · exact (List.nodup_cons.mp settling.keyed).2
  · intro other later
    obtain ⟨found, inRegion⟩ :=
      settling.pending other (List.mem_cons_of_mem _ later)
    have another : other.1 ≠ symbol := by
      rintro rfl
      exact (List.nodup_cons.mp settling.keyed).1
        (List.mem_map.mpr ⟨other, later, rfl⟩)
    constructor
    · dsimp only
      rw [Automaton.successor?_relink providedInside,
        if_neg fun both => another both.2, State.successor?_eq,
        provides.successors sourceInside]
      exact found
    · dsimp only
      rw [enlarges.prototype _ (framed.bounded _ _ _ found)]
      exact inRegion
  · intro source scanned next found inRegion quiet rooted made
    dsimp only at found inRegion quiet rooted ⊢
    rw [WorkQueue.mem_push, not_or] at quiet
    obtain ⟨quiet, notTarget⟩ := quiet
    exact settling.feeds_redirect supply found inRegion quiet notTarget rooted
      made

end Redirecting

/-- A state that is taken from the queue has its transitions into the region
made again. -/
theorem Settling.take {queue : WorkQueue Nat} {next : Nat}
    (settling : Settling grammar first good base region number [] pager)
    (popped : pager.queue.pop = some (next, queue)) :
    Settling grammar first good base region next
      ((pager.splitting.automaton.state next).successors.filter fun edge =>
        region.contains (pager.splitting.automaton.prototype edge.2))
      { pager with queue } := by
  have waits := WorkQueue.waiting_of_pop popped
  have keyed := settling.kept.intact.framed.keyed
  constructor
  · exact settling.kept
  · exact settling.parented
  · exact settling.original
  · exact settling.complete
  · exact settling.outside
  · intro other member
    apply settling.waiting other
    rw [waits]
    exact List.mem_cons_of_mem _ member
  · exact (keyed next).sublist (List.filter_sublist.map Prod.fst)
  · intro edge member
    obtain ⟨present, inRegion⟩ := List.mem_filter.mp member
    exact ⟨keyed.mem_successors.mp present, inRegion⟩
  · intro source symbol target found inRegion quiet rooted remains
    apply settling.feeds source symbol target found inRegion ?_ rooted
      nofun
    rw [waits, List.mem_cons, not_or]
    refine ⟨?_, quiet⟩
    rintro rfl
    exact remains ⟨rfl, List.mem_filter.mpr
      ⟨keyed.mem_successors.mpr found, inRegion⟩⟩

/-- A state that has lost all its parents is passed over. -/
theorem Settling.skip {queue : WorkQueue Nat} {next : Nat}
    (settling : Settling grammar first good base region number [] pager)
    (popped : pager.queue.pop = some (next, queue))
    (orphan : ¬ Rooted pager.splitting.automaton next) :
    Settling grammar first good base region next [] { pager with queue } := by
  have taken := settling.take popped
  constructor
  · exact settling.kept
  · exact settling.parented
  · exact settling.original
  · exact settling.complete
  · exact settling.outside
  · exact taken.waiting
  · exact List.nodup_nil
  · exact nofun
  · intro source symbol target found inRegion quiet rooted _
    apply taken.feeds source symbol target found inRegion quiet rooted
    rintro ⟨rfl, -⟩
    exact orphan rooted

section Steps

variable (wellFormed : grammar.WellFormed) (unused : grammar.GoalUnused)
  (exact : first.Exact grammar) (sustains : Sustains grammar first True good)

include wellFormed unused exact sustains in
/-- One transition is left alone or redirected, and the rest remains. -/
theorem Settling.remake_cases {current : Nat} {symbol : Symbol}
    (settling : Settling grammar first good base region number
      ((symbol, current) :: remaining) pager) :
    Settling grammar first good base region number remaining
        (remake grammar first number pager (symbol, current)) ∧
      (remake grammar first number pager (symbol, current) = pager ∨
        ∃ target provided,
          (pager.splitting.automaton.state current).covers
              ((pager.splitting.automaton.state number).successorCores grammar
                true symbol) = false ∧
          Provided grammar first good base
            ((pager.splitting.automaton.state number).successorCores grammar
              true symbol) current pager.splitting target provided ∧
          remake grammar first number pager (symbol, current) =
            { splitting :=
                { provided with
                  automaton :=
                    provided.automaton.relink number symbol target }
              queue := pager.queue.push target }) := by
  have edge := (settling.pending (symbol, current) List.mem_cons_self).1
  have fits := settling.kept.intact.framed.fits edge
  rcases PagerSplitting.remake_cases wellFormed unused exact sustains
    settling.kept edge with ⟨feeds, equal⟩ |
      ⟨target, provided, lacks, supply, equal⟩
  · rw [equal]
    exact ⟨settling.pass feeds, Or.inl rfl⟩
  · refine ⟨?_, Or.inr ⟨target, provided, lacks, supply, equal⟩⟩
    have kept := (@kept_remake grammar first base pager True good wellFormed
      unused exact sustains number (symbol, current) settling.kept fits).1
    rw [equal] at kept ⊢
    exact settling.redirect supply kept

end Steps

end PagerSplitting

end LRTables
