import LRTables.Proofs.FiniteSearches
import LRTables.Proofs.PlainCollections

/-!
# Searches without merges

A search that never merges expands every state once.  No transition is made
twice, so whatever has been reached stays reached, and a canonical search never
makes two states with the same core and the same contexts.
-/

namespace LRTables

namespace Automaton

variable {automaton : Automaton} {source target : Nat} {symbol : Symbol}

theorem Leads.relink (inside : source < automaton.size)
    (free : (automaton.state source).successor? symbol = none)
    {word : List Symbol} {number : Nat}
    (leads : automaton.Leads word number) :
    (automaton.relink source symbol target).Leads word number := by
  induction leads with
  | start => exact .start
  | step _ edge ih =>
      apply ih.step
      rw [successor?_relink inside]
      split
      · rename_i own
        obtain ⟨rfl, rfl⟩ := own
        rw [free] at edge
        cases edge
      · exact edge

end Automaton

namespace Collecting

variable {grammar : Grammar} {first : FirstSets} {precision : Precision}
  {collecting : Collecting}

/-- All states have been reached, and those that wait have not been expanded
before. -/
structure Unfolding (collecting : Collecting) : Prop where
  reached : ∀ number < collecting.automaton.size,
    ∃ word, collecting.automaton.Leads word number
  fresh : ∀ number ∈ collecting.queue.waiting, ¬ collecting.Expanded number

/-- The transitions that are still to be made from a state. -/
structure Open (source : Nat) (pending : List Symbol)
    (collecting : Collecting) : Prop extends collecting.Unfolding where
  nodup : pending.Nodup
  free : ∀ symbol ∈ pending,
    (collecting.automaton.state source).successor? symbol = none

theorem expanded_taken {queue : WorkQueue Nat} {number other : Nat}
    (expanded : (collecting.taken queue number).Expanded other) :
    other = number ∨ collecting.Expanded other := by
  by_cases same : other = number
  · exact Or.inl same
  · right
    simpa [taken, Expanded, Array.getD_eq_getD_getElem?,
      Array.getElem?_setIfInBounds, Ne.symm same] using expanded

theorem Unfolding.take {good : State → Prop} {queue : WorkQueue Nat}
    {number : Nat} (unfolding : collecting.Unfolding)
    (resting : collecting.Resting grammar first precision good)
    (popped : collecting.queue.pop = some (number, queue)) :
    Open number ((collecting.automaton.state number).scannedSymbols grammar)
      (collecting.taken queue number) := by
  have waiting := WorkQueue.waiting_of_pop popped
  have waits : number ∈ collecting.queue.waiting :=
    waiting ▸ List.mem_cons_self
  have inside := resting.consistent.waiting_lt number waits
  have bare := (resting.consistent.unexpanded number inside
    (unfolding.fresh number waits)).2
  have distinct : number ∉ queue.waiting := by
    have nodup := collecting.queue.nodup
    rw [waiting] at nodup
    exact (List.nodup_cons.mp nodup).1
  constructor
  · constructor
    · exact unfolding.reached
    · intro other member expanded
      rcases expanded_taken expanded with rfl | before
      · exact distinct member
      · exact unfolding.fresh other
          (waiting ▸ List.mem_cons_of_mem _ member) before
  · exact State.nodup_scannedSymbols grammar _
  · intro symbol _
    show (collecting.automaton.state number).successor? symbol = none
    rw [State.successor?, bare]
    rfl

section Steps

variable {source target : Nat} {symbol : Symbol} {pending : List Symbol}
  {provided : Collecting}

/-- Without merges a target is one of the old states or a new one that
waits. -/
theorem Provides.cases_of_unmerged (unmerged : precision ≠ .pager)
    (provides : Provides grammar first precision source symbol collecting
      target provided) :
    provided = collecting ∨
      target = collecting.automaton.size ∧
        provided =
          { automaton := collecting.automaton.add
              (freshState grammar first precision
                (collecting.automaton.state source) symbol)
            queue := collecting.queue.push collecting.automaton.size
            expanded := collecting.expanded.push false } := by
  cases provides with
  | kept => exact Or.inl rfl
  | joined _ _ _ pager => exact absurd pager unmerged
  | fresh => exact Or.inr ⟨rfl, rfl⟩

theorem expanded_push {other : Nat}
    (sizes : collecting.expanded.size = collecting.automaton.size)
    {automaton : Automaton} {queue : WorkQueue Nat}
    (expanded : Expanded
      { automaton
        queue
        expanded := collecting.expanded.push false } other) :
    other ≠ collecting.automaton.size ∧ collecting.Expanded other := by
  simp only [Expanded, Array.getD_eq_getD_getElem?, Array.getElem?_push]
    at expanded ⊢
  split at expanded
  · cases expanded
  · rename_i different
    exact ⟨sizes ▸ different, expanded⟩

theorem Open.link (isOpen : Open source (symbol :: pending) collecting)
    (unmerged : precision ≠ .pager)
    (sizes : collecting.expanded.size = collecting.automaton.size)
    (inside : source < collecting.automaton.size)
    (provides : Provides grammar first precision source symbol collecting
      target provided) :
    Open source pending
      { provided with
        automaton := provided.automaton.relink source symbol target } := by
  have nodup := List.nodup_cons.mp isOpen.nodup
  -- What is provided has the old paths and transitions.
  have before : source < provided.automaton.size ∧
      (∀ symbol, (provided.automaton.state source).successor? symbol =
        (collecting.automaton.state source).successor? symbol) ∧
      (∀ word number, collecting.automaton.Leads word number →
        provided.automaton.Leads word number) ∧
      (∀ number < provided.automaton.size,
        number < collecting.automaton.size ∨ number = target) ∧
      ∀ number ∈ provided.queue.waiting, ¬ provided.Expanded number := by
    rcases provides.cases_of_unmerged unmerged with rfl | ⟨rfl, rfl⟩
    · exact ⟨inside, fun _ => rfl, fun _ _ leads => leads,
        fun _ member => Or.inl member, isOpen.fresh⟩
    · refine ⟨?_, ?_, fun _ _ => leads_add, ?_, ?_⟩
      · rw [Automaton.size_add]
        exact Nat.lt_succ_of_lt inside
      · intro symbol
        rw [Automaton.state_add_of_lt inside]
      · intro number member
        exact Automaton.lt_or_eq_of_lt_size_add member
      · intro number member expanded
        obtain ⟨old, known⟩ := expanded_push sizes expanded
        exact isOpen.fresh number
          ((WorkQueue.mem_push.mp member).resolve_right old) known
  obtain ⟨providedInside, edges, leads, cases, fresh⟩ := before
  have free := (edges symbol).trans (isOpen.free symbol List.mem_cons_self)
  constructor
  · constructor
    · intro number member
      dsimp only at member ⊢
      rw [Automaton.size_relink] at member
      rcases cases number member with old | rfl
      · obtain ⟨word, path⟩ := isOpen.reached number old
        exact ⟨word, (leads word number path).relink providedInside free⟩
      · obtain ⟨word, path⟩ := isOpen.reached source inside
        refine ⟨word ++ [symbol],
          .step ((leads word source path).relink providedInside free) ?_⟩
        rw [Automaton.successor?_relink providedInside, if_pos ⟨rfl, rfl⟩]
    · exact fresh
  · exact nodup.2
  · intro other later
    have different : other ≠ symbol := by
      rintro rfl
      exact nodup.1 later
    dsimp only
    rw [Automaton.successor?_relink providedInside,
      if_neg fun same => different same.2, edges]
    exact isOpen.free other (List.mem_cons_of_mem _ later)

end Steps

/-- A search without merges keeps its invariant and all that it has reached. -/
theorem invariant_unfolding (wellFormed : grammar.WellFormed)
    (unused : grammar.GoalUnused) (exact : first.Exact grammar)
    (unmerged : precision ≠ .pager) {good : State → Prop}
    (keeps : Keeps grammar first precision good) :
    Invariant grammar first precision
      (fun collecting => collecting.Resting grammar first precision good ∧
        collecting.Unfolding)
      (fun source pending collecting =>
        collecting.Expanding grammar first precision good source pending ∧
          Open source pending collecting) := by
  constructor
  · intro collecting number queue popped holds
    exact ⟨holds.1.take popped, holds.2.take holds.1 popped⟩
  · intro collecting source symbol pending holds
    obtain ⟨expanding, isOpen⟩ := holds
    obtain ⟨target, provided, provides, equal, -, -, after⟩ :=
      expanding.addTransition wellFormed unused exact keeps
    refine ⟨after, ?_⟩
    rw [equal]
    exact isOpen.link unmerged expanding.consistent.sizes expanding.source_lt
      provides
  · intro collecting source holds
    exact ⟨holds.1.rest, holds.2.toUnfolding⟩

theorem unfolding_begin :
    (begin grammar first precision).Unfolding := by
  have size : (begin grammar first precision).automaton.size = 1 := rfl
  constructor
  · intro number inside
    rw [size, Nat.lt_one_iff] at inside
    exact ⟨[], inside ▸ .start⟩
  · intro number waits expanded
    rw [begin_eq] at waits
    rcases WorkQueue.mem_push.mp waits with old | rfl
    · cases old
    · cases expanded

end Collecting

namespace Automaton

variable {grammar : Grammar} {first : FirstSets} {precision : Precision}
  {automaton : Automaton} (wellFormed : grammar.WellFormed)
  (unused : grammar.GoalUnused) (exact : first.Exact grammar)

include wellFormed unused exact in
theorem reached_of_collect? (unmerged : precision ≠ .pager)
    (result : collect? grammar first precision = some automaton) :
    ∀ number < automaton.size, ∃ word, automaton.Leads word number := by
  have keeps := @Collecting.keeps_entered grammar first precision wellFormed
    unused exact
  rw [collect?, Option.map_eq_some_iff] at result
  obtain ⟨whole, found, rfl⟩ := result
  obtain ⟨final, ⟨resting, unfolding⟩, -, rfl⟩ :=
    (Collecting.invariant_unfolding wellFormed unused exact unmerged keeps).run
      ⟨Collecting.resting_begin wellFormed unused exact keeps,
        Collecting.unfolding_begin⟩ found
  intro number inside
  rw [size_detach] at inside
  obtain ⟨word, leads⟩ := unfolding.reached number inside
  exact ⟨word, resting.consistent.framed.leads_detach.mpr leads⟩

/-- No two states have the same core and the same contexts there. -/
def ContextsApart (automaton : Automaton) : Prop :=
  ∀ one < automaton.size, ∀ other < automaton.size,
    (automaton.state one).coreItems = (automaton.state other).coreItems →
    (automaton.state one).coreContexts =
      (automaton.state other).coreContexts → one = other

theorem State.hasContext_of_coreContexts_eq {one other : State}
    (regular : one.Regular grammar) (otherRegular : other.Regular grammar)
    (items : one.coreItems = other.coreItems)
    (contexts : one.coreContexts = other.coreContexts) {item : Item}
    (core : item ∈ one.coreItems) {terminal : Nat} :
    one.HasContext item terminal ↔ other.HasContext item terminal := by
  have self : other.Matches grammar other.cores := ⟨otherRegular, rfl⟩
  have matching : one.Matches grammar other.cores := ⟨regular, items⟩
  rw [(State.coreContexts_eq_iff matching.aligned).mp contexts item core
      terminal,
    (State.coreContexts_eq_iff self.aligned).mp rfl item (items ▸ core)
      terminal]

include wellFormed unused exact in
/-- A canonical search tells its states apart by their contexts. -/
theorem contextsApart_of_collect?
    (result : collect? grammar first .canonical = some automaton) :
    automaton.ContextsApart := by
  have regular := (collected_of_collect? wellFormed unused exact
    (Collecting.keeps_bounded wellFormed unused exact) result).framed.regular
  rw [collect?, Option.map_eq_some_iff] at result
  obtain ⟨whole, found, rfl⟩ := result
  obtain ⟨final, ⟨-, made, distinguished⟩, -, rfl⟩ :=
    Collecting.searching_of_run wellFormed exact found
  have kept := distinguished.alike size_detach alike_detach
  intro one oneInside other otherInside items contexts
  by_contra different
  obtain ⟨item, core, terminal, differs⟩ :=
    kept.apart one oneInside other otherInside different items
  apply differs
  have isMade {number : Nat} (inside : number <
        final.automaton.detachUnreachable.size)
      (present : item ∈
        (final.automaton.detachUnreachable.state number).coreItems) :
      made number item terminal ↔
        (final.automaton.detachUnreachable.state number).HasContext item
          terminal :=
    ⟨kept.within number inside item terminal,
      kept.whole rfl number inside item present terminal⟩
  rw [isMade oneInside core, isMade otherInside (items ▸ core)]
  exact State.hasContext_of_coreContexts_eq (regular one oneInside)
    (regular other otherInside) items contexts core

end Automaton

end LRTables
