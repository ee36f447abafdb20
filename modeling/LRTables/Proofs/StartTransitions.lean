import LRTables.Proofs.ItemOrder

/-!
# Transitions of the start state

A search expands the start state first and never again.  No state has the core
of one of its successors yet, so that they are numbered in the order in which
the start state scans their symbols, whether states are merged later or not.
-/

namespace LRTables

theorem State.scannedSymbols_congr {grammar : Grammar} {one other : State}
    (same : other.items = one.items) :
    other.scannedSymbols grammar = one.scannedSymbols grammar := by
  have listed (state : State) : state.scannedSymbols grammar =
      (state.items.filterMap fun item =>
        item.scanned grammar).foldl Ordered.insert [] := by
    rw [scannedSymbols, items, List.filterMap_map]
    rfl
  rw [listed, listed, same]

namespace State

variable {grammar : Grammar} {state : State} {symbol scanned : Symbol}

theorem goal_not_mem_successorItems :
    Item.goal ∉ state.successorItems grammar symbol := by
  intro member
  obtain ⟨origin, -, -, advanced⟩ := mem_successorItems.mp member
  cases congrArg Item.dot advanced

end State

namespace Collecting

open Automaton

variable {grammar : Grammar} {first : FirstSets} {precision : Precision}
  {collecting : Collecting} {good : State → Prop}

/-- The start state has transitions on the symbols, in order, to the states
that come first. -/
def Seats (symbols : List Symbol) (automaton : Automaton) : Prop :=
  ∀ index symbol, symbols[index]? = some symbol →
    (automaton.state start).successor? symbol = some (index + 1)

section Steps

variable {source target : Nat} {symbol : Symbol} {pending : List Symbol}
  {provided : Collecting} (wellFormed : grammar.WellFormed)
  (unused : grammar.GoalUnused) (exact : first.Exact grammar)

include wellFormed unused exact in
theorem Provides.successor?_eq
    (allGood : collecting.AllGood grammar first precision good)
    (provides : Provides grammar first precision source symbol collecting
      target provided) (number : Nat) (scanned : Symbol) :
    (provided.automaton.state number).successor? scanned =
      (collecting.automaton.state number).successor? scanned := by
  cases provides with
  | kept => rfl
  | joined _ inside matching =>
      exact (sameFrame_joined wellFormed unused exact allGood.weaken inside
        matching).successor?_eq number scanned
  | fresh => exact successor?_add successors_freshState number scanned

theorem Provides.core_of_lt
    (provides : Provides grammar first precision source symbol collecting
      target provided) (inside : target < collecting.automaton.size) :
    (collecting.automaton.state target).coreItems =
      (collecting.automaton.state source).successorItems grammar symbol := by
  cases provides with
  | kept _ _ matching => exact items_of_matches matching
  | joined _ _ matching => exact items_of_matches matching
  | fresh => exact absurd inside (Nat.lt_irrefl _)

theorem Provides.size_of_not_lt
    (provides : Provides grammar first precision source symbol collecting
      target provided) (fresh : ¬ target < collecting.automaton.size) :
    target = collecting.automaton.size ∧
      provided.automaton.size = collecting.automaton.size + 1 := by
  cases provides with
  | kept _ inside => exact absurd inside fresh
  | joined _ inside => exact absurd inside fresh
  | fresh => exact ⟨rfl, size_add _⟩

theorem Provides.ne_start
    (provides : Provides grammar first precision source symbol collecting
      target provided)
    (framed : collecting.automaton.Framed grammar) : target ≠ start := by
  rintro rfl
  have core := provides.core_of_lt framed.positive
  rw [framed.start] at core
  exact State.goal_not_mem_successorItems (core ▸ List.mem_singleton_self _)

theorem Provides.waiting
    (provides : Provides grammar first precision source symbol collecting
      target provided) {number : Nat}
    (waits : number ∈ provided.queue.waiting) :
    number ∈ collecting.queue.waiting ∨ number = target := by
  cases provides with
  | kept => exact Or.inl waits
  | joined =>
      dsimp only at waits
      split at waits
      · exact WorkQueue.mem_push.mp waits
      · exact Or.inl waits
  | fresh => exact WorkQueue.mem_push.mp waits

/-- While the start state is expanded, every target is new. -/
theorem Provides.not_lt_of_seats {made : List Symbol}
    (provides : Provides grammar first precision start symbol collecting
      target provided)
    (framed : collecting.automaton.Framed grammar)
    (scans : symbol ∈
      (collecting.automaton.state start).scannedSymbols grammar)
    (seats : Seats made collecting.automaton)
    (size : collecting.automaton.size = made.length + 1)
    (new : symbol ∉ made) : ¬ target < collecting.automaton.size := by
  intro inside
  have core := provides.core_of_lt inside
  obtain ⟨index, rfl⟩ :=
    Nat.exists_eq_add_one_of_ne_zero (provides.ne_start framed)
  have bound : index < made.length := by omega
  have edge := seats index made[index] (List.getElem?_eq_getElem bound)
  have same : made[index] = symbol :=
    State.eq_of_successorItems_eq scans ((framed.edges _ _ _ edge).symm.trans
      core)
  exact new (same ▸ List.getElem_mem bound)

end Steps

/-- The symbols that the start state scans. -/
def startSymbols (grammar : Grammar) (first : FirstSets)
    (precision : Precision) : List Symbol :=
  (startState grammar first precision).scannedSymbols grammar

/-- Which transitions the start state has while a state is expanded.  If it is
expanded itself, there are no states but those to which they lead. -/
inductive Seating (grammar : Grammar) (first : FirstSets)
    (precision : Precision) (automaton : Automaton) :
    Nat → List Symbol → Prop where
  | start {made pending : List Symbol} :
      made ++ pending = startSymbols grammar first precision →
      automaton.size = made.length + 1 → Seats made automaton →
      Seating grammar first precision automaton Automaton.start pending
  | later {source : Nat} {pending : List Symbol} : source ≠ Automaton.start →
      Seats (startSymbols grammar first precision) automaton →
      Seating grammar first precision automaton source pending

/-- The start state is about to be expanded, or all its transitions are made
and it does not wait. -/
def Seated (grammar : Grammar) (first : FirstSets) (precision : Precision)
    (collecting : Collecting) : Prop :=
  collecting = begin grammar first precision ∨
    start ∉ collecting.queue.waiting ∧
      Seats (startSymbols grammar first precision) collecting.automaton

theorem Seated.take {queue : WorkQueue Nat} {number : Nat}
    (seated : collecting.Seated grammar first precision)
    (popped : collecting.queue.pop = some (number, queue)) :
    start ∉ queue.waiting ∧
      Seating grammar first precision collecting.automaton number
        ((collecting.automaton.state number).scannedSymbols grammar) := by
  have waiting := WorkQueue.waiting_of_pop popped
  rcases seated with rfl | ⟨quiet, seats⟩
  · have only : [start] = number :: queue.waiting := waiting
    obtain ⟨rfl, rest⟩ := List.cons.inj only
    rw [← rest]
    have seats : Seats [] (begin grammar first precision).automaton := by
      intro index symbol none
      cases none
    exact ⟨List.not_mem_nil, .start rfl rfl seats⟩
  · rw [waiting, List.mem_cons, not_or] at quiet
    exact ⟨quiet.2, .later (Ne.symm quiet.1) seats⟩

/-- A new target of the start state is numbered next. -/
theorem Seats.snoc {made : List Symbol} {automaton : Automaton}
    {symbol : Symbol} {target : Nat} (seats : Seats made automaton)
    (inside : start < automaton.size) (next : target = made.length + 1)
    (new : symbol ∉ made) :
    Seats (made ++ [symbol]) (automaton.relink start symbol target) := by
  intro index scanned found
  rw [successor?_relink inside]
  rcases Nat.lt_or_ge index made.length with before | after
  · rw [List.getElem?_append_left before] at found
    have different : scanned ≠ symbol :=
      fun same => new (same ▸ List.mem_of_getElem? found)
    rw [if_neg (fun both => different both.2)]
    exact seats index scanned found
  · rw [List.getElem?_append_right after] at found
    obtain ⟨bound, rfl⟩ := List.getElem?_eq_some_iff.mp found
    have last : index = made.length := by
      rw [List.length_singleton] at bound
      omega
    subst last next
    rw [if_pos ⟨rfl, by simp⟩]

/-- The search keeps its invariant, and the start state stays seated. -/
theorem invariant_seated (wellFormed : grammar.WellFormed)
    (unused : grammar.GoalUnused) (exact : first.Exact grammar)
    (keeps : Keeps grammar first precision good) :
    Invariant grammar first precision
      (fun collecting => collecting.Resting grammar first precision good ∧
        collecting.Seated grammar first precision)
      (fun source pending collecting =>
        collecting.Expanding grammar first precision good source pending ∧
          start ∉ collecting.queue.waiting ∧
          Seating grammar first precision collecting.automaton source
            pending) := by
  constructor
  · rintro collecting number queue popped ⟨resting, seated⟩
    exact ⟨resting.take popped, seated.take popped⟩
  · rintro collecting source symbol pending ⟨expanding, quiet, seating⟩
    obtain ⟨target, provided, provides, equal, before, ready, after⟩ :=
      expanding.addTransition wellFormed unused exact keeps
    have framed := expanding.consistent.framed
    have same := provides.successor?_eq wellFormed unused exact
      expanding.allGood
    refine ⟨after, ?_⟩
    rw [equal]
    constructor
    · intro waits
      rcases provides.waiting waits with old | isTarget
      · exact quiet old
      · exact provides.ne_start framed isTarget.symm
    · cases seating with
      | @start made _ whole size seats =>
          have nodup : (made ++ symbol :: pending).Nodup :=
            whole ▸ State.nodup_scannedSymbols grammar _
          have new : symbol ∉ made := fun old =>
            (List.nodup_append.mp nodup).2.2 symbol old symbol
              List.mem_cons_self rfl
          have fresh := provides.not_lt_of_seats framed
            (expanding.scans symbol List.mem_cons_self) seats size new
          obtain ⟨isNext, grown⟩ := provides.size_of_not_lt fresh
          have later := Seats.snoc (fun index scanned found => by
            rw [same]
            exact seats index scanned found) ready.source_lt
              (isNext.trans size) new
          refine .start ?_ ?_ later
          · rw [List.append_assoc]
            exact whole
          · dsimp only
            rw [size_relink, grown, size, List.length_append]
            rfl
      | later different seats =>
          refine .later different ?_
          intro index scanned found
          dsimp only
          rw [successor?_relink ready.source_lt,
            if_neg (fun both => different both.1.symm), same]
          exact seats index scanned found
  · rintro collecting source ⟨expanding, quiet, seating⟩
    refine ⟨expanding.rest, Or.inr ⟨quiet, ?_⟩⟩
    cases seating with
    | start whole size seats =>
        rw [List.append_nil] at whole
        exact whole ▸ seats
    | later _ seats => exact seats

end Collecting

namespace Automaton

variable {grammar : Grammar} {first : FirstSets} {precision : Precision}
  {automaton : Automaton} (wellFormed : grammar.WellFormed)
  (unused : grammar.GoalUnused) (exact : first.Exact grammar)

include wellFormed unused exact in
/-- The targets of the start state are numbered in the order of their
symbols. -/
theorem seats_of_collect?
    (result : collect? grammar first precision = some automaton) :
    Collecting.Seats (Collecting.startSymbols grammar first precision)
      automaton := by
  have keeps : Collecting.Keeps grammar first precision
      (State.Sound grammar first precision) :=
    Collecting.keeps_sound wellFormed unused exact
  rw [collect?, Option.map_eq_some_iff] at result
  obtain ⟨whole, found, rfl⟩ := result
  obtain ⟨final, ⟨resting, seated⟩, served, rfl⟩ :=
    (Collecting.invariant_seated wellFormed unused exact keeps).run
      ⟨Collecting.resting_begin wellFormed unused exact keeps, Or.inl rfl⟩
      found
  have seats : Collecting.Seats
      (Collecting.startSymbols grammar first precision) final.automaton := by
    rcases seated with rfl | ⟨-, seats⟩
    · cases served
    · exact seats
  have framed := resting.consistent.framed
  intro index symbol found
  rw [successor?_detach, if_pos (framed.reachable_iff.mpr ⟨[], .start⟩)]
  exact seats index symbol found

include wellFormed exact in
theorem Collected.startSymbols_eq
    (collected : automaton.Collected grammar first precision
      (State.Unrolled grammar)) (other : Precision) :
    Collecting.startSymbols grammar first other =
      (automaton.state Automaton.start).scannedSymbols grammar := by
  have framed := collected.framed
  have begins : (Collecting.startState grammar first other).Unrolled grammar :=
    State.unrolled_close_ofCores wellFormed exact _ _ _
  apply State.scannedSymbols_congr
  apply begins.items_eq (collected.states _ framed.positive).2
  rw [framed.start]
  exact Collecting.coreItems_startState

include wellFormed unused exact in
/-- At every precision the start state has the same transitions. -/
theorem successor?_start_eq {level : Precision} {other : Automaton}
    (result : collect? grammar first precision = some automaton)
    (too : collect? grammar first level = some other) (symbol : Symbol) :
    (automaton.state Automaton.start).successor? symbol =
      (other.state Automaton.start).successor? symbol := by
  have unrolled {precision : Precision} {automaton : Automaton}
      (result : collect? grammar first precision = some automaton) :=
    collected_of_collect? wellFormed unused exact
      (Collecting.keeps_unrolled wellFormed unused exact) result
  have one := unrolled result
  have two := unrolled too
  have symbols := (one.startSymbols_eq wellFormed exact precision).trans
    ((one.startSymbols_eq wellFormed exact level).symm)
  by_cases scans : symbol ∈ Collecting.startSymbols grammar first precision
  · obtain ⟨index, found⟩ := List.mem_iff_getElem?.mp scans
    rw [seats_of_collect? wellFormed unused exact result index symbol found,
      seats_of_collect? wellFormed unused exact too index symbol
        (symbols ▸ found)]
  · have bare {automaton : Automaton} {precision : Precision}
        (collected : automaton.Collected grammar first precision
          (State.Unrolled grammar)) (other : Precision)
        (absent : symbol ∉ Collecting.startSymbols grammar first other) :
        (automaton.state Automaton.start).successor? symbol = none := by
      rw [collected.startSymbols_eq wellFormed exact other] at absent
      exact Option.eq_none_iff_forall_ne_some.mpr fun target edge =>
        absent (collected.framed.scanned _ _ target edge)
    rw [bare one precision scans, bare two precision scans]

end Automaton

end LRTables
