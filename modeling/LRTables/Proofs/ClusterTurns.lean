import LRTables.Proofs.ClusterGrowth
import LRTables.Proofs.FreshCopies
import LRTables.Proofs.Rivals

/-!
# What a lane of a cluster does

A transition of a cluster is led to a copy that takes in what arrives.  Only
that copy changes, and if it does, it waits.  No overlap comes about in it that
matters on the lanes, unless there was one before or one arrives.
-/

namespace LRTables

theorem joinsApart_iff {terminals : TerminalSet}
    {here there : TerminalSet × TerminalSet} :
    joinsApart terminals here there = true ↔
      ∀ terminal ∈ terminals, (terminal ∈ here.1 ∨ terminal ∈ here.2) →
        (terminal ∈ there.1 ∨ terminal ∈ there.2) →
          terminal ∈ here.1 ∧ terminal ∈ there.1 ∨
            terminal ∈ here.2 ∧ terminal ∈ there.2 := by
  rw [joinsApart, TerminalSet.isSubset_iff]
  simp only [TerminalSet.mem_inter, TerminalSet.mem_union]
  constructor
  · intro apart terminal listed left right
    exact apart terminal ⟨⟨left, right⟩, listed⟩
  · rintro apart terminal ⟨⟨left, right⟩, listed⟩
    exact apart terminal listed left right

theorem joinsApart_symm {terminals : TerminalSet}
    {here there : TerminalSet × TerminalSet}
    (apart : joinsApart terminals here there = true) :
    joinsApart terminals there here = true := by
  rw [joinsApart_iff] at *
  intro terminal listed left right
  exact (apart terminal listed right left).imp And.symm And.symm

theorem joinable_iff {terminals : TerminalSet}
    {entries : List (TerminalSet × TerminalSet)} :
    joinable terminals entries = true ↔ entries.Pairwise fun here there =>
      joinsApart terminals here there = true := by
  induction entries with
  | nil => simp [joinable]
  | cons entry rest ih =>
      rw [joinable, Bool.and_eq_true, List.all_eq_true, ih, List.pairwise_cons]

namespace State

variable {grammar : Grammar} {first : FirstSets} {state : State}
  {cores : List Configuration} {terminals : TerminalSet}

/-- What arrives can be joined if on the given terminals core items overlap only
where they do so already, or where what arrives does. -/
theorem canJoin_iff (aligned : state.Aligned cores) :
    state.canJoin terminals cores = true ↔
      ∀ here ∈ state.coreItems, ∀ there ∈ state.coreItems, here ≠ there →
        ∀ terminal ∈ terminals,
          (state.HasContext here terminal ∨ Arrives cores here terminal) →
            (state.HasContext there terminal ∨
                Arrives cores there terminal) →
              state.HasContext here terminal ∧
                  state.HasContext there terminal ∨
                Arrives cores here terminal ∧
                  Arrives cores there terminal := by
  rw [canJoin, joinable_iff]
  apply aligned.pairwise_zip_iff
  · exact fun _ _ => joinsApart_symm
  · intro left right leftInside rightInside
    rw [joinsApart_iff]
    simp only [aligned.hasContext_iff leftInside,
      aligned.hasContext_iff rightInside, aligned.arrives_iff leftInside,
      aligned.arrives_iff rightInside]

/-- There are no lookaheads at the core, but for that of the goal. -/
def Blank (state : State) : Prop :=
  ∀ item ∈ state.coreItems, ∀ terminal, state.HasContext item terminal →
    item = .goal

theorem Blank.alike {old new : State} (alike : old.Alike new)
    (blank : old.Blank) : new.Blank := by
  intro item core terminal has
  rw [alike.sameItems.coreItems] at core
  exact blank item core terminal (alike.hasContext_iff.mp has)

theorem blank_resetContexts (wellFormed : grammar.WellFormed)
    (unused : grammar.GoalUnused) (regular : state.Regular grammar) :
    (state.resetContexts grammar first).Blank := by
  intro item core terminal has
  rw [coreItems_resetContexts regular] at core
  exact (eq_goal_of_resetContexts wellFormed unused regular core has).1

theorem Blank.grounded {matters : Item → Item → Prop} (blank : state.Blank)
    (hereditary : grammar.Hereditary matters)
    (evident : state.Evident grammar) : state.Grounded grammar matters := by
  apply evident.snug.grounded hereditary evident.attested
  intro here hereMember there thereMember different _ terminal hasHere hasThere
  exact absurd ((blank here hereMember terminal hasHere).trans
    (blank there thereMember terminal hasThere).symm) different

/-- Overlaps that matter stay grounded if they are confined to terminals on
which the join brings no new one. -/
theorem Joined.grounded_of_canJoin {matters : Item → Item → Prop}
    (wellFormed : grammar.WellFormed) (unused : grammar.GoalUnused)
    (hereditary : grammar.Hereditary matters) {source old new : State}
    {symbol : Symbol}
    (joined : Joined grammar first
      (source.successorCores grammar true symbol) old new)
    (matching : old.Matches grammar
      (source.successorCores grammar true symbol))
    (takes : old.canJoin terminals
        (source.successorCores grammar true symbol) = true ∨ old.Blank)
    (moved : .goal ∉ old.coreItems)
    (confined : ∀ here there, matters here there → ∀ terminal,
      new.HasContext here terminal → new.HasContext there terminal →
        terminal ∈ terminals)
    (regular : source.Regular grammar) (closed : source.ItemsClosed grammar)
    (sourceGrounded : source.Grounded grammar matters)
    (attested : new.Attested grammar)
    (grounded : old.Grounded grammar matters) :
    new.Grounded grammar matters := by
  refine joined.grounded_of_overlaps wellFormed unused hereditary matching ?_
    regular closed sourceGrounded attested grounded
  intro here hereMember there thereMember different matter terminal hasHere
    hasThere
  have hereKernel := (matching.regular.mem_coreItems.mp hereMember).2
  have thereKernel := (matching.regular.mem_coreItems.mp thereMember).2
  have left := (joined.core here terminal hereKernel).mp hasHere
  have right := (joined.core there terminal thereKernel).mp hasThere
  rcases takes with joins | blank
  · exact ((canJoin_iff matching.aligned).mp joins here hereMember there
      thereMember different terminal
      (confined here there matter terminal hasHere hasThere) left right).imp
        (fun both => ⟨terminal, both⟩) fun both => ⟨terminal, both⟩
  · have none {item : Item} (core : item ∈ old.coreItems) :
        ¬ old.HasContext item terminal := fun has =>
      moved (blank item core terminal has ▸ core)
    exact Or.inr ⟨terminal, left.resolve_left (none hereMember),
      right.resolve_left (none thereMember)⟩

end State

namespace ClusterSplitting

open Automaton Splitting

variable {grammar : Grammar} {first : FirstSets} {base : Automaton}
  {region : Region} {growing old new : ClusterSplitting}
  {good : State → Prop} {source current prototype target : Nat}
  {symbol : Symbol} {splitting : Splitting} {incoming : List Configuration}

/-- A copy waits if the transition is new to it or it lacked something. -/
theorem mem_queued {queue : WorkQueue Nat} {number : Nat} :
    number ∈ (queued grammar first queue splitting current target
        incoming).waiting ↔
      number ∈ queue.waiting ∨ number = target ∧ (target ≠ current ∨
        (splitting.automaton.state target).covers incoming = false) := by
  unfold queued
  dsimp only
  cases covers : (splitting.automaton.state target).covers incoming with
  | true =>
      rw [absorb_of_covers covers, if_neg Bool.false_ne_true]
      split
      · rename_i same
        simp [same]
      · rename_i moved
        simp [moved, WorkQueue.mem_push]
  | false =>
      rw [absorb_of_not_covers covers, if_pos rfl]
      split
      · simp [WorkQueue.mem_push]
      · simp [WorkQueue.mem_push]

/-- The old states stay what they are, and a copy is made only if all others
lack something. -/
theorem choose_keeps
    (result : choose grammar first region growing prototype incoming =
      (target, splitting)) :
    (∀ number < splitting.automaton.size,
      number < growing.splitting.automaton.size ∨ number = target ∧
        ∀ copy ∈ growing.splitting.families.copiesOf prototype,
          (growing.splitting.automaton.state copy).covers incoming = false) ∧
    ∀ number < growing.splitting.automaton.size,
      (growing.splitting.automaton.state number).Alike
          (splitting.automaton.state number) ∧
        (splitting.automaton.state number).successors =
          (growing.splitting.automaton.state number).successors := by
  rcases choose_cases result with ⟨rfl, -, -⟩ | ⟨rfl, rfl, lacking⟩
  · exact ⟨fun _ => Or.inl, fun _ _ => ⟨.refl _, rfl⟩⟩
  · constructor
    · intro number inside
      rw [size_clone] at inside
      exact (Nat.lt_succ_iff_lt_or_eq.mp inside).imp_right
        fun isNew => ⟨isNew, lacking⟩
    · intro number inside
      rw [automaton_clone, state_modify_ne (Nat.ne_of_lt inside)]
      exact ⟨alike_clone inside, successors_clone inside⟩

/-- How the transition on a symbol is led from a state to a copy. -/
structure Follows (grammar : Grammar) (source : Nat) (symbol : Symbol)
    (prototype target : Nat) (old new : ClusterSplitting) : Prop where
  enlarges : old.splitting.automaton.Enlarges new.splitting.automaton
  target_lt : target < new.splitting.automaton.size
  isCopy : new.splitting.automaton.prototype target = prototype
  known : ∀ number < new.splitting.automaton.size,
    number < old.splitting.automaton.size ∨ number = target ∧
      ∀ copy ∈ old.splitting.families.copiesOf prototype,
        (old.splitting.automaton.state copy).covers
          ((old.splitting.automaton.state source).successorCores grammar true
            symbol) = false
  others : ∀ number < old.splitting.automaton.size, number ≠ target →
    (old.splitting.automaton.state number).Alike
      (new.splitting.automaton.state number)
  grows : ∀ number < old.splitting.automaton.size, ∀ item terminal,
    (old.splitting.automaton.state number).HasContext item terminal →
      (new.splitting.automaton.state number).HasContext item terminal
  arrived : Feeds grammar (old.splitting.automaton.state source) symbol
    (new.splitting.automaton.state target)
  edges : ∀ number < old.splitting.automaton.size, ∀ scanned,
    (new.splitting.automaton.state number).successor? scanned =
      if number = source ∧ scanned = symbol then some target
      else (old.splitting.automaton.state number).successor? scanned
  claimed : ∀ number, number ∈ new.claimed ↔
    number ∈ old.claimed ∨ number = target
  processed : new.processed = old.processed
  waits : ∀ number ∈ old.queue.waiting, number ∈ new.queue.waiting
  waited : ∀ number ∈ new.queue.waiting,
    number ∈ old.queue.waiting ∨ number = target
  /-- Unless it waits, the copy is as before. -/
  quiet : target ∉ new.queue.waiting →
    target < old.splitting.automaton.size ∧
      (old.splitting.automaton.state target).Alike
        (new.splitting.automaton.state target)

/-- What a copy takes in changes no transition, so that only one is led
elsewhere. -/
theorem successor?_led_taken (inside : source < splitting.automaton.size)
    (edge : (splitting.automaton.state source).successor? symbol =
      some current) (number : Nat) (scanned : Symbol) :
    ((led (taken grammar first splitting target incoming) source symbol current
        target).automaton.state number).successor? scanned =
      if number = source ∧ scanned = symbol then some target
      else (splitting.automaton.state number).successor? scanned := by
  have kept (other : Nat) :
      ((splitting.automaton.absorb grammar first target incoming).1.state
          other).successor? scanned =
        (splitting.automaton.state other).successor? scanned := by
    rw [State.successor?, (links_absorb other).1]
    rfl
  rw [led, taken]
  dsimp only
  split
  · rename_i same
    rw [kept]
    split
    · rename_i own
      rw [own.1, own.2, edge, same]
    · rfl
  · rw [successor?_relink (size_absorb.symm ▸ inside), kept]

section Following

variable (wellFormed : grammar.WellFormed) (unused : grammar.GoalUnused)
  (exact : first.Exact grammar) (sustains : Sustains grammar first False good)

include wellFormed unused exact sustains in
theorem follows_followLane (kept : growing.Kept grammar first good base)
    (ready : Ready grammar base growing.splitting.automaton source prototype)
    (entry : (growing.splitting.automaton.state prototype).entry = some symbol)
    (edge : (growing.splitting.automaton.state source).successor? symbol =
      some current)
    (choice : choose grammar first region growing prototype
        ((growing.splitting.automaton.state source).successorCores grammar true
          symbol) = (target, splitting))
    (result : new =
      { growing with
        splitting :=
          led (taken grammar first splitting target
              ((growing.splitting.automaton.state source).successorCores
                grammar true symbol))
            source symbol current target
        claimed := Ordered.insert growing.claimed target
        cluster := Ordered.put growing.cluster prototype target
        queue := queued grammar first growing.queue splitting current target
          ((growing.splitting.automaton.state source).successorCores grammar
            true symbol) }) :
    Follows grammar source symbol prototype target growing new := by
  have fits := ready.fits symbol entry
  have chosen := chosen_choose wellFormed unused exact sustains kept
    ready.inside ready.original fits choice
  have matching := chosen.matching fits ready.original
  obtain ⟨known, keeps⟩ := choose_keeps choice
  obtain ⟨-, enlarges⟩ := @kept_led grammar first base good wellFormed unused
    exact sustains growing.splitting splitting source prototype current target
    symbol kept.splitting fits ready.original chosen
  have sourceInside := fits.source_lt
  have leads := (keeps source sourceInside).2
  have before : (splitting.automaton.state source).successor? symbol =
      some current := by
    rw [State.successor?, leads]
    exact edge
  have size := chosen.enlarges.size_le
  have edges := @successor?_led_taken grammar first source current target symbol
    splitting ((growing.splitting.automaton.state source).successorCores grammar
      true symbol) (Nat.lt_of_lt_of_le sourceInside size) before
  have rewired := rewired_led
    (taken grammar first splitting target
      ((growing.splitting.automaton.state source).successorCores grammar true
        symbol)) source symbol current target
  have grown := rewired.size.trans size_absorb
  have alike (number : Nat) :
      ((splitting.automaton.absorb grammar first target
          ((growing.splitting.automaton.state source).successorCores grammar
            true symbol)).1.state number).Alike _ := rewired.alike number
  subst result
  constructor
  · exact chosen.enlarges.trans enlarges
  · exact grown.symm ▸ chosen.target_lt
  · exact (enlarges.prototype target chosen.target_lt).trans chosen.prototype
  · intro number inside
    exact known number (grown ▸ inside)
  · intro number inside different
    refine (keeps number inside).1.trans ?_
    rw [← state_absorb_ne different]
    exact alike number
  · intro number inside item terminal has
    apply (alike number).hasContext_iff.mpr
    exact hasContext_of_absorb ((keeps number inside).1.hasContext_iff.mpr has)
  · intro item terminal has scans
    apply (alike target).hasContext_iff.mpr
    exact hasContext_absorb chosen.target_lt matching
      (State.arrives_successorCores.mpr ⟨item, has, scans, rfl⟩)
  · intro number inside scanned
    rw [edges, State.successor?, (keeps number inside).2]
    rfl
  · exact fun number => Ordered.mem_insert
  · rfl
  · exact fun number waits => mem_queued.mpr (Or.inl waits)
  · exact fun number waits => (mem_queued.mp waits).imp_right And.left
  · intro rests
    dsimp only at rests
    simp only [mem_queued, true_and, not_or, not_not, Bool.not_eq_false]
      at rests
    obtain ⟨-, isCurrent, covers⟩ := rests
    subst isCurrent
    have inside : target < growing.splitting.automaton.size :=
      kept.splitting.intact.framed.bounded _ _ _ edge
    refine ⟨inside, (keeps target inside).1.trans ?_⟩
    have same := alike target
    rwa [absorb_of_covers covers] at same

end Following

end ClusterSplitting

end LRTables
