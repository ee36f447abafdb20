import LRTables.Proofs.ClusterSplits
import LRTables.Proofs.TracedAutomata

/-!
# Regions of traced automata

Marking conflict lanes changes marks only.  The lanes of the region are
transitions of the automaton, and the automaton is intact before it is split.
-/

namespace LRTables

theorem State.Entered.entry_eq {grammar : Grammar} {state : State}
    (entered : state.Entered grammar) (regular : state.Regular grammar)
    {origin : Item} {symbol : Symbol} (present : origin.advance ∈ state.items)
    (scans : origin.scanned grammar = some symbol) :
    state.entry = some symbol := by
  have core := regular.mem_coreItems.mpr ⟨present, origin.inKernel_advance⟩
  rw [entered _ core (Nat.succ_pos origin.dot), ← scans]
  simp [Item.advance, Item.scanned, Item.rest]

namespace Automaton

variable {grammar : Grammar} {first : FirstSets} {base automaton : Automaton}

theorem configuration_of_not_holds {place : Place}
    (outside : ¬ automaton.Holds place) :
    automaton.configuration place = default := by
  rw [configuration]
  apply State.configuration_of_size_le
  by_cases inside : place.state < automaton.size
  · exact Nat.le_of_not_lt fun bound => outside ⟨inside, bound⟩
  · rw [state_of_size_le (Nat.le_of_not_lt inside)]
    exact Nat.zero_le _

theorem context_modifyConfiguration (place other : Place)
    {change : Configuration → Configuration}
    (keeps : ∀ configuration : Configuration,
      (change configuration).context = configuration.context) :
    (automaton.modifyConfiguration place change).context other =
      automaton.context other := by
  refine state_modify_keeps
    (fun state => (state.configuration other.index).context) ?_
  intro state
  exact State.configuration_modify_keeps Configuration.context keeps

theorem TracedFrom.modifyConfiguration
    (traced : TracedFrom grammar first base automaton) (place : Place)
    {change : Configuration → Configuration}
    (relabels : ∀ configuration : Configuration,
      configuration.Relabels (change configuration))
    (keeps : ∀ configuration : Configuration,
      (change configuration).context = configuration.context) :
    TracedFrom grammar first base
      (automaton.modifyConfiguration place change) := by
  constructor
  · exact traced.lookaheadless
  · exact traced.retraced.trans (retraced_modifyConfiguration place relabels)
  · intro other holds terminal
    rw [context_modifyConfiguration place other keeps]
    exact traced.context other holds terminal

theorem TracedFrom.mark (traced : TracedFrom grammar first base automaton)
    (log : ConflictLog) :
    TracedFrom grammar first base
      (automaton.markConflictLanes grammar first log).1 := by
  have marked (members : List (Place × Nat)) :
      TracedFrom grammar first base (members.foldl
        (fun marked member =>
          marked.modifyConfiguration member.1 fun configuration =>
            { configuration with
              marks := { configuration.marks with onConflictLane := true } })
        automaton) := by
    induction members generalizing automaton with
    | nil => exact traced
    | cons member rest ih =>
        apply ih
        exact traced.modifyConfiguration member.1
          (fun _ => ⟨rfl, rfl, rfl⟩) fun _ => rfl
  exact marked _

/-- The state is led to on its entry symbol. -/
def Onward (grammar : Grammar) (base : Automaton) (source target : Nat) :
    Prop :=
  ∃ symbol, (base.state target).entry = some symbol ∧
    base.Fits grammar source symbol target

theorem Lookaheadless.onward_of_transitor
    (lookaheadless : base.Lookaheadless grammar first) {place origin : Place}
    (member : origin ∈ (base.configuration place).transitors) :
    Onward grammar base origin.state place.state := by
  by_cases holds : base.Holds place
  · have framed := lookaheadless.collected.framed
    obtain ⟨-, symbol, edge, scans, advanced⟩ :=
      (lookaheadless.plain.wired place holds origin).mp member
    refine ⟨symbol, ?_, framed.fits edge⟩
    apply (lookaheadless.collected.states place.state holds.1).2.entry_eq
      (framed.regular place.state holds.1) _ scans
    exact State.mem_items.mpr ⟨place.index, holds.2, advanced⟩
  · rw [configuration_of_not_holds holds] at member
    cases member

end Automaton

namespace Region

variable {grammar : Grammar} {first : FirstSets} {base automaton : Automaton}
  {region : Region}

/-- A lane leads from one state to another only along a transition. -/
def Follows (grammar : Grammar) (base : Automaton)
    (onward : List (Nat × List Nat)) : Prop :=
  ∀ source, ∀ target ∈ (Ordered.find? onward source).getD [],
    Automaton.Onward grammar base source target

theorem Follows.update {onward : List (Nat × List Nat)}
    (follows : Follows grammar base onward) {source target : Nat}
    (leads : Automaton.Onward grammar base source target) :
    Follows grammar base (Ordered.update onward source [] fun targets =>
      Ordered.insert targets target) := by
  intro other next member
  rw [Ordered.find?_update] at member
  split at member
  · rename_i own
    rw [own]
    rcases Ordered.mem_insert.mp member with old | rfl
    · exact follows source next old
    · exact leads
  · exact follows other next member

theorem Follows.crossAll {onward : List (Nat × List Nat)}
    (follows : Follows grammar base onward) {crossed : List Place}
    {target : Nat}
    (leads : ∀ origin ∈ crossed,
      Automaton.Onward grammar base origin.state target) :
    Follows grammar base (crossed.foldl
      (fun onward transitor =>
        Ordered.update onward transitor.state [] fun targets =>
          Ordered.insert targets target)
      onward) := by
  induction crossed generalizing onward with
  | nil => exact follows
  | cons origin rest ih =>
      apply ih
      · exact follows.update (leads origin List.mem_cons_self)
      · intro other later
        exact leads other (List.mem_cons_of_mem _ later)

theorem Follows.addToRegion
    (traced : Automaton.TracedFrom grammar first base automaton)
    (follows : Follows grammar base region.onward) (member : Place × Nat) :
    Follows grammar base
      (automaton.addToRegion grammar first region member).onward := by
  apply follows.crossAll
  intro origin crossed
  split at crossed
  · have transitor := (List.mem_filter.mp crossed).1
    rw [(traced.retraced.relabels member.1).transitors] at transitor
    exact traced.lookaheadless.onward_of_transitor transitor
  · cases crossed

/-- The region of the conflict lanes of a traced automaton. -/
theorem genuine_mark
    (traced : Automaton.TracedFrom grammar first base automaton)
    (log : ConflictLog) :
    (automaton.markConflictLanes grammar first log).2.Genuine grammar
      base := by
  have collected (members : List (Place × Nat)) (region : Region)
      (follows : Follows grammar base region.onward) :
      Follows grammar base (members.foldl
        (automaton.addToRegion grammar first) region).onward := by
    induction members generalizing region with
    | nil => exact follows
    | cons member rest ih => exact ih _ (follows.addToRegion traced member)
  constructor
  · intro number inside
    rw [Automaton.prototype, traced.lookaheadless.plain.original number inside]
    rfl
  · apply collected
    intro source target none
    cases none

end Region

namespace Automaton

variable {grammar : Grammar} {first : FirstSets} {base automaton : Automaton}
  (wellFormed : grammar.WellFormed) (unused : grammar.GoalUnused)
  (exact : first.Exact grammar)
  (traced : TracedFrom grammar first base automaton)

include wellFormed unused exact traced in
theorem TracedFrom.sealed : automaton.Sealed grammar first := by
  constructor
  · exact traced.framed
  · exact traced.terminated wellFormed unused exact
  · intro number inside
    exact traced.closed wellFormed unused exact inside
  · have positive := traced.lookaheadless.collected.framed.positive
    exact (traced.hasContext_iff wellFormed unused exact positive).mpr
      ⟨[], .start, .goal⟩

theorem TracedFrom.prototype_eq {number : Nat}
    (traced : TracedFrom grammar first base automaton)
    (inside : number < automaton.size) :
    automaton.prototype number = number := by
  rw [traced.retraced.size] at inside
  rw [prototype, traced.retraced.frame,
    traced.lookaheadless.plain.original number inside]
  rfl

theorem TracedFrom.exists_leads {number : Nat}
    (traced : TracedFrom grammar first base automaton)
    (inside : number < automaton.size) :
    ∃ word, automaton.Leads word number := by
  rw [traced.retraced.size] at inside
  obtain ⟨word, leads⟩ := traced.lookaheadless.reached number inside
  exact ⟨word, traced.retraced.sameFrame.leads_iff.mpr leads⟩

include wellFormed unused exact traced in
theorem TracedFrom.intact : automaton.Intact grammar first := by
  have collected := traced.lookaheadless.collected
  constructor
  · exact traced.sealed wellFormed unused exact
  · intro number inside symbol scans
    obtain ⟨word, leads⟩ := traced.exists_leads inside
    exact traced.retraced.total collected.total word number leads symbol scans
  · intro number inside
    rw [traced.prototype_eq inside]
    exact inside
  · intro number inside
    rw [traced.prototype_eq inside]
    exact .refl _
  · intro number inside
    rw [traced.prototype_eq inside, traced.prototype_eq inside]

theorem TracedFrom.enlarges
    (traced : TracedFrom grammar first base automaton) :
    base.Enlarges automaton := by
  constructor
  · exact Nat.le_of_eq traced.retraced.size.symm
  · intro number _
    exact traced.retraced.sameItems number
  · intro number _
    rw [prototype, prototype, traced.retraced.frame]

end Automaton

end LRTables
