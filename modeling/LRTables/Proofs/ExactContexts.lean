import LRTables.Proofs.Lookaheads
import LRTables.Proofs.PropagationSteps
import LRTables.Proofs.SplitRegions

/-!
# Exact contexts

What a propagation pushes along is admitted after a longer word that leads on.
So if every lookahead of a reachable state had a word that leads there, it has
one afterwards, and the lookaheads of the reachable states are exactly those
that their words admit.
-/

namespace LRTables

namespace Automaton

variable {grammar : Grammar} {first : FirstSets}
  {bound automaton old new : Automaton}

/-- Every lookahead of a reachable state is admitted after a word that leads
there in an automaton with the same transitions. -/
def Justified (grammar : Grammar) (bound automaton : Automaton) : Prop :=
  ∀ path number, bound.Leads path number →
    (automaton.state number).Justified grammar fun word =>
      bound.Leads word number

theorem SameFrame.hasKernel (wellFormed : grammar.WellFormed)
    (unused : grammar.GoalUnused) (same : bound.SameFrame automaton)
    (framed : bound.Framed grammar) {word : List Symbol} {number : Nat}
    (leads : bound.Leads word number) :
    (automaton.state number).HasKernel grammar word :=
  (framed.hasKernel wellFormed unused leads).transfer
    (same.sameItems number (framed.lt_size leads)).coreItems

section Pushes

variable (wellFormed : grammar.WellFormed) (unused : grammar.GoalUnused)
  (exact : first.Exact grammar) (framed : bound.Framed grammar)
  (detached : ∀ source symbol target,
    (bound.state source).successor? symbol = some target →
      ∃ word, bound.Leads word source)

include wellFormed unused exact framed detached in
theorem Push.justified (push : Push grammar first old new)
    (same : bound.SameFrame old) (justified : Justified grammar bound old) :
    Justified grammar bound new := by
  cases push with
  | @along source target symbol after sealed snug edge delivery =>
      intro path number leads
      by_cases isTarget : number = target
      · subst isTarget
        have inside := sealed.framed.bounded _ _ _ edge
        have matching := Propagating.matches_of_successor sealed.framed edge
        have delivered := Propagating.delivered_of_deliver
          matching.regular.distinct delivery
        rw [state_modify_self inside]
        rw [same.successor?_eq] at edge
        obtain ⟨front, before⟩ := detached source symbol number edge
        exact (delivered.joined wellFormed unused exact matching
          (sealed.framed.closed number inside) snug).justified
          (fun _ => same.hasKernel wellFormed unused framed) ⟨path, leads⟩
          (fun _ read => read.step edge) (justified front source before)
          (justified path number leads)
      · rw [state_modify_ne isTarget]
        exact justified path number leads

include wellFormed unused exact framed detached in
theorem Pushes.justified (pushes : Pushes grammar first old new)
    (same : bound.SameFrame old) (justified : Justified grammar bound old) :
    Justified grammar bound new := by
  induction pushes with
  | refl => exact justified
  | tail before push ih =>
      exact push.justified wellFormed unused exact framed detached
        (same.trans (Pushes.sameLinks before).sameFrame) ih

end Pushes

section Faithful

variable (wellFormed : grammar.WellFormed) (unused : grammar.GoalUnused)
  (exact : first.Exact grammar) (faithful : automaton.Faithful grammar first)
  (justified : Justified grammar automaton automaton)

include wellFormed unused exact faithful justified in
theorem Faithful.hasContext_iff {path : List Symbol} {number : Nat}
    (leads : automaton.Leads path number) {item : Item} {terminal : Nat} :
    (automaton.state number).HasContext item terminal ↔
      ∃ word, automaton.Leads word number ∧
        grammar.Admits word item terminal := by
  constructor
  · exact justified path number leads item terminal
  · rintro ⟨word, reads, admits⟩
    exact faithful.saturated.hasContext wellFormed unused exact
      faithful.framed reads admits

include wellFormed unused exact faithful justified in
theorem Faithful.finds : automaton.Finds grammar.Admits := by
  have framed := faithful.framed
  intro place holds reachable terminal
  obtain ⟨path, leads⟩ := framed.mem_reachableStates.mp reachable
  have regular := framed.regular place.state holds.1
  rw [context, configuration, ← regular.hasContext_iff holds.2]
  exact faithful.hasContext_iff wellFormed unused exact justified leads

end Faithful

end Automaton

namespace Splitting

open Automaton

variable {grammar : Grammar} {first : FirstSets}
  {base automaton bound origin : Automaton} {region : Region}
  {splitting done : Splitting} {good : State → Prop}
  (wellFormed : grammar.WellFormed) (unused : grammar.GoalUnused)
  (exact : first.Exact grammar)

include wellFormed unused exact in
/-- It suffices that the states that are not reset are justified. -/
theorem justified_resetAll (framed : bound.Framed grammar)
    (sealed : splitting.automaton.Sealed grammar first)
    (same : bound.SameFrame splitting.automaton) (numbers : List Nat)
    (others : ∀ path number, bound.Leads path number → number ∉ numbers →
      (splitting.automaton.state number).Justified grammar fun word =>
        bound.Leads word number) :
    Justified grammar bound
      (numbers.foldl (reset grammar first) splitting).automaton := by
  induction numbers generalizing splitting with
  | nil =>
      intro path number leads
      exact others path number leads List.not_mem_nil
  | cons head rest ih =>
      apply ih
      · exact sealed.reset wellFormed unused exact head
      · exact same.trans
          (sealed.sameFrame_reset wellFormed unused exact head)
      · intro path number leads later
        change ((splitting.automaton.modify head _).state number).Justified
          grammar _
        by_cases isHead : number = head
        · subst isHead
          have inside := same.size ▸ framed.lt_size leads
          rw [state_modify_self inside]
          exact State.justified_resetContexts wellFormed unused exact
            (sealed.framed.regular number inside)
            (fun _ => same.hasKernel wellFormed unused framed) ⟨path, leads⟩
        · rw [state_modify_ne isHead]
          apply others path number leads
          rw [List.mem_cons, not_or]
          exact ⟨isHead, later⟩

include wellFormed unused exact in
/-- States outside the region have the lookaheads of words that still lead to
them, and all the others are reset. -/
theorem Kept.justified_prepared
    (kept : splitting.Kept grammar first good origin)
    (traced : TracedFrom grammar first base automaton)
    (localized : Localized region automaton splitting) :
    Justified grammar splitting.automaton.detachUnreachable
      (splitting.prepared grammar first).automaton := by
  have intact := kept.intact
  have framed := intact.framed
  apply @justified_resetAll grammar first _
    { splitting with automaton := splitting.automaton.detachUnreachable }
    wellFormed unused exact framed.detach kept.sealed_detach (.refl _)
  intro path number leads apart item terminal has
  have before := framed.leads_detach.mp leads
  have inside := framed.lt_size before
  have outside : ¬ Regional region splitting.automaton number :=
    fun regional =>
      apart (Families.mem_members (localized.enlisted number inside regional))
  obtain ⟨within, alike⟩ := localized.outside number inside outside
  have had := (alike.trans (alike_detach number)).hasContext_iff.mp has
  rw [traced.retraced.size] at within
  obtain ⟨word, reads, admits⟩ :=
    (traced.hasContext_iff wellFormed unused exact within).mp had
  refine ⟨word, framed.leads_detach.mpr ?_, admits⟩
  exact (localized.leads_iff traced intact inside outside).mpr
    (traced.retraced.sameFrame.leads_iff.mpr reads)

include wellFormed unused exact in
/-- Once the contexts are computed anew, every lookahead is admitted after a
word that leads to its state. -/
theorem Kept.justified_regenerate
    (kept : splitting.Kept grammar first good origin)
    (sustains : Sustains grammar first False good)
    (traced : TracedFrom grammar first base automaton)
    (localized : Localized region automaton splitting)
    (result : splitting.regenerate grammar first = .ok done) :
    Justified grammar done.automaton done.automaton := by
  have framed := kept.intact.framed
  have links := kept.sameLinks_prepared wellFormed unused exact
  have justified :=
    (kept.pushes_regenerate wellFormed unused exact sustains result).justified
      wellFormed unused exact framed.detach framed.leads_of_detached
      links.sameFrame
      (kept.justified_prepared wellFormed unused exact traced localized)
  have same := (kept.sameLinks_regenerate wellFormed unused exact sustains
    result).sameFrame
  intro path number leads item terminal has
  obtain ⟨word, reads, admits⟩ :=
    justified path number (same.leads_iff.mp leads) item terminal has
  exact ⟨word, same.leads_iff.mpr reads, admits⟩

end Splitting

namespace Propagating

variable {grammar : Grammar} {first : FirstSets} {propagating : Propagating}
  {number : Nat}

theorem pushAlong_idle (framed : propagating.automaton.Framed grammar)
    {edge : Symbol × Nat}
    (found : (propagating.automaton.state number).successor? edge.1 =
      some edge.2)
    (feeds : Automaton.Feeds grammar (propagating.automaton.state number)
      edge.1 (propagating.automaton.state edge.2)) :
    pushAlong grammar first number propagating edge = .ok propagating := by
  obtain ⟨symbol, target⟩ := edge
  have matching := matches_of_successor framed found
  obtain ⟨after, delivery, result⟩ := exists_delivery framed found
  have delivered := delivered_of_deliver matching.regular.distinct delivery
  have unchanged := delivered.coreContexts_eq matching
    ((Automaton.covers_iff_feeds matching).mpr feeds)
  rw [result, unchanged]
  exact if_pos (beq_self_eq_true _)

section Idle

variable (framed : propagating.automaton.Framed grammar)
  (feeds : ∀ source symbol target,
    (propagating.automaton.state source).successor? symbol = some target →
      Automaton.Feeds grammar (propagating.automaton.state source) symbol
        (propagating.automaton.state target))

include framed feeds in
theorem pushAll_idle {edges : List (Symbol × Nat)}
    (found : ∀ edge ∈ edges,
      (propagating.automaton.state number).successor? edge.1 = some edge.2) :
    edges.foldlM (pushAlong grammar first number) propagating =
      .ok propagating := by
  induction edges with
  | nil => rfl
  | cons edge rest ih =>
      have own := found edge List.mem_cons_self
      rw [List.foldlM_cons,
        pushAlong_idle framed own (feeds number edge.1 edge.2 own)]
      exact ih fun other later => found other (List.mem_cons_of_mem _ later)

include framed feeds in
/-- The queue is emptied, and nothing else happens. -/
theorem run_idle {limit : Nat}
    (enough : propagating.queue.waiting.length < limit) :
    ∃ queue, run grammar first limit propagating =
      .ok { propagating with queue } := by
  induction limit generalizing propagating with
  | zero => exact absurd enough (Nat.not_lt_zero _)
  | succ limit ih =>
      rw [run]
      split
      · exact ⟨propagating.queue, rfl⟩
      · rename_i popped queue found
        have waiting := WorkQueue.waiting_of_pop found
        rw [waiting, List.length_cons] at enough
        have pushed := @pushAll_idle grammar first { propagating with queue }
          popped framed feeds _ fun _ member =>
            framed.keyed.mem_successors.mp member
        obtain ⟨last, ends⟩ := @ih { propagating with queue } framed feeds
          (Nat.lt_of_succ_lt_succ enough)
        refine ⟨last, ?_⟩
        dsimp only at pushed ⊢
        rw [pushed]
        exact ends

end Idle

end Propagating

namespace Automaton

variable {grammar : Grammar} {first : FirstSets} {automaton : Automaton}

/-- If every transition feeds its target, a propagation makes no update. -/
theorem Framed.propagate_idle (framed : automaton.Framed grammar)
    (feeds : ∀ source symbol target,
      (automaton.state source).successor? symbol = some target →
        Feeds grammar (automaton.state source) symbol
          (automaton.state target)) :
    automaton.propagate grammar first = .ok (automaton, 0) := by
  have waiting := WorkQueue.length_ofList_le (List.range automaton.size)
  rw [List.length_range] at waiting
  obtain ⟨queue, ends⟩ := @Propagating.run_idle grammar first
    { automaton
      queue := .ofList (List.range automaton.size)
      updates := 0 } framed feeds (automaton.propagationLimit grammar) (by
    rw [propagationLimit]
    dsimp only
    omega)
  rw [propagate, ends]
  rfl

end Automaton

end LRTables
