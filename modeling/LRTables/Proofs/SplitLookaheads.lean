import LRTables.Proofs.ExactContexts
import LRTables.Proofs.Failures
import LRTables.Proofs.PagerPrecision

/-!
# Lookaheads after a split

When the lanes of conflicts have been split, the contexts are exactly the
lookaheads that items have after the words that lead to their states.  States
outside the region have the contexts that tracing gave them.
-/

namespace LRTables

open Automaton

/-- Equal items with equal lookaheads have equal contexts. -/
theorem State.SameItems.context_eq {grammar : Grammar} {old new : State}
    (same : old.SameItems new) (oldRegular : old.Regular grammar)
    (newRegular : new.Regular grammar)
    (lookaheads : ∀ item terminal,
      new.HasContext item terminal ↔ old.HasContext item terminal)
    (index : Nat) :
    (new.configuration index).context =
      (old.configuration index).context := by
  by_cases inside : index < old.configurations.size
  · have newInside : index < new.configurations.size :=
      same.size.symm ▸ inside
    apply TerminalSet.ext
    intro terminal
    rw [← newRegular.hasContext_iff newInside,
      ← oldRegular.hasContext_iff inside, same.item index inside]
    exact lookaheads _ terminal
  · have outside := Nat.le_of_not_lt inside
    rw [State.configuration_of_size_le outside,
      State.configuration_of_size_le (same.size.symm ▸ outside)]

namespace Automaton

variable {grammar : Grammar} {first : FirstSets} {region : Region}
  {base automaton traced : Automaton}

theorem prototype_detach (number : Nat) :
    automaton.detachUnreachable.prototype number =
      automaton.prototype number := by
  by_cases inside : number < automaton.size
  · rw [prototype, state_detach inside]
    rfl
  · have outside := Nat.le_of_not_lt inside
    rw [prototype, prototype, state_of_size_le outside,
      state_of_size_le (size_detach.symm ▸ outside)]

/-- What comes of splitting a region of a base: the contexts are as they should
be, and nothing but states of the region has been copied. -/
structure Resplit (grammar : Grammar) (first : FirstSets) (region : Region)
    (base automaton : Automaton) : Prop where
  faithful : automaton.Faithful grammar first
  justified : Justified grammar automaton automaton
  reached : ∀ source symbol target,
    (automaton.state source).successor? symbol = some target →
      ∃ word, automaton.Leads word source
  outside : ∀ number < base.size, region.contains number = false →
    (base.state number).SameItems (automaton.state number) ∧
      ∀ word, automaton.Leads word number ↔ base.Leads word number
  added : ∀ number < automaton.size, base.size ≤ number →
    region.contains (automaton.prototype number) = true

namespace Resplit

variable (resplit : Resplit grammar first region base automaton)

include resplit in
theorem propagate_idle :
    automaton.propagate grammar first = .ok (automaton, 0) := by
  apply resplit.faithful.framed.propagate_idle
  intro source symbol target edge
  obtain ⟨word, leads⟩ := resplit.reached source symbol target edge
  exact resplit.faithful.saturated.feeds word source leads symbol target edge

include resplit in
/-- States outside the region keep the contexts that tracing gave them. -/
theorem context_eq (wellFormed : grammar.WellFormed)
    (unused : grammar.GoalUnused) (exact : first.Exact grammar)
    (tracedFrom : TracedFrom grammar first base traced) {number : Nat}
    (inside : number < base.size) (apart : region.contains number = false)
    (index : Nat) :
    automaton.context { state := number, index } =
      traced.context { state := number, index } := by
  have faithful := resplit.faithful
  obtain ⟨same, words⟩ := resplit.outside number inside apart
  obtain ⟨path, reads⟩ := tracedFrom.lookaheadless.reached number inside
  have leads := (words path).mpr reads
  have items := (tracedFrom.retraced.sameItems number).symm.trans same
  apply @State.SameItems.context_eq grammar _ _ items
  · exact tracedFrom.framed.regular number
      (tracedFrom.retraced.size.symm ▸ inside)
  · exact faithful.framed.regular number (faithful.framed.lt_size leads)
  · intro item terminal
    rw [faithful.hasContext_iff wellFormed unused exact resplit.justified
      leads, tracedFrom.hasContext_iff wellFormed unused exact inside]
    simp only [words]

end Resplit

end Automaton

namespace Splitting

variable {grammar : Grammar} {first : FirstSets} {region : Region}
  {base automaton : Automaton} {splitting done : Splitting}

/-- A localized splitting whose contexts are computed anew. -/
theorem Localized.resplit {good : State → Prop}
    (wellFormed : grammar.WellFormed) (unused : grammar.GoalUnused)
    (exact : first.Exact grammar)
    (localized : Localized region automaton splitting)
    (kept : splitting.Kept grammar first good base)
    (sustains : Sustains grammar first False good)
    (traced : TracedFrom grammar first base automaton)
    (result : splitting.regenerate grammar first = .ok done)
    (faithful : done.automaton.Faithful grammar first) :
    Resplit grammar first region base done.automaton := by
  have intact := kept.intact
  have links :=
    kept.sameLinks_regenerate wellFormed unused exact sustains result
  have size : done.automaton.size = splitting.automaton.size :=
    links.size.trans size_detach
  have prototypes (number : Nat) : done.automaton.prototype number =
      splitting.automaton.prototype number :=
    (links.prototype number).trans (prototype_detach number)
  constructor
  · exact faithful
  · exact kept.justified_regenerate wellFormed unused exact sustains traced
      localized result
  · intro source symbol target edge
    rw [links.successor?_eq] at edge
    obtain ⟨word, leads⟩ :=
      intact.framed.leads_of_detached source symbol target edge
    exact ⟨word, links.sameFrame.leads_iff.mpr leads⟩
  · intro number inside apart
    have within : number < automaton.size :=
      traced.retraced.size.symm ▸ inside
    have among := Nat.lt_of_lt_of_le within localized.enlarges.size_le
    have outside : ¬ Regional region splitting.automaton number := by
      rw [Regional, localized.enlarges.prototype number within,
        traced.original, apart]
      exact Bool.false_ne_true
    constructor
    · exact ((kept.enlarges.sameItems number inside).trans
        (alike_detach number).sameItems).trans (links.state number).sameItems
    · intro word
      rw [links.sameFrame.leads_iff, intact.framed.leads_detach,
        localized.leads_iff traced intact among outside,
        traced.retraced.sameFrame.leads_iff]
  · intro number inside fresh
    rw [size] at inside
    rw [prototypes]
    by_contra outside
    obtain ⟨within, -⟩ := localized.outside number inside outside
    rw [traced.retraced.size] at within
    exact absurd within (Nat.not_lt.mpr fresh)

end Splitting

namespace Construction

variable {grammar : Grammar} {first : FirstSets} {base automaton : Automaton}
  {limit : Nat} {strategy : SplitStrategy} {done : Splitting}

/-- Either way to split the lanes of conflicts yields exact contexts. -/
theorem resplit_split {log : ConflictLog} (wellFormed : grammar.WellFormed)
    (unused : grammar.GoalUnused) (exact : first.Exact grammar)
    (traced : TracedFrom grammar first base automaton)
    (unrolled : base.All (State.Unrolled grammar))
    (result : split limit grammar first strategy
      (automaton.markConflictLanes grammar first log).1
      (automaton.markConflictLanes grammar first log).2 = .ok done) :
    Resplit grammar first (automaton.markConflictLanes grammar first log).2
      base done.automaton := by
  have faithful :=
    faithful_split wellFormed unused exact traced unrolled result
  have marked := traced.mark log
  rw [split_eq] at result
  obtain ⟨splitting, divided, regenerated⟩ := ok_of_bind result
  obtain ⟨kept, steps⟩ :=
    kept_divide wellFormed unused exact traced unrolled divided
  have localized :=
    steps.localized (Splitting.localized_begin marked.original)
  exact localized.resplit wellFormed unused exact kept
    (sustains_evident wellFormed unused exact False).unrolled marked
    regenerated faithful

/-- Where a region is contended, lane tracing splits it. -/
theorem Contended.resplit {options : Options} {region : Region}
    {output : Output} (wellFormed : grammar.WellFormed)
    (unused : grammar.GoalUnused)
    (contended : Contended grammar (.ofGrammar grammar) automaton region)
    (byLanes : options.mode = .laneTracing strategy)
    (result : grammar.generateWithin limit options = .ok output) :
    ∃ base, TracedFrom grammar (.ofGrammar grammar) base automaton ∧
      Resplit grammar (.ofGrammar grammar) region base output.automaton := by
  have exact := FirstSets.exact_ofGrammar wellFormed
  obtain ⟨⟨base, collected, rfl⟩, ⟨table, filled, conflicts, rfl⟩, affected⟩ :=
    contended
  obtain ⟨traced, unrolled⟩ :=
    tracedFrom_of_collect? wellFormed unused exact collected
  have built := Grammar.built_of_generateWithin result
  rw [Grammar.constructWithin, byLanes] at built
  obtain ⟨other, again, built⟩ := exists_base_of_byLanes built
  rw [collected] at again
  cases again
  cases yields_of_ofTraced built with
  | unsplit again _ none =>
      cases filled.symm.trans again
      exact absurd (none.resolve_left (Option.some_ne_none _)) conflicts
  | unaffected again _ none =>
      cases filled.symm.trans again
      cases affected.symm.trans none
  | split again _ _ divided same _ =>
      cases filled.symm.trans again
      exact ⟨base, traced, same ▸ resplit_split wellFormed unused exact traced
        unrolled divided⟩

end Construction

section Lookaheads

variable {grammar : Grammar} {options : Options} {strategy : SplitStrategy}
  {limit : Nat} {traced : Automaton} {region : Region} {output : Output}

/-- When lane tracing splits a region, the contexts of all reachable
configurations are the terminals that are admitted after the words that lead to
their states, which are the ones anticipated if no nonterminal is unproductive.
The states outside the region keep the contexts that tracing gave them, all new
states are copies of states of the region, and nothing is left to
propagate. -/
theorem split_lookaheads (accepted : grammar.Accepted)
    (unused : grammar.GoalUnused)
    (contended : Construction.Contended grammar (.ofGrammar grammar) traced
      region)
    (byLanes : options.mode = .laneTracing strategy)
    (result : grammar.generateWithin limit options = .ok output) :
    output.automaton.Finds grammar.Admits ∧
      (grammar.unproductiveNonterminals = [] →
        output.automaton.Finds grammar.Anticipates) ∧
      (∀ number < traced.size, region.contains number = false →
        number ∈ output.automaton.reachableStates ∧
          (traced.state number).SameItems (output.automaton.state number) ∧
          ∀ index, output.automaton.context { state := number, index } =
            traced.context { state := number, index }) ∧
      (∀ number ∈ output.automaton.reachableStates, traced.size ≤ number →
        region.contains (output.automaton.prototype number) = true) ∧
      output.automaton.propagate grammar (.ofGrammar grammar) =
        .ok (output.automaton, 0) := by
  have wellFormed := accepted.wellFormed
  have exact := FirstSets.exact_ofGrammar wellFormed
  obtain ⟨base, tracedFrom, resplit⟩ :=
    contended.resplit wellFormed unused byLanes result
  have finds :=
    resplit.faithful.finds wellFormed unused exact resplit.justified
  have size := tracedFrom.retraced.size
  refine ⟨finds, fun productive => finds.anticipates accepted productive, ?_,
    ?_, resplit.propagate_idle⟩
  · intro number inside apart
    rw [size] at inside
    obtain ⟨same, words⟩ := resplit.outside number inside apart
    obtain ⟨word, reads⟩ := tracedFrom.lookaheadless.reached number inside
    refine ⟨?_, ?_, ?_⟩
    · exact resplit.faithful.framed.mem_reachableStates.mpr
        ⟨word, (words word).mpr reads⟩
    · exact (tracedFrom.retraced.sameItems number).symm.trans same
    · exact resplit.context_eq wellFormed unused exact tracedFrom inside apart
  · intro number reachable fresh
    rw [size] at fresh
    exact resplit.added number (lt_of_mem_reachableStates reachable) fresh

end Lookaheads

/-- Splitting the crossed lanes yields the lookaheads of their words. -/
theorem split_lookaheads_crossed : ∃ traced region output,
    Construction.Contended .crossed (.ofGrammar .crossed) traced region ∧
      Grammar.crossed.generateWithin 0
          (Options.standard.withMode (.laneTracing .pager)) = .ok output ∧
      Grammar.crossed.unproductiveNonterminals = [] ∧
      output.automaton.Finds Grammar.crossed.Anticipates ∧
      (∀ number < traced.size, region.contains number = false →
        number ∈ output.automaton.reachableStates ∧
          (traced.state number).SameItems (output.automaton.state number) ∧
          ∀ index, output.automaton.context { state := number, index } =
            traced.context { state := number, index }) ∧
      output.automaton.propagate .crossed (.ofGrammar .crossed) =
        .ok (output.automaton, 0) := by
  obtain ⟨traced, region, contended⟩ := exists_contended_crossed
  obtain ⟨output, result⟩ := deterministic_crossed.exists_output
    accepted_crossed.wellFormed goalUnused_crossed 0
  have productive : Grammar.crossed.unproductiveNonterminals = [] := by
    decide +kernel
  obtain ⟨-, anticipates, outside, -, idle⟩ := split_lookaheads
    accepted_crossed goalUnused_crossed contended rfl result
  exact ⟨traced, region, output, contended, result, productive,
    anticipates productive, outside, idle⟩

/-- The last nonterminal derives nothing that begins with a terminal. -/
theorem derives_derailed {form : List Symbol}
    (derives : Grammar.derailed.Derives [.nonterminal 5] form) :
    form.head? = some (.nonterminal 5) := by
  induction derives with
  | refl => rfl
  | @tail middle form _ step ih =>
      obtain ⟨before, after, inside⟩ := step
      cases before with
      | cons symbol rest => exact ih
      | nil =>
          have only : ∀ rule < 10,
              some (Symbol.nonterminal (Grammar.derailed.left rule)) =
                  some (.nonterminal 5) →
                Grammar.derailed.right rule =
                  [.nonterminal 5, .terminal 4] := by
            decide
          rw [List.nil_append, only _ inside ih]
          rfl

/-- At the start the token `e` is anticipated by no item for which something
else is to follow. -/
theorem rule_of_anticipates_derailed {word : List Symbol} {item : Item}
    {terminal : Nat}
    (anticipates : Grammar.derailed.Anticipates word item terminal)
    (atStart : word = []) :
    item.rule ∈ [0, 1, 2, 3, 4, 7] ∧ item.dot = 0 := by
  induction anticipates with
  | goal => decide
  | @closure word item nonterminal rule ahead terminal _ scanned member begins
      ih =>
      obtain ⟨listed, isStart⟩ := ih atStart
      refine ⟨?_, rfl⟩
      -- Only the third lane brings in another rule, and what is to follow it
      -- derives neither a terminal nor nothing.
      have steps : ∀ rule ∈ [0, 1, 2, 3, 4, 7], ∀ nonterminal < 6,
          ({ rule, dot := 0 } : Item).scanned .derailed =
              some (.nonterminal nonterminal) →
            (∀ other ∈ Grammar.derailed.rulesOf nonterminal,
                other ∈ [0, 1, 2, 3, 4, 7]) ∨
              ({ rule, dot := 0 } : Item).tail .derailed =
                [.nonterminal 5] := by
        decide +kernel
      have declared : nonterminal < 6 :=
        accepted_derailed.wellFormed.right_declared item.rule _
          (Item.scanned_mem_right scanned)
      have same : item = { rule := item.rule, dot := 0 } := by
        rw [← isStart]
      rw [same] at scanned begins
      rcases steps item.rule listed nonterminal declared scanned with
        all | tail
      · exact all rule member
      · rw [tail, Grammar.begins_append_terminal] at begins
        rcases begins with ⟨rest, derives⟩ | ⟨vanishes, -⟩
        · cases derives_derailed derives
        · cases derives_derailed vanishes
  | advance => exact absurd atStart (List.append_ne_nil_of_right_ne_nil _
      (List.cons_ne_nil _ _))

theorem admits_derailed :
    Grammar.derailed.Admits [] { rule := 5, dot := 0 } 4 := by
  have scanned : ({ rule := 7, dot := 0 } : Item).scanned .derailed =
      some (.nonterminal 4) := by
    decide
  have inner : ({ rule := 8, dot := 0 } : Item).scanned .derailed =
      some (.nonterminal 2) := by
    decide
  have lane : Grammar.derailed.Valid [] { rule := 7, dot := 0 } :=
    .closure .goal (show Item.goal.scanned .derailed = some (.nonterminal 1)
      by decide) (by decide +kernel)
  have front : Grammar.derailed.Valid [] { rule := 8, dot := 0 } :=
    .closure lane scanned (by decide +kernel)
  exact .generated front inner (by decide +kernel)
    (Grammar.begins_terminal.mpr rfl)

/-- With an unproductive nonterminal, a split leaves a configuration with a
context although its item anticipates nothing. -/
theorem not_finds_anticipates_derailed : ∃ traced region output,
    Construction.Contended .derailed (.ofGrammar .derailed) traced region ∧
      Grammar.derailed.generateWithin 0
          (Options.standard.withMode (.laneTracing .pager)) = .ok output ∧
      ¬ output.automaton.Finds Grammar.derailed.Anticipates := by
  have wellFormed := accepted_derailed.wellFormed
  obtain ⟨traced, region, contended⟩ := exists_contended_derailed
  obtain ⟨output, result⟩ := deterministic_derailed.exists_output wellFormed
    goalUnused_derailed 0
  refine ⟨traced, region, output, contended, result, ?_⟩
  intro finds
  obtain ⟨base, -, resplit⟩ :=
    contended.resplit wellFormed goalUnused_derailed rfl result
  have framed := resplit.faithful.framed
  obtain ⟨index, within, item, inContext⟩ :=
    resplit.faithful.saturated.hasContext wellFormed goalUnused_derailed
      (FirstSets.exact_ofGrammar wellFormed) framed .start admits_derailed
  obtain ⟨word, leads, anticipates⟩ :=
    (finds { state := Automaton.start, index } ⟨framed.positive, within⟩
      (framed.mem_reachableStates.mpr ⟨[], .start⟩) 4).mp inContext
  -- No other word leads back to the start.
  have goal :
      Item.goal ∈ (output.automaton.state Automaton.start).coreItems := by
    rw [framed.start]
    exact List.mem_singleton.mpr rfl
  have empty := ((framed.mem_coreItems wellFormed goalUnused_derailed
    leads).mp goal).1.eq_nil_of_goal wellFormed goalUnused_derailed
  have isItem : (output.automaton.configuration
      { state := Automaton.start, index }).item =
        { rule := 5, dot := 0 } := item
  rw [isItem] at anticipates
  have listed := (rule_of_anticipates_derailed anticipates empty).1
  revert listed
  decide

end LRTables
