import LRTables.Proofs.ConflictLanes
import LRTables.Proofs.Nestings

/-!
# Contended regions

A split takes place if tracing leaves reduce/reduce conflicts.  That is so if
two words with one lookahead call for different reductions but lead to one
state.  Lanes that cross are the smallest example.
-/

namespace LRTables

open Automaton

/-- If there are conflicts, the region has states. -/
theorem Automaton.TracedFrom.isEmpty_region {grammar : Grammar}
    {first : FirstSets} {base automaton : Automaton} {log : ConflictLog}
    (wellFormed : grammar.WellFormed) (unused : grammar.GoalUnused)
    (exact : first.Exact grammar)
    (traced : TracedFrom grammar first base automaton)
    (unrolled : base.All (State.Unrolled grammar))
    (deterministic : grammar.Deterministic)
    (tells : Table.Tells grammar false automaton automaton.size log)
    (conflicts : log.conflicts ≠ #[]) :
    (automaton.markConflictLanes grammar first log).2.isEmpty = false := by
  obtain ⟨conflict, logged⟩ := Array.exists_mem_of_ne_empty _ conflicts
  obtain ⟨⟨word, leads⟩, competes⟩ := tells.competes conflict logged
  obtain ⟨other, -, different, reduces, otherReduces⟩ := competes.exists_other
  obtain ⟨here, hasHere, final, isHere, -⟩ := reduces
  obtain ⟨there, hasThere, otherFinal, isThere, -⟩ := otherReduces
  obtain ⟨index, -, isMember⟩ := traced.onLane_of_final wellFormed unused exact
    (traced.tame wellFormed unused exact deterministic unrolled) tells leads
    hasHere hasThere final otherFinal (by
      rw [isHere, isThere]
      exact different.symm)
  have listed := contains_iff.mp (contains_mark.mpr ⟨_, isMember, rfl⟩)
  rw [Region.isEmpty, ← Bool.not_eq_true, List.isEmpty_iff]
  intro none
  rw [Region.states, none] at listed
  cases listed

namespace Construction

variable {grammar : Grammar} {first : FirstSets} {base : Automaton}

/-- After tracing there are reduce/reduce conflicts, and the region has the
states on their lanes. -/
structure Contended (grammar : Grammar) (first : FirstSets)
    (automaton : Automaton) (region : Region) : Prop where
  traced : ∃ base, collect? grammar first .lr0 = some base ∧
    (base.traceLanes grammar first).automaton = automaton
  conflicts : ∃ table, Table.ofAutomaton grammar automaton false = .ok table ∧
    table.log.reduceReduce ≠ 0 ∧
    (automaton.markConflictLanes grammar first table.log).2 = region
  affected : region.isEmpty = false

/-- Different reductions on one lookahead are contended in the state to which
both words lead. -/
theorem exists_contended (wellFormed : grammar.WellFormed)
    (unused : grammar.GoalUnused) (exact : first.Exact grammar)
    (deterministic : grammar.Deterministic)
    (collected : collect? grammar first .lr0 = some base)
    {one other : List Symbol} {number terminal : Nat} {here there : Item}
    (leads : base.Leads one number) (otherLeads : base.Leads other number)
    (admits : grammar.Admits one here terminal)
    (otherAdmits : grammar.Admits other there terminal)
    (final : here.isFinal grammar = true)
    (otherFinal : there.isFinal grammar = true)
    (different : here.rule ≠ there.rule) :
    ∃ region, Contended grammar first (base.traceLanes grammar first).automaton
      region := by
  obtain ⟨traced, unrolled⟩ :=
    tracedFrom_of_collect? wellFormed unused exact collected
  have tame := traced.tame wellFormed unused exact deterministic unrolled
  have terminated := traced.terminated wellFormed unused exact
  obtain ⟨table, filled, tells⟩ :=
    traced.exists_table wellFormed unused exact deterministic unrolled
  have inside := traced.lookaheadless.collected.framed.lt_size leads
  have contexts {item : Item} := @TracedFrom.hasContext_iff grammar first base
    wellFormed unused exact _ traced number item terminal inside
  obtain ⟨index, -, onLane⟩ := traced.onLane_of_final wellFormed unused exact
    tame tells (traced.retraced.sameFrame.leads_iff.mpr leads)
    (contexts.mpr ⟨one, leads, admits⟩)
    (contexts.mpr ⟨other, otherLeads, otherAdmits⟩) final otherFinal different
  have conflicts : table.log.conflicts ≠ #[] := by
    intro none
    obtain ⟨root, isRoot, -⟩ := (mem_laneMembers terminated).mp onLane
    rw [none] at isRoot
    cases isRoot
  refine ⟨_, ⟨base, collected, rfl⟩, ⟨table, filled, ?_, rfl⟩, ?_⟩
  · rw [tells.counted]
    exact fun none => conflicts (Array.eq_empty_of_size_eq_zero none)
  · exact traced.isEmpty_region wellFormed unused exact unrolled deterministic
      tells conflicts

end Construction

namespace Grammar

variable {grammar : Grammar}

/-- A rule of the start symbol in which a terminal follows what another rule
derives. -/
theorem admits_between (wellFormed : grammar.WellFormed) {outer inner : Nat}
    {lane token : Symbol} {nonterminal terminal : Nat}
    (isOuter : outer ∈ grammar.rulesOf grammar.start)
    (right : grammar.right outer =
      [lane, .nonterminal nonterminal, .terminal terminal])
    (isInner : inner ∈ grammar.rulesOf nonterminal)
    (innerRight : grammar.right inner = [token]) :
    grammar.Admits [lane, token] { rule := inner, dot := 1 } terminal := by
  have goal : Item.goal.scanned grammar =
        some (.nonterminal grammar.start) ∧
      Item.goal.tail grammar = [] :=
    Item.scanned_of_rest wellFormed.right_goalRule
  have atLane : ({ rule := outer, dot := 0 } : Item).scanned grammar =
      some lane := by
    simp [Item.scanned, Item.rest, right]
  have before : grammar.Valid [lane] { rule := outer, dot := 1 } :=
    .advance (.closure .goal goal.1 isOuter) atLane
  have scanned : ({ rule := outer, dot := 1 } : Item).scanned grammar =
      some (.nonterminal nonterminal) := by
    simp [Item.scanned, Item.rest, right]
  have tail : ({ rule := outer, dot := 1 } : Item).tail grammar =
      [.terminal terminal] := by
    simp [Item.tail, Item.rest, right]
  have brought : grammar.Admits [lane] { rule := inner, dot := 0 } terminal :=
    .generated before scanned isInner (by
      rw [tail]
      exact begins_terminal.mpr rfl)
  have atToken : ({ rule := inner, dot := 0 } : Item).scanned grammar =
      some token := by
    simp [Item.scanned, Item.rest, innerRight]
  exact .advance brought atToken

/-- The lanes of `a` and `b` cross: after `e` either of two rules is to be used
before a `c`. -/
def Crosses (grammar : Grammar) : Prop :=
  (1 ∈ grammar.rulesOf grammar.start ∧
    grammar.right 1 = [.terminal 2, .nonterminal 2, .terminal 4]) ∧
  (3 ∈ grammar.rulesOf grammar.start ∧
    grammar.right 3 = [.terminal 3, .nonterminal 3, .terminal 4]) ∧
  (5 ∈ grammar.rulesOf 2 ∧ grammar.right 5 = [.terminal 6]) ∧
  (6 ∈ grammar.rulesOf 3 ∧ grammar.right 6 = [.terminal 6])

instance : Decidable grammar.Crosses := by
  unfold Crosses
  infer_instance

/-- Where lanes cross but no word calls for two competing actions, the state to
which both of them lead is contended. -/
theorem Crosses.exists_contended (crosses : grammar.Crosses)
    (wellFormed : grammar.WellFormed) (unused : grammar.GoalUnused)
    (deterministic : grammar.Deterministic) {base : Automaton} {number : Nat}
    (collected : collect? grammar (.ofGrammar grammar) .lr0 = some base)
    (leads : base.Leads [.terminal 2, .terminal 6] number)
    (otherLeads : base.Leads [.terminal 3, .terminal 6] number) :
    ∃ automaton region,
      Construction.Contended grammar (.ofGrammar grammar) automaton region := by
  obtain ⟨⟨isOne, one⟩, ⟨isOther, other⟩, ⟨isHere, here⟩, isThere, there⟩ :=
    crosses
  obtain ⟨region, contended⟩ := Construction.exists_contended wellFormed unused
    (FirstSets.exact_ofGrammar wellFormed) deterministic collected leads
    otherLeads (admits_between wellFormed isOne one isHere here)
    (admits_between wellFormed isOther other isThere there)
    (by simp [Item.isFinal, Item.rest, here])
    (by simp [Item.isFinal, Item.rest, there]) (by decide)
  exact ⟨_, region, contended⟩

end Grammar

theorem exists_contended_crossed : ∃ automaton region,
    Construction.Contended .crossed (.ofGrammar .crossed) automaton
      region := by
  have crosses : Grammar.crossed.Crosses := by decide
  obtain ⟨base, collected, one, other⟩ := exists_base_crossed
  exact crosses.exists_contended accepted_crossed.wellFormed goalUnused_crossed
    deterministic_crossed collected one other

/-- On a third lane `e` is reduced at once, but what is to follow then derives
no string of terminals. -/
def Sample.derailed : Sample :=
  { crossedLanes with
    nonterminals := crossedLanes.nonterminals ++ ["X", "U"]
    rules := crossedLanes.rules ++
      [("S", ["X", "U"]),
       ("X", ["E", "c"]),
       ("U", ["U", "c"])] }

def Grammar.derailed : Grammar :=
  crossedWith #["X", "U"]
    #[{ left := 1
        right := [.nonterminal 4, .nonterminal 5]
        override := none
        hasCode := false },
      { left := 4
        right := [.nonterminal 2, .terminal 4]
        override := none
        hasCode := false },
      { left := 5
        right := [.nonterminal 5, .terminal 4]
        override := none
        hasCode := false }]

theorem accepted_derailed : Grammar.derailed.Accepted := by
  apply Sample.accepted
  show Sample.derailed.grammar = .ok Grammar.derailed
  decide +kernel

theorem goalUnused_derailed : Grammar.derailed.GoalUnused := by
  constructor
  · decide
  · decide

theorem deterministic_derailed : Grammar.derailed.Deterministic := by
  obtain ⟨output, result, clean⟩ : ∃ output,
      Grammar.derailed.generateWithin 0 Options.standard.canonical =
          .ok output ∧
        output.table.log.conflicts = #[] := by
    apply exists_ok_of_any
    cbv
  exact (Grammar.deterministic_of_canonical accepted_derailed.wellFormed
    goalUnused_derailed result clean).1

theorem exists_contended_derailed : ∃ automaton region,
    Construction.Contended .derailed (.ofGrammar .derailed) automaton
      region := by
  have crosses : Grammar.derailed.Crosses := by decide +kernel
  obtain ⟨base, collected, one, other⟩ : ∃ base,
      collect? .derailed (.ofGrammar .derailed) .lr0 = some base ∧
        base.Leads [.terminal 2, .terminal 6] 9 ∧
        base.Leads [.terminal 3, .terminal 6] 9 := by
    apply exists_some_of_any
    cbv
  exact crosses.exists_contended accepted_derailed.wellFormed
    goalUnused_derailed deterministic_derailed collected one other

end LRTables
