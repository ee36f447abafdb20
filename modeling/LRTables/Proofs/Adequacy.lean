import LRTables.Proofs.Acceptance
import LRTables.Proofs.CoreLookaheads

/-!
# Adequate automata

An automaton is adequate when its words lead to the states of their valid items
and each state offers all terminals that its words admit.  A table filled from
an adequate automaton represents it, and without conflicts it holds every
action that the automaton calls for.
-/

namespace LRTables

namespace Automaton

variable {grammar : Grammar} {first : FirstSets} {anyLookahead : Bool}
  {automaton : Automaton}

/-- What tables are to be filled from. -/
structure Adequate (grammar : Grammar) (anyLookahead : Bool)
    (automaton : Automaton) : Prop where
  framed : automaton.Framed grammar
  total : automaton.Total grammar
  terminated : automaton.Terminated grammar
  offers : ∀ word number item terminal, automaton.Leads word number →
    grammar.Admits word item terminal →
      terminal < grammar.terminals.size →
        (automaton.state number).Offers grammar anyLookahead item terminal

theorem Adequate.represents (wellFormed : grammar.WellFormed)
    (adequate : automaton.Adequate grammar anyLookahead) {table : Table}
    (result : Table.ofAutomaton grammar automaton anyLookahead = .ok table) :
    table.Represents grammar anyLookahead automaton := by
  obtain ⟨framed, total, terminated, -⟩ := adequate
  constructor
  · exact framed
  · exact total
  · exact Table.reflects_ofAutomaton wellFormed framed terminated result

theorem Adequate.decides (wellFormed : grammar.WellFormed)
    (adequate : automaton.Adequate grammar anyLookahead) {table : Table}
    (result : Table.ofAutomaton grammar automaton anyLookahead = .ok table)
    (clean : table.log.conflicts = #[]) :
    table.Decides grammar anyLookahead automaton := by
  constructor
  · exact adequate.represents wellFormed result
  · intro word number leads
    exact Table.complete_ofAutomaton wellFormed adequate.framed
      adequate.terminated result clean leads
  · exact adequate.offers

theorem adequate_of_saturated (wellFormed : grammar.WellFormed)
    (unused : grammar.GoalUnused) (exact : first.Exact grammar)
    (framed : automaton.Framed grammar) (total : automaton.Total grammar)
    (terminated : automaton.Terminated grammar)
    (saturated : automaton.Saturated grammar first) :
    automaton.Adequate grammar false := by
  constructor
  · exact framed
  · exact total
  · exact terminated
  · intro word number item terminal leads admits _
    exact saturated.hasContext wellFormed unused exact framed leads admits

theorem adequate_of_any (wellFormed : grammar.WellFormed)
    (unused : grammar.GoalUnused) (framed : automaton.Framed grammar)
    (total : automaton.Total grammar)
    (terminated : automaton.Terminated grammar) :
    automaton.Adequate grammar true := by
  constructor
  · exact framed
  · exact total
  · exact terminated
  · intro word number item terminal leads admits isTerminal
    exact ⟨(framed.mem_items wellFormed unused leads).mpr admits.valid,
      isTerminal⟩

theorem terminated_of_collect? (wellFormed : grammar.WellFormed)
    (unused : grammar.GoalUnused) (exact : first.Exact grammar)
    {precision : Precision}
    (result : collect? grammar first precision = some automaton) :
    automaton.Terminated grammar := by
  have collected := collected_of_collect? wellFormed unused exact
    (Collecting.keeps_terminated wellFormed unused exact) result
  intro number inside
  exact (collected.states number inside).2

theorem adequate_of_collect? (wellFormed : grammar.WellFormed)
    (unused : grammar.GoalUnused) (exact : first.Exact grammar)
    {precision : Precision}
    (result : collect? grammar first precision = some automaton) :
    automaton.Adequate grammar true := by
  have collected := collected_of_collect? wellFormed unused exact
    (Collecting.keeps_terminated wellFormed unused exact) result
  exact adequate_of_any wellFormed unused collected.framed collected.total
    (terminated_of_collect? wellFormed unused exact result)

theorem adequate_of_collect?_tracks (wellFormed : grammar.WellFormed)
    (unused : grammar.GoalUnused) (exact : first.Exact grammar)
    {precision : Precision} (tracks : precision.tracksContexts = true)
    (result : collect? grammar first precision = some automaton) :
    automaton.Adequate grammar false := by
  have collected := collected_of_collect? wellFormed unused exact
    (Collecting.keeps_terminated wellFormed unused exact) result
  exact adequate_of_saturated wellFormed unused exact collected.framed
    collected.total (terminated_of_collect? wellFormed unused exact result)
    (saturated_of_collect? wellFormed unused exact tracks result)

end Automaton

end LRTables
