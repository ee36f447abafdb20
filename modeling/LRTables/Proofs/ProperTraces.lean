import LRTables.Lane.Region
import LRTables.Proofs.ProperAutomata
import LRTables.Proofs.TracingEffects

/-!
# Tracing proper automata

Tracing lanes changes contexts and marks only, and every lookahead that it
brings in is a terminal of the grammar.
-/

namespace LRTables

variable {grammar : Grammar} {first : FirstSets}

/-- All members are terminals of the grammar. -/
def TerminalSet.Within (grammar : Grammar) (set : TerminalSet) : Prop :=
  ∀ terminal ∈ set, terminal < grammar.terminals.size

namespace Automaton

variable {automaton : Automaton}

theorem Proper.configuration (proper : automaton.Proper grammar)
    (place : Place) : (automaton.context place).Within grammar := by
  by_cases inside : place.index <
      (automaton.state place.state).configurations.size
  · exact ((proper.states place.state).configuration inside).2
  · have blank : automaton.configuration place = default := by
      rw [Automaton.configuration, State.configuration,
        Array.getD_eq_getD_getElem?,
        Array.getElem?_eq_none (Nat.le_of_not_lt inside)]
      rfl
    rw [context, blank]
    intro terminal member
    exact absurd member (TerminalSet.not_mem_empty terminal)

end Automaton

namespace Tracing

theorem within_union {left right : TerminalSet} (first : left.Within grammar)
    (second : right.Within grammar) : (left ∪ right).Within grammar := by
  intro terminal member
  rcases TerminalSet.mem_union.mp member with here | there
  · exact first terminal here
  · exact second terminal there

section Walk

variable (wellFormed : grammar.WellFormed) (exact : first.Exact grammar)

include wellFormed exact

theorem within_heads (item : Item) :
    (first.heads (item.tail grammar)).1.Within grammar := by
  intro terminal member
  have declared := Grammar.declares_tail wellFormed item
  exact ((exact.begins _ declared terminal).mp member).lt wellFormed declared

/-- Changes of tracing bring in terminals of the grammar. -/
theorem keeps_proper : Keeps grammar first (TerminalSet.Within grammar)
    (Automaton.Proper grammar) := by
  constructor
  · exact fun proper place => proper.configuration place
  · intro terminal member
    rw [TerminalSet.mem_singleton] at member
    exact member ▸ wellFormed.hasEnd
  · exact within_heads wellFormed exact
  · exact within_union
  · intro automaton change proper retraces place
    apply proper.modifyConfiguration
    intro own
    refine ⟨?_, (retraces _).context own.2⟩
    rw [(retraces _).relabels.item]
    exact own.1
  · intro automaton change proper retraces number
    apply proper.modify
    · exact ⟨rfl, rfl, List.Sublist.refl _⟩
    · intro own
      apply own.mapConfigurations
      intro configuration _ holds
      refine ⟨?_, (retraces configuration).context holds.2⟩
      rw [(retraces configuration).relabels.item]
      exact holds.1

theorem proper_traceLanes {automaton : Automaton}
    (proper : automaton.Proper grammar) :
    (automaton.traceLanes grammar first).automaton.Proper grammar :=
  (keeps_proper wellFormed exact).traceLanes proper

end Walk

end Tracing

namespace Automaton

theorem Proper.markConflictLanes {automaton : Automaton}
    (proper : automaton.Proper grammar) (log : ConflictLog) :
    (automaton.markConflictLanes grammar first log).1.Proper grammar := by
  unfold Automaton.markConflictLanes
  dsimp only
  generalize automaton.laneMembers grammar first log = members
  induction members generalizing automaton with
  | nil => exact proper
  | cons member rest ih =>
      apply ih
      apply proper.modifyConfiguration
      exact fun own => own

theorem size_markConflictLanes {automaton : Automaton} (log : ConflictLog) :
    (automaton.markConflictLanes grammar first log).1.size =
      automaton.size := by
  unfold Automaton.markConflictLanes
  dsimp only
  generalize automaton.laneMembers grammar first log = members
  induction members generalizing automaton with
  | nil => rfl
  | cons member rest ih =>
      rw [List.foldl_cons, ih]
      exact size_modify _

end Automaton

end LRTables
