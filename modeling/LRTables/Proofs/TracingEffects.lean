import LRTables.Proofs.WalkSteps

/-!
# What tracing keeps

Tracing changes the context of a configuration and the marks of the walk, and
nothing else.  So it keeps every property of automata that such changes keep.
-/

namespace LRTables

/-- What tracing may do to a configuration.  `fits` tells what the contexts are
known to be. -/
structure Configuration.Retraces (fits : TerminalSet → Prop)
    (old new : Configuration) : Prop where
  relabels : old.Relabels new
  onConflictLane : new.marks.onConflictLane = old.marks.onConflictLane
  context : fits old.context → fits new.context

namespace Tracing

/-- Changes of tracing keep a property of automata, as long as what they bring
in fits. -/
structure Keeps (grammar : Grammar) (first : FirstSets)
    (fits : TerminalSet → Prop) (good : Automaton → Prop) : Prop where
  context : ∀ {automaton : Automaton}, good automaton →
    ∀ place, fits (automaton.context place)
  endOfInput : fits (.singleton Terminal.endOfInput)
  heads : ∀ item : Item, fits (first.heads (item.tail grammar)).1
  union : ∀ {left right : TerminalSet}, fits left → fits right →
    fits (left ∪ right)
  modify : ∀ {automaton : Automaton} {change : Configuration → Configuration},
    good automaton →
      (∀ configuration, Configuration.Retraces fits configuration
        (change configuration)) →
        ∀ place, good (automaton.modifyConfiguration place change)
  share : ∀ {automaton : Automaton} {change : Configuration → Configuration},
    good automaton →
      (∀ configuration, Configuration.Retraces fits configuration
        (change configuration)) →
        ∀ number, good (automaton.modify number fun state =>
          state.mapConfigurations change)

namespace Keeps

variable {grammar : Grammar} {first : FirstSets}
  {fits : TerminalSet → Prop} {good : Automaton → Prop} {tracing : Tracing}
  (keeps : Keeps grammar first fits good)

include keeps

theorem generate (holds : good tracing.automaton) (place : Place)
    {heads : TerminalSet} (fitting : fits heads) :
    good (tracing.generate place heads).automaton := by
  apply keeps.modify holds
  intro configuration
  exact ⟨⟨rfl, rfl, rfl⟩, rfl, fun own => keeps.union own fitting⟩

theorem inherit (holds : good tracing.automaton) (place source : Place) :
    good (tracing.inherit place source).automaton := by
  apply keeps.modify holds
  intro configuration
  exact ⟨⟨rfl, rfl, rfl⟩, rfl,
    fun own => keeps.union own (keeps.context holds source)⟩

theorem shareContext (holds : good tracing.automaton) (place : Place) :
    good (tracing.shareContext grammar place).automaton := by
  have shared := keeps.context holds place
  unfold Tracing.shareContext
  dsimp only
  split
  · exact holds
  · apply keeps.share holds
    intro configuration
    split
    · exact ⟨⟨rfl, rfl, rfl⟩, rfl, fun _ => shared⟩
    · exact ⟨.refl _, rfl, id⟩

theorem settle (holds : good tracing.automaton) {context : TerminalSet}
    (fitting : fits context) (member : Place) :
    good (tracing.settle grammar context member).automaton := by
  apply keeps.shareContext
  apply keeps.modify holds
  intro configuration
  exact ⟨⟨rfl, rfl, rfl⟩, rfl, fun own => keeps.union own fitting⟩

theorem closeComponent (root : Place) {context : TerminalSet}
    (fitting : fits context) (members : List Place)
    (holds : good tracing.automaton) :
    good (tracing.closeComponent grammar root context members).automaton := by
  induction members generalizing tracing with
  | nil => exact holds
  | cons member rest ih =>
      have settled := keeps.settle holds fitting member
      rw [closeComponent_cons]
      split
      · exact settled
      · exact ih settled

theorem finish (holds : good tracing.automaton) (place : Place)
    (parent : Option Place) :
    good (tracing.finish grammar place parent).automaton := by
  have left : good (tracing.leave place).automaton := holds
  have closed := keeps.closeComponent place
    (keeps.context left place) tracing.lane left
  rw [finish_eq]
  generalize outcome : (if (tracing.leave place).lowOf place =
    (tracing.leave place).orderOf place then _ else _) = result
  have rested : good result.automaton := by
    subst outcome
    split
    · exact closed
    · exact left
  cases parent with
  | none => exact rested
  | some parent =>
      have lowered : good (result.lower parent
          ((tracing.leave place).lowOf place)).automaton := rested
      exact keeps.inherit lowered parent place

theorem fromOriginators {edges : List LaneEdge}
    (holds : good tracing.automaton) (place : Place) (indices : List Nat) :
    good (indices.foldl (fromOriginator grammar first place)
      (tracing, edges)).1.automaton := by
  induction indices generalizing tracing edges with
  | nil => exact holds
  | cons index rest ih =>
      have step : good (fromOriginator grammar first place (tracing, edges)
          index).1.automaton := by
        unfold fromOriginator
        dsimp only
        split
        · exact holds
        · exact keeps.generate holds place (keeps.heads _)
      exact ih step

theorem lanesOn (holds : good tracing.automaton) (place : Place) :
    good (lanesOn grammar first tracing place).1.automaton := by
  unfold Tracing.lanesOn
  dsimp only
  split
  · exact keeps.generate holds place keeps.endOfInput
  · split
    · exact holds
    · exact keeps.fromOriginators holds place _

theorem visit (holds : good tracing.automaton) (place : Place)
    (parent : Option Place) (crossings : Nat) :
    good (tracing.visit grammar first place parent crossings).automaton := by
  have entered : good (tracing.enter place parent crossings).automaton := by
    apply keeps.modify holds
    intro configuration
    exact ⟨⟨rfl, rfl, rfl⟩, rfl, id⟩
  have lanes := keeps.lanesOn entered place
  rw [visit_eq]
  generalize Tracing.lanesOn grammar first
    (tracing.enter place parent crossings) place = on at lanes ⊢
  exact lanes

theorem follow (holds : good tracing.automaton) (edge : LaneEdge) :
    good (tracing.follow grammar first edge).automaton := by
  unfold Tracing.follow
  split
  · exact keeps.inherit holds _ _
  · dsimp only
    split
    · exact keeps.visit holds _ _ _
    · apply keeps.inherit
      dsimp only [lower]
      split
      · rw [recordAmbiguity_eq]
        exact holds
      · exact holds

theorem run (limit : Nat) (holds : good tracing.automaton) :
    good (tracing.run grammar first limit).automaton := by
  induction limit generalizing tracing with
  | zero => exact holds
  | succ limit ih =>
      cases found : tracing.frames with
      | nil =>
          rw [Tracing.run, found]
          exact holds
      | cons frame rest =>
          have popped :
              good ({ tracing with frames := rest } : Tracing).automaton :=
            holds
          cases frame with
          | follow edge =>
              rw [Tracing.run, found]
              exact ih (keeps.follow popped edge)
          | finish place parent =>
              rw [Tracing.run, found]
              exact ih (keeps.finish popped place parent)

theorem traceLanes {automaton : Automaton} (holds : good automaton) :
    good (automaton.traceLanes grammar first).automaton := by
  unfold Automaton.traceLanes
  have begun : good (Tracing.begin automaton).automaton := holds
  generalize Tracing.begin automaton = tracing at begun ⊢
  generalize Tracing.frameBound automaton = limit
  induction automaton.traceRoots grammar generalizing tracing with
  | nil => exact begun
  | cons root rest ih =>
      apply ih
      unfold trace
      split
      · exact begun
      · exact keeps.run limit (keeps.visit begun root none 0)

end Keeps

end Tracing

end LRTables
