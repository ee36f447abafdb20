import LRTables.Proofs.AcceptClashes
import LRTables.Proofs.Failures
import LRTables.Proofs.PagerPrecision
import LRTables.Proofs.StartTransitions

/-!
# Agreement on clashes

The automata of all constructions with lookaheads number the accepting state
alike, so that a clash is reported for the same state and rule whichever of
them is chosen.  Lane tracing reports it before a state is split, and after a
split there is no other one.
-/

namespace LRTables

open Automaton

namespace DecidedBy

variable {Value Result : Type} {clash? : Option (Nat × Nat)}
  {source : Except ConstructionError Value}

theorem eq_none (decided : DecidedBy clash? source) {value : Value}
    (result : source = .ok value) : clash? = none := by
  cases clash? with
  | none => rfl
  | some clash => cases decided.symm.trans result

/-- What cannot fail may follow. -/
theorem bind {next : Value → Except ConstructionError Result}
    (decided : DecidedBy clash? source)
    (succeeds : ∀ value, source = .ok value →
      ∃ result, next value = .ok result) :
    DecidedBy clash? (source.bind next) := by
  cases clash? with
  | none =>
      obtain ⟨value, result⟩ := decided
      rw [result]
      exact succeeds value result
  | some clash =>
      obtain ⟨state, rule⟩ := clash
      have failed : source = .error (.acceptReduceClash state rule) := decided
      rw [failed]
      exact rfl

end DecidedBy

namespace Construction

variable {grammar : Grammar} {first : FirstSets} {base automaton : Automaton}
  (wellFormed : grammar.WellFormed) (unused : grammar.GoalUnused)
  (exact : first.Exact grammar)

include wellFormed unused exact in
theorem exists_plain : ∃ output, plain grammar first = .ok output := by
  obtain ⟨automaton, found⟩ := exists_collect? wellFormed exact .lr0
  have adequate : automaton.Adequate grammar true :=
    adequate_of_collect? wellFormed unused exact found
  obtain ⟨table, filled⟩ := Table.exists_ofAutomaton wellFormed adequate.framed
    adequate.terminated fun _ _ _ => Or.inl rfl
  rw [plain, collect_of_collect? found]
  simp only [bind, Except.bind, filled]
  exact ⟨_, rfl⟩

include wellFormed unused exact in
theorem decided_withLookaheads {precision : Precision}
    (tracks : precision.tracksContexts = true)
    (found : collect? grammar first precision = some automaton) :
    DecidedBy (automaton.clash? grammar)
      (withLookaheads grammar first precision) := by
  have faithful := faithful_of_collect? wellFormed unused exact tracks found
  rw [withLookaheads, collect_of_collect? found]
  exact (faithful.decided wellFormed unused exact).bind fun table _ => ⟨_, rfl⟩

section Traced

variable {log : ConflictLog} {limit : Nat} {strategy : SplitStrategy}
  (collected : collect? grammar first .lr0 = some base)
  (traced : TracedFrom grammar first base automaton)
  (unrolled : base.All (State.Unrolled grammar))

include wellFormed unused exact collected traced unrolled in
/-- A split by weak compatibility does not fail, and one by clusters fails only
when it is stopped. -/
theorem exists_split
    (ends : strategy = .clusters → split limit grammar first strategy
      (automaton.markConflictLanes grammar first log).1
      (automaton.markConflictLanes grammar first log).2 ≠
        .error .unfinished) :
    ∃ splitting, split limit grammar first strategy
      (automaton.markConflictLanes grammar first log).1
      (automaton.markConflictLanes grammar first log).2 = .ok splitting := by
  cases strategy with
  | pager =>
      -- Overlaps do not matter here.
      have hereditary : grammar.Hereditary fun _ _ => False :=
        ⟨fun _ _ _ _ _ => id, fun _ _ _ _ => id, fun _ _ _ _ => id⟩
      obtain ⟨splitting, divided, kept, saturated⟩ := traced.exists_settled
        wellFormed unused exact collected unrolled hereditary
        fun _ _ _ _ _ none => none.elim
      obtain ⟨done, regenerated, -⟩ := Splitting.exists_regenerate wellFormed
        unused exact (kept.mono fun _ good => good.1.1) saturated
      refine ⟨done, ?_⟩
      rw [split, divided]
      exact regenerated
  | clusters =>
      cases divided : split limit grammar first .clusters
          (automaton.markConflictLanes grammar first log).1
          (automaton.markConflictLanes grammar first log).2 with
      | ok splitting => exact ⟨splitting, rfl⟩
      | error error =>
          rw [divided, eq_unfinished_of_split wellFormed unused exact traced
            unrolled divided] at ends
          exact absurd rfl (ends rfl)

include wellFormed unused exact traced unrolled in
theorem exists_splitTable {splitting : Splitting}
    (clean : automaton.clash? grammar = none)
    (result : split limit grammar first strategy
      (automaton.markConflictLanes grammar first log).1
      (automaton.markConflictLanes grammar first log).2 = .ok splitting) :
    ∃ table, Table.ofAutomaton grammar splitting.automaton false =
      .ok table := by
  have faithful := traced.faithful wellFormed unused exact unrolled
  have after :=
    faithful_split wellFormed unused exact traced unrolled result
  have decided := after.decided wellFormed unused exact
  rw [faithful.clash?_eq_none_iff wellFormed unused exact,
    ← after.clash?_eq_none_iff wellFormed unused exact] at clean
  rwa [clean] at decided

include wellFormed unused exact collected traced unrolled in
/-- Lane tracing is decided by the clash of the traced automaton, unless
splitting by clusters is stopped. -/
theorem decided_ofTraced {chosen : Option SplitStrategy} {lr0States : Nat}
    {tracing : Tracing} (same : tracing.automaton = automaton)
    (ends : chosen = some .clusters →
      ofTraced limit grammar first chosen lr0States tracing ≠
        .error .unfinished) :
    DecidedBy (automaton.clash? grammar)
      (ofTraced limit grammar first chosen lr0States tracing) := by
  subst same
  have decided := (traced.faithful wellFormed unused exact unrolled).decided
    wellFormed unused exact
  rw [ofTraced] at ends ⊢
  refine decided.bind fun table filled => ?_
  have clean := decided.eq_none filled
  rw [filled] at ends
  cases chosen with
  | none => exact ⟨_, rfl⟩
  | some strategy =>
      dsimp only [bind, Except.bind] at ends ⊢
      split
      · exact ⟨_, rfl⟩
      · rename_i contested
        rw [if_neg contested] at ends
        split
        · exact ⟨_, rfl⟩
        · rename_i lanes
          rw [if_neg lanes] at ends
          obtain ⟨splitting, divided⟩ := exists_split wellFormed unused exact
            collected traced unrolled fun isClusters stopped =>
              ends (congrArg some isClusters) (by rw [stopped])
          obtain ⟨splitTable, splitFilled⟩ := exists_splitTable wellFormed
            unused exact traced unrolled clean divided
          rw [divided]
          dsimp only
          rw [splitFilled]
          exact ⟨_, rfl⟩

end Traced

include wellFormed unused exact in
theorem decided_byLanes {limit : Nat} {chosen : Option SplitStrategy}
    (collected : collect? grammar first .lr0 = some base)
    (ends : chosen = some .clusters →
      (byLanes limit grammar first chosen).built ≠ .error .unfinished) :
    DecidedBy ((base.traceLanes grammar first).automaton.clash? grammar)
      (byLanes limit grammar first chosen).built := by
  obtain ⟨traced, unrolled⟩ :=
    tracedFrom_of_collect? wellFormed unused exact collected
  rw [built_byLanes collected] at ends ⊢
  exact decided_ofTraced wellFormed unused exact collected traced unrolled rfl
    ends

include wellFormed unused exact in
theorem clash?_eq {precision : Precision}
    (tracks : precision.tracksContexts = true)
    (collected : collect? grammar first .lr0 = some base)
    (found : collect? grammar first precision = some automaton) :
    automaton.clash? grammar =
      (base.traceLanes grammar first).automaton.clash? grammar := by
  obtain ⟨traced, unrolled⟩ :=
    tracedFrom_of_collect? wellFormed unused exact collected
  apply (traced.faithful wellFormed unused exact unrolled).clash?_eq wellFormed
    unused exact
      (faithful_of_collect? wellFormed unused exact tracks found)
  rw [traced.retraced.sameFrame.successor?_eq]
  exact successor?_start_eq wellFormed unused exact found collected _

end Construction

/-- The construction has lookaheads and tolerates conflicts, and if it splits
by clusters, it is not stopped by its limit. -/
structure Grammar.Concludes (grammar : Grammar) (limit : Nat)
    (options : Options) : Prop where
  tracks : options.mode ≠ .lr0
  lenient : options.strict = false
  ends : options.mode = .laneTracing .clusters →
    grammar.generateWithin limit options ≠ .error .unfinished

namespace Grammar

variable {grammar : Grammar} (wellFormed : grammar.WellFormed)
  (unused : grammar.GoalUnused)

theorem generateWithin_of_lenient {limit : Nat} {options : Options}
    (lenient : options.strict = false) :
    grammar.generateWithin limit options =
      (grammar.constructWithin limit options).built := by
  cases built : (grammar.constructWithin limit options).built with
  | ok output => exact generateWithin_of_built lenient built
  | error error =>
      rw [generateWithin, built]
      rfl

include wellFormed unused in
/-- One clash, or none, decides all constructions that conclude. -/
theorem exists_decided :
    ∃ clash? : Option (Nat × Nat), (clash? = none ↔ ¬ grammar.ReducesAtEnd) ∧
      ∀ limit options, grammar.Concludes limit options →
        DecidedBy clash? (grammar.generateWithin limit options) := by
  have exact := FirstSets.exact_ofGrammar wellFormed
  obtain ⟨base, collected⟩ := exists_collect? wellFormed exact .lr0
  obtain ⟨traced, unrolled⟩ :=
    Construction.tracedFrom_of_collect? wellFormed unused exact collected
  have reduces := (traced.faithful wellFormed unused exact
    unrolled).clash?_eq_none_iff wellFormed unused exact
  have byLanes (limit : Nat) {chosen : Option SplitStrategy} :=
    @Construction.decided_byLanes grammar (.ofGrammar grammar) base wellFormed
      unused exact limit chosen collected
  have bySearch (options : Options) :
      DecidedBy ((base.traceLanes grammar
          (.ofGrammar grammar)).automaton.clash? grammar)
        (Construction.withLookaheads grammar (.ofGrammar grammar)
          options.precision) := by
    have tracks := tracksContexts_precision options
    obtain ⟨automaton, found⟩ :=
      exists_collect? wellFormed exact options.precision
    rw [← Construction.clash?_eq wellFormed unused exact tracks collected
      found]
    exact Construction.decided_withLookaheads wellFormed unused exact tracks
      found
  -- What the clash is does not matter from here on.
  generalize (base.traceLanes grammar
    (.ofGrammar grammar)).automaton.clash? grammar = clash?
    at reduces byLanes bySearch
  refine ⟨clash?, reduces, ?_⟩
  rintro limit options ⟨tracks, lenient, ends⟩
  rw [generateWithin_of_lenient lenient] at ends ⊢
  rw [constructWithin] at ends ⊢
  cases isMode : options.mode with
  | lr0 => exact absurd isMode tracks
  | lr1 => exact bySearch options
  | lalr =>
      apply byLanes
      intro isClusters
      cases isClusters
  | laneTracing strategy =>
      rw [isMode] at ends
      apply byLanes
      intro isClusters
      cases isClusters
      exact ends rfl

include wellFormed unused in
/-- Without lookaheads acceptance takes precedence. -/
theorem generateWithin_ne_clash {limit : Nat} {options : Options}
    (plain : options.mode = .lr0) (state rule : Nat) :
    grammar.generateWithin limit options ≠
      .error (.acceptReduceClash state rule) := by
  obtain ⟨output, built⟩ := Construction.exists_plain wellFormed unused
    (FirstSets.exact_ofGrammar wellFormed)
  have constructed :
      (grammar.constructWithin limit options).built = .ok output := by
    rw [constructWithin, plain]
    exact built
  rw [generateWithin, constructed]
  intro failed
  change grammar.checkExpected options output = _ at failed
  rw [checkExpected] at failed
  split at failed <;> cases failed

end Grammar

/-- Either all constructions that conclude yield a table, or a rule can be
reduced where acceptance is due, and all of them fail for the same rule in the
same state.  Without lookaheads none fails for that reason. -/
theorem clashes_agree {grammar : Grammar} (accepted : grammar.Accepted)
    (unused : grammar.GoalUnused) :
    (¬ grammar.ReducesAtEnd ∧
        (∀ limit options, grammar.Concludes limit options →
          ∃ output, grammar.generateWithin limit options = .ok output) ∨
      grammar.ReducesAtEnd ∧
        ∃ state rule, ∀ limit options, grammar.Concludes limit options →
          grammar.generateWithin limit options =
            .error (.acceptReduceClash state rule)) ∧
    ∀ limit options state rule, options.mode = .lr0 →
      grammar.generateWithin limit options ≠
        .error (.acceptReduceClash state rule) := by
  have wellFormed := accepted.wellFormed
  obtain ⟨clash?, reduces, decided⟩ :=
    Grammar.exists_decided wellFormed unused
  constructor
  · cases clash? with
    | none => exact Or.inl ⟨reduces.mp rfl, decided⟩
    | some clash =>
        refine Or.inr ⟨?_, clash.1, clash.2, decided⟩
        by_contra none
        cases reduces.mpr none
  · intro limit options state rule plain
    exact Grammar.generateWithin_ne_clash wellFormed unused plain state rule

theorem reducesAtEnd_looped : Grammar.looped.ReducesAtEnd := by
  have begins : Grammar.looped.Admits [] { rule := 1, dot := 0 }
      Terminal.endOfInput :=
    .inherited .goal rfl (by decide) Grammar.Vanishes.nil
  exact ⟨{ rule := 1, dot := 1 }, .advance begins rfl, by decide, by decide⟩

theorem clashes_agree_looped :
    (∃ state rule, ∀ limit options,
      Grammar.looped.Concludes limit options →
        Grammar.looped.generateWithin limit options =
          .error (.acceptReduceClash state rule)) ∧
    ∀ limit options state rule, options.mode = .lr0 →
      Grammar.looped.generateWithin limit options ≠
        .error (.acceptReduceClash state rule) := by
  obtain ⟨agree, plain⟩ := clashes_agree accepted_looped goalUnused_looped
  refine ⟨?_, plain⟩
  rcases agree with ⟨none, -⟩ | ⟨-, refused⟩
  · exact absurd reducesAtEnd_looped none
  · exact refused

end LRTables
