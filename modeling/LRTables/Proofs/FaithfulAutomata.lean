import LRTables.Proofs.Evidence
import LRTables.Proofs.ItemOrder
import LRTables.Proofs.PagerSplits
import LRTables.Proofs.Propagations
import LRTables.Proofs.Regions

/-!
# Faithful automata

With lookaheads, every way to construct an automaton yields one that holds all
that its words admit and nothing without a reason, and whose states list their
items in the same order.
-/

namespace LRTables

theorem Sustains.unrolled {grammar : Grammar} {first : FirstSets}
    {clean : Prop} {good : State → Prop}
    (sustains : Sustains grammar first clean good) :
    Sustains grammar first clean fun state =>
      good state ∧ state.Unrolled grammar := by
  have reset {state : State} (regular : state.Regular grammar)
      (closed : state.ItemsClosed grammar) :
      state.SameItems (state.resetContexts grammar first) := by
    have same := state.cleared_sameItems
    have cleared : state.cleared.Regular grammar :=
      same.regular regular regular.originators.cleared
    exact same.trans ((same.itemsClosed closed).close_sameItems
      cleared.distinct)
  constructor
  · rintro state ⟨holds, -⟩
    exact sustains.snug state holds
  · rintro old new alike ⟨holds, unrolled⟩
    exact ⟨sustains.alike old new alike holds,
      alike.sameItems.unrolled unrolled⟩
  · rintro state regular closed ⟨holds, unrolled⟩
    exact ⟨sustains.reset state regular closed holds,
      (reset regular closed).unrolled unrolled⟩
  · rintro dirty state new regular closed ⟨holds, unrolled⟩ joined
    exact ⟨sustains.restored dirty state new regular closed holds joined,
      joined.sameItems.unrolled ((reset regular closed).unrolled unrolled)⟩
  · rintro source target new symbol regular closed ⟨sourceHolds, -⟩
      ⟨holds, unrolled⟩ matching receives joined
    exact ⟨sustains.joined source target new symbol regular closed sourceHolds
        holds matching receives joined,
      joined.sameItems.unrolled unrolled⟩

namespace Automaton

variable {grammar : Grammar} {first : FirstSets} {automaton : Automaton}

/-- No transition and no lookahead is missing, every lookahead has a reason,
and the items of each state are in order. -/
structure Faithful (grammar : Grammar) (first : FirstSets)
    (automaton : Automaton) : Prop where
  framed : automaton.Framed grammar
  total : automaton.Total grammar
  saturated : automaton.Saturated grammar first
  evident : automaton.All (State.Evident grammar)
  unrolled : automaton.All (State.Unrolled grammar)

theorem Faithful.all (faithful : automaton.Faithful grammar first) :
    automaton.All fun state =>
      state.Evident grammar ∧ state.Unrolled grammar :=
  fun number inside =>
    ⟨faithful.evident number inside, faithful.unrolled number inside⟩

section Faithful

variable (wellFormed : grammar.WellFormed) (unused : grammar.GoalUnused)
  (exact : first.Exact grammar)

theorem All.terminated (wellFormed : grammar.WellFormed)
    (evident : automaton.All (State.Evident grammar)) :
    automaton.Terminated grammar := by
  intro number inside item terminal has
  obtain ⟨word, -, admits⟩ :=
    (evident number inside).attested.context item terminal has
  exact admits.lt wellFormed

include wellFormed unused exact in
theorem Faithful.adequate (faithful : automaton.Faithful grammar first) :
    automaton.Adequate grammar false :=
  adequate_of_saturated wellFormed unused exact faithful.framed faithful.total
    (faithful.evident.terminated wellFormed) faithful.saturated

include wellFormed unused exact in
theorem faithful_of_collect? {precision : Precision}
    (tracks : precision.tracksContexts = true)
    (result : collect? grammar first precision = some automaton) :
    automaton.Faithful grammar first := by
  have attested := collected_of_collect? wellFormed unused exact
    (Collecting.keeps_attested wellFormed unused exact) result
  have unrolled := collected_of_collect? wellFormed unused exact
    (Collecting.keeps_unrolled wellFormed unused exact) result
  constructor
  · exact attested.framed
  · exact attested.total
  · exact saturated_of_collect? wellFormed unused exact tracks result
  · intro number inside
    obtain ⟨sound, holds⟩ := attested.states number inside
    exact ⟨sound.snug, holds⟩
  · intro number inside
    exact (unrolled.states number inside).2

/-- A scanned symbol leads on to the advanced item with its lookaheads. -/
theorem Faithful.advance {base : List Symbol} {top : Nat} {item : Item}
    (faithful : automaton.Faithful grammar first)
    (leads : automaton.Leads base top)
    (present : item ∈ (automaton.state top).items) {symbol : Symbol}
    (scanned : item.scanned grammar = some symbol) :
    ∃ target, (automaton.state top).successor? symbol = some target ∧
      item.advance ∈ (automaton.state target).items ∧
      ∀ terminal, (automaton.state top).HasContext item terminal →
        (automaton.state target).HasContext item.advance terminal := by
  obtain ⟨target, edge⟩ := faithful.total base top leads symbol
    (State.mem_scannedSymbols.mpr ⟨item, present, scanned⟩)
  refine ⟨target, edge, ?_, ?_⟩
  · apply State.coreItems_subset
    rw [faithful.framed.edges top symbol target edge,
      State.mem_successorItems]
    exact ⟨item, present, scanned, rfl⟩
  · intro terminal has
    exact faithful.saturated.feeds base top leads symbol target edge item
      terminal has scanned

include wellFormed unused in
theorem Faithful.items_eq {other : Automaton}
    (faithful : automaton.Faithful grammar first)
    (otherFaithful : other.Faithful grammar first) {word : List Symbol}
    {number place : Nat} (leads : automaton.Leads word number)
    (otherLeads : other.Leads word place) :
    (other.state place).items = (automaton.state number).items := by
  have framed := faithful.framed
  have otherFramed := otherFaithful.framed
  apply (otherFaithful.unrolled place (otherFramed.lt_size otherLeads)).items_eq
    (faithful.unrolled number (framed.lt_size leads))
  exact otherFramed.coreItems_eq wellFormed unused otherLeads
    (framed.hasKernel wellFormed unused leads)
    (framed.ascending_coreItems leads)

section Traced

variable {base : Automaton} (traced : TracedFrom grammar first base automaton)

include wellFormed unused traced in
theorem TracedFrom.hasKernel {word : List Symbol} {number : Nat}
    (leads : base.Leads word number) :
    (automaton.state number).HasKernel grammar word :=
  traced.framed.hasKernel wellFormed unused
    (traced.retraced.sameFrame.leads_iff.mpr leads)

include wellFormed unused exact traced in
theorem TracedFrom.evident : automaton.All (State.Evident grammar) := by
  intro number inside
  rw [traced.retraced.size] at inside
  have contexts {item : Item} {terminal : Nat} :=
    @hasContext_iff grammar first base wellFormed unused exact automaton traced
      number item terminal inside
  constructor
  · intro item terminal has
    obtain ⟨word, leads, admits⟩ := contexts.mp has
    have core : (· ∈ (automaton.state number).coreItems) =
        grammar.Kernel word :=
      funext fun other =>
        propext (traced.hasKernel wellFormed unused leads other)
    rw [core]
    apply (Grammar.admits_iff_carries.mp admits).mono
    intro other _ lookahead admitted
    exact contexts.mpr ⟨word, leads, admitted⟩
  · constructor
    · obtain ⟨word, leads⟩ := traced.lookaheadless.reached number inside
      exact ⟨word, traced.hasKernel wellFormed unused leads⟩
    · intro item terminal has
      obtain ⟨word, leads, admits⟩ := contexts.mp has
      exact ⟨word, traced.hasKernel wellFormed unused leads, admits⟩

include wellFormed unused exact traced in
theorem TracedFrom.saturated : automaton.Saturated grammar first := by
  have framed := traced.framed
  have inside {number : Nat} (member : number < automaton.size) :
      number < base.size := traced.retraced.size ▸ member
  have same := traced.retraced.sameFrame
  constructor
  · exact (traced.hasContext_iff wellFormed unused exact
      (inside framed.positive)).mpr ⟨[], .start, .goal⟩
  · intro word number leads
    exact traced.closed wellFormed unused exact (framed.lt_size leads)
  · intro word number leads symbol target edge item terminal has scanned
    obtain ⟨front, before, admits⟩ :=
      (traced.hasContext_iff wellFormed unused exact
        (inside (framed.lt_size leads))).mp has
    rw [same.successor?_eq] at edge
    exact (traced.hasContext_iff wellFormed unused exact
      (inside (framed.bounded _ _ _ (same.successor?_eq number symbol ▸
        edge)))).mpr ⟨front ++ [symbol], .step before edge,
          Grammar.admits_append.mpr ⟨admits, scanned⟩⟩

include wellFormed unused exact traced in
theorem TracedFrom.faithful (unrolled : base.All (State.Unrolled grammar)) :
    automaton.Faithful grammar first := by
  constructor
  · exact traced.framed
  · exact traced.retraced.total traced.lookaheadless.collected.total
  · exact traced.saturated wellFormed unused exact
  · exact traced.evident wellFormed unused exact
  · intro number inside
    rw [traced.retraced.size] at inside
    exact (traced.retraced.sameItems number).unrolled (unrolled number inside)

end Traced

end Faithful

end Automaton

namespace Splitting

variable {grammar : Grammar} {first : FirstSets} {base : Automaton}
  {splitting done : Splitting} {good : State → Prop}
  (wellFormed : grammar.WellFormed) (unused : grammar.GoalUnused)
  (exact : first.Exact grammar)
  (sustains : Sustains grammar first False good)

include wellFormed unused exact sustains in
theorem sealed_resetAll (sealed : splitting.automaton.Sealed grammar first)
    (total : splitting.automaton.Total grammar)
    (all : splitting.automaton.All good) (numbers : List Nat) :
    (numbers.foldl (reset grammar first)
        splitting).automaton.Sealed grammar first ∧
      (numbers.foldl (reset grammar first)
        splitting).automaton.Total grammar ∧
      (numbers.foldl (reset grammar first) splitting).automaton.All good := by
  induction numbers generalizing splitting with
  | nil => exact ⟨sealed, total, all⟩
  | cons number rest ih =>
      apply ih
      · exact sealed.reset wellFormed unused exact number
      · exact total.of_sameFrame
          (sealed.sameFrame_reset wellFormed unused exact number)
      · exact sustains.resetAt sealed all number

/-- The splitting whose contexts are about to be computed anew. -/
def prepared (grammar : Grammar) (first : FirstSets) (splitting : Splitting) :
    Splitting :=
  splitting.families.members.foldl (reset grammar first)
    { splitting with automaton := splitting.automaton.detachUnreachable }

theorem regenerate_eq : splitting.regenerate grammar first = (do
    let (automaton, _) ←
      (splitting.prepared grammar first).automaton.propagate grammar first
    return { splitting.prepared grammar first with automaton }) :=
  rfl

theorem Kept.sealed_detach (kept : splitting.Kept grammar first good base) :
    splitting.automaton.detachUnreachable.Sealed grammar first :=
  kept.intact.toSealed.of_alike kept.intact.framed.detach
    Automaton.size_detach Automaton.alike_detach

include wellFormed unused exact sustains in
theorem Kept.prepared (kept : splitting.Kept grammar first good base) :
    (splitting.prepared grammar first).automaton.Sealed grammar first ∧
      (splitting.prepared grammar first).automaton.Total grammar ∧
      (splitting.prepared grammar first).automaton.All good := by
  have intact := kept.intact
  exact @sealed_resetAll grammar first
    { splitting with automaton := splitting.automaton.detachUnreachable }
    _ wellFormed unused exact sustains kept.sealed_detach
    (intact.total.detach intact.framed)
    (kept.good.of_alike sustains.alike Automaton.size_detach
      Automaton.alike_detach) splitting.families.members

include wellFormed unused exact in
/-- Once the contexts are computed anew, the automaton is faithful. -/
theorem faithful_regenerate
    (kept : splitting.Kept grammar first
      (fun state => state.Evident grammar ∧ state.Unrolled grammar) base)
    (result : splitting.regenerate grammar first = .ok done) :
    done.automaton.Faithful grammar first := by
  have sustains :=
    (sustains_evident wellFormed unused exact False).unrolled
  obtain ⟨cleared, clearedTotal, clearedAll⟩ :=
    kept.prepared wellFormed unused exact sustains
  rw [regenerate_eq] at result
  obtain ⟨⟨automaton, updates⟩, propagation, final⟩ := ok_of_bind result
  cases final
  have propagated := cleared.propagate wellFormed unused exact sustains
    clearedAll propagation
  constructor
  · exact propagated.sealed.framed
  · exact clearedTotal.of_sameFrame propagated.same
  · exact propagated.saturated
  · exact fun number inside => (propagated.all number inside).1
  · exact fun number inside => (propagated.all number inside).2

end Splitting

end LRTables
