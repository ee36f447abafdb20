import LRTables.Proofs.Collections
import LRTables.Proofs.Tables

/-!
# Lookaheads of the core

Closing a state leaves the lookaheads of its core alone, and those of the other
items follow from them.  So what holds of the lookaheads of all cores can be
spread to the states.
-/

namespace LRTables

theorem Grammar.Admits.lt {grammar : Grammar}
    (wellFormed : grammar.WellFormed) {word : List Symbol} {item : Item}
    {terminal : Nat} (admits : grammar.Admits word item terminal) :
    terminal < grammar.terminals.size := by
  induction admits with
  | goal => exact wellFormed.hasEnd
  | generated _ _ _ begins =>
      exact begins.lt wellFormed (Grammar.declares_tail wellFormed _)
  | inherited _ _ _ _ ih => exact ih
  | advance _ _ ih => exact ih

namespace State

variable {grammar : Grammar} {first : FirstSets} {contexts : Bool}
  {state : State}

/-- Closing changes no lookahead of the core. -/
theorem Regular.hasContext_close (wellFormed : grammar.WellFormed)
    (unused : grammar.GoalUnused) (regular : state.Regular grammar)
    {item : Item} (inKernel : item.InKernel) {terminal : Nat} :
    (state.close grammar first contexts).1.HasContext item terminal ↔
      state.HasContext item terminal := by
  have grows : state.Extends (state.close grammar first contexts).1 :=
    close_extends
  have closed : (state.close grammar first contexts).1.Regular grammar :=
    regular.close wellFormed unused
  constructor
  · intro has
    have member := closed.mem_coreItems.mpr ⟨has.mem_items, inKernel⟩
    rw [close_coreItems regular.coreCount_le] at member
    obtain ⟨index, core, rfl⟩ :=
      (State.mem_coreItems regular.coreCount_le).mp member
    have inside := Nat.lt_of_lt_of_le core regular.coreCount_le
    have kept : (state.close grammar first contexts).1.configuration index =
        state.configuration index :=
      close_core wellFormed unused inside inKernel
    rw [← kept] at has
    have present := (closed.hasContext_iff
      (Nat.lt_of_lt_of_le inside grows.size_le)).mp has
    rw [kept] at present
    exact ⟨index, inside, rfl, present⟩
  · exact grows.hasContext

theorem Snug.terminated (wellFormed : grammar.WellFormed)
    (snug : state.Snug grammar)
    (core : ∀ item ∈ state.coreItems, ∀ terminal,
      state.HasContext item terminal → terminal < grammar.terminals.size) :
    state.Terminated grammar := by
  intro item terminal has
  have carries := snug item terminal has
  clear has
  induction carries with
  | kernel member present => exact core _ member _ present
  | generated _ _ _ begins =>
      exact begins.lt wellFormed (Grammar.declares_tail wellFormed _)
  | inherited _ _ _ _ ih => exact ih

end State

namespace Collecting

variable {grammar : Grammar} {first : FirstSets} {precision : Precision}

theorem hasContext_startState (wellFormed : grammar.WellFormed)
    (unused : grammar.GoalUnused) {item : Item} (inKernel : item.InKernel)
    {terminal : Nat}
    (has : (startState grammar first precision).HasContext item terminal) :
    item = .goal ∧ terminal = Terminal.endOfInput := by
  rw [startState, (regular_goalCore _).hasContext_close wellFormed unused
    inKernel, State.hasContext_ofCores] at has
  obtain ⟨configuration, member, rfl, inContext⟩ := has
  rw [List.mem_singleton] at member
  subst member
  refine ⟨rfl, ?_⟩
  dsimp only [Configuration.ofItem] at inContext
  split at inContext
  · exact TerminalSet.mem_singleton.mp inContext
  · exact absurd inContext (TerminalSet.not_mem_empty terminal)

theorem hasContext_freshState (wellFormed : grammar.WellFormed)
    (unused : grammar.GoalUnused) {source : State} (distinct : source.Distinct)
    {symbol : Symbol} {item : Item} (inKernel : item.InKernel)
    {terminal : Nat} :
    (freshState grammar first precision source symbol).HasContext item
        terminal ↔
      State.Arrives (source.successorCores grammar precision.tracksContexts
        symbol) item terminal := by
  have regular : (State.ofCores (some symbol) (source.successorCores grammar
      precision.tracksContexts symbol)).Regular grammar :=
    State.regular_ofSuccessorCores distinct
  rw [freshState, regular.hasContext_close wellFormed unused inKernel,
    State.hasContext_ofCores]

theorem exists_origin_of_arrives {source : State} {symbol : Symbol}
    {item : Item} {terminal : Nat}
    (arrives : State.Arrives (source.successorCores grammar
      precision.tracksContexts symbol) item terminal) :
    ∃ origin, source.HasContext origin terminal ∧
      origin.scanned grammar = some symbol ∧ item = origin.advance := by
  cases tracks : precision.tracksContexts with
  | false =>
      rw [tracks] at arrives
      exact absurd arrives State.not_arrives_successorCores
  | true =>
      rw [tracks] at arrives
      exact State.arrives_successorCores.mp arrives

/-- Throughout a search lookaheads are terminals of the grammar. -/
theorem keeps_terminated (wellFormed : grammar.WellFormed)
    (unused : grammar.GoalUnused) (exact : first.Exact grammar) :
    Keeps grammar first precision fun state => state.Terminated grammar := by
  have keepsSound : Keeps grammar first precision
      (State.Sound grammar first precision) :=
    keeps_sound wellFormed unused exact
  constructor
  · intro old new alike holds item terminal has
    exact holds item terminal (alike.hasContext_iff.mp has)
  · apply keepsSound.start.snug.terminated wellFormed
    intro item core terminal has
    have inKernel := (keepsSound.start.regular.mem_coreItems.mp core).2
    obtain ⟨-, rfl⟩ :=
      hasContext_startState wellFormed unused inKernel has
    exact wellFormed.hasEnd
  · intro source symbol sound holds
    have fresh := keepsSound.fresh source symbol sound sound
    apply fresh.snug.terminated wellFormed
    intro item core terminal has
    have inKernel := (fresh.regular.mem_coreItems.mp core).2
    rw [hasContext_freshState wellFormed unused sound.regular.distinct
      inKernel] at has
    obtain ⟨origin, before, -, -⟩ := exists_origin_of_arrives has
    exact holds origin terminal before
  · intro pager source target symbol _ sourceHolds sound holds matching _
    have joined := matching.joined wellFormed unused exact
      sound.closed.itemsClosed sound.snug
    apply joined.snug.terminated wellFormed
    intro item core terminal has
    have inKernel := (joined.regular.mem_coreItems.mp core).2
    rcases (joined.core item terminal inKernel).mp has with old | arrives
    · exact holds item terminal old
    · obtain ⟨origin, before, -, -⟩ :=
        State.arrives_successorCores.mp arrives
      exact sourceHolds origin terminal before

end Collecting

end LRTables
