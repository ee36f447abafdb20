import LRTables.Proofs.CoreLookaheads
import Mathlib.Data.Finset.Powerset

/-!
# How far a search can go

Every new state brings in contexts that no state with its core items had when
it was made, so that there are at most as many states as there are sets of
items with lookaheads.  The contexts of each state can grow only so often.
-/

namespace LRTables

open Finset

namespace Grammar

variable {grammar : Grammar}

/-- The item belongs to a rule of the grammar. -/
def Lists (grammar : Grammar) (item : Item) : Prop :=
  item.rule < grammar.rules.size ∧
    item.dot ≤ (grammar.right item.rule).length

/-- The items of a grammar. -/
def itemSet (grammar : Grammar) : Finset Item :=
  (range grammar.rules.size).biUnion fun rule =>
    (range ((grammar.right rule).length + 1)).image fun dot => ⟨rule, dot⟩

theorem mem_itemSet {item : Item} :
    item ∈ grammar.itemSet ↔ grammar.Lists item := by
  simp only [itemSet, mem_biUnion, mem_range, mem_image, Lists]
  constructor
  · rintro ⟨rule, inside, dot, bound, rfl⟩
    exact ⟨inside, Nat.lt_succ_iff.mp bound⟩
  · rintro ⟨inside, bound⟩
    exact ⟨item.rule, inside, item.dot, Nat.lt_succ_iff.mpr bound, rfl⟩

theorem itemCount_eq (grammar : Grammar) : grammar.itemCount =
    ∑ rule ∈ range grammar.rules.size,
      ((grammar.right rule).length + 1) := by
  have count (rules : List Rule) (start : Nat) :
      rules.foldl (fun count rule => count + rule.right.length + 1) start =
        start + ∑ index ∈ range rules.length,
          ((rules[index]?.elim [] Rule.right).length + 1) := by
    induction rules generalizing start with
    | nil => simp
    | cons rule rest ih =>
        rw [List.foldl_cons, ih, List.length_cons, sum_range_succ']
        simp only [List.getElem?_cons_succ, List.getElem?_cons_zero,
          Option.elim_some]
        omega
  rw [itemCount, ← Array.foldl_toList, count, Nat.zero_add,
    Array.length_toList]
  apply sum_congr rfl
  intro rule _
  rw [right, Array.getElem?_toList]

theorem card_itemSet_le (grammar : Grammar) :
    grammar.itemSet.card ≤ grammar.itemCount := by
  rw [itemCount_eq]
  refine card_biUnion_le.trans (sum_le_sum ?_)
  intro rule _
  refine card_image_le.trans ?_
  rw [card_range]

theorem lists_of_scanned {item : Item} {symbol : Symbol}
    (scans : item.scanned grammar = some symbol) :
    grammar.Lists item ∧ grammar.Lists item.advance := by
  have inside : item.dot < (grammar.right item.rule).length := by
    by_contra past
    rw [Item.scanned, Item.rest,
      List.drop_eq_nil_of_le (Nat.le_of_not_lt past)] at scans
    cases scans
  have rule : item.rule < grammar.rules.size := by
    by_contra past
    rw [right, Array.getElem?_eq_none (Nat.le_of_not_lt past)] at inside
    exact absurd inside (Nat.not_lt_zero _)
  exact ⟨⟨rule, Nat.le_of_lt inside⟩, ⟨rule, inside⟩⟩

theorem Spreads.lists {kernel : Item → Prop}
    (core : ∀ item, kernel item → grammar.Lists item) {item : Item}
    (spreads : grammar.Spreads kernel item) : grammar.Lists item := by
  induction spreads with
  | kernel member => exact core _ member
  | closure _ _ member _ =>
      exact ⟨(mem_rulesOf.mp member).1, Nat.zero_le _⟩

end Grammar

namespace State

variable {grammar : Grammar} {state : State}

/-- The core items are those of some rules, in increasing order. -/
structure Listed (grammar : Grammar) (state : State) : Prop where
  ascending : Item.Ascending state.coreItems
  lists : ∀ item ∈ state.coreItems, grammar.Lists item

theorem Listed.congr {old new : State} (listed : old.Listed grammar)
    (same : new.coreItems = old.coreItems) : new.Listed grammar := by
  constructor
  · rw [same]
    exact listed.ascending
  · rw [same]
    exact listed.lists

theorem Listed.items (listed : state.Listed grammar)
    (regular : state.Regular grammar) :
    ∀ item ∈ state.items, grammar.Lists item := by
  intro item member
  obtain ⟨index, inside, rfl⟩ := State.mem_items.mp member
  exact (regular.spreads index inside).lists listed.lists

theorem size_le_itemCount (distinct : state.Distinct)
    (lists : ∀ item ∈ state.items, grammar.Lists item) :
    state.configurations.size ≤ grammar.itemCount := by
  have nodup := State.distinct_iff_nodup.mp distinct
  have subset : state.items.toFinset ⊆ grammar.itemSet := by
    intro item member
    rw [List.mem_toFinset] at member
    exact Grammar.mem_itemSet.mpr (lists item member)
  have card := (card_le_card subset).trans grammar.card_itemSet_le
  rw [List.toFinset_card_of_nodup nodup, State.items, List.length_map,
    Array.length_toList] at card
  exact card

theorem Listed.size_le (listed : state.Listed grammar)
    (regular : state.Regular grammar) :
    state.configurations.size ≤ grammar.itemCount :=
  size_le_itemCount regular.distinct (listed.items regular)

end State

namespace Collecting

variable {grammar : Grammar} {first : FirstSets} {precision : Precision}

theorem keeps_listed (wellFormed : grammar.WellFormed)
    (unused : grammar.GoalUnused) (exact : first.Exact grammar) :
    Keeps grammar first precision fun state => state.Listed grammar := by
  constructor
  · intro old new alike listed
    exact listed.congr alike.sameItems.coreItems
  · constructor
    · rw [coreItems_startState]
      exact ⟨List.nodup_singleton _, List.pairwise_singleton _ _⟩
    · intro item member
      rw [coreItems_startState, List.mem_singleton] at member
      rw [member]
      exact ⟨wellFormed.hasGoalRule, Nat.zero_le _⟩
  · intro source symbol sound _
    have core := @coreItems_freshState grammar first precision source symbol
      sound.regular.distinct
    constructor
    · rw [core]
      exact State.ascending_successorItems sound.regular.distinct
    · intro item member
      rw [core] at member
      obtain ⟨origin, -, scans, rfl⟩ := State.mem_successorItems.mp member
      exact (Grammar.lists_of_scanned scans).2
  · intro _ source target symbol _ _ sound listed matching _
    have joined := matching.joined wellFormed unused exact
      sound.closed.itemsClosed sound.snug
    exact listed.congr joined.sameItems.coreItems

/-- Two properties that are kept are kept together. -/
theorem Keeps.and {one other : State → Prop}
    (keepsOne : Keeps grammar first precision one)
    (keepsOther : Keeps grammar first precision other) :
    Keeps grammar first precision fun state => one state ∧ other state := by
  constructor
  · intro old new alike holds
    exact ⟨keepsOne.alike old new alike holds.1,
      keepsOther.alike old new alike holds.2⟩
  · exact ⟨keepsOne.start, keepsOther.start⟩
  · intro source symbol sound holds
    exact ⟨keepsOne.fresh source symbol sound holds.1,
      keepsOther.fresh source symbol sound holds.2⟩
  · intro pager source target symbol sound holds targetSound targetHolds
      matching weakly
    exact ⟨keepsOne.joined pager source target symbol sound holds.1
        targetSound targetHolds.1 matching weakly,
      keepsOther.joined pager source target symbol sound holds.2 targetSound
        targetHolds.2 matching weakly⟩

variable {collecting provided : Collecting} {source target : Nat}
  {symbol : Symbol}

/-- The room that is left in the contexts of all states. -/
def roomIn (grammar : Grammar) (automaton : Automaton) : Nat :=
  ∑ number ∈ range automaton.size,
    Closing.roomOf grammar.terminals.size (automaton.state number)

/-- A bound on the expansions to come: one for each state that waits, one for
each terminal that a context may still gain, and as many again for each state
that may still be found. -/
def potential (grammar : Grammar) (collecting : Collecting) : Nat :=
  collecting.queue.waiting.length + roomIn grammar collecting.automaton +
    (grammar.stateBound - collecting.automaton.size) *
      (grammar.growthBound + 1)

theorem roomOf_alike {old new : State} (alike : old.Alike new)
    (width : Nat) : Closing.roomOf width new = Closing.roomOf width old := by
  rw [Closing.roomOf, Closing.roomOf, alike.sameItems.size]
  apply sum_congr rfl
  intro index inside
  rw [alike.context index (mem_range.mp inside)]

theorem roomIn_alike {old new : Automaton} (size : new.size = old.size)
    (alike : ∀ number, (old.state number).Alike (new.state number)) :
    roomIn grammar new = roomIn grammar old := by
  rw [roomIn, roomIn, size]
  apply sum_congr rfl
  intro number _
  exact roomOf_alike (alike number) _

theorem roomOf_le_growthBound {state : State}
    (size : state.configurations.size ≤ grammar.itemCount) :
    Closing.roomOf grammar.terminals.size state ≤ grammar.growthBound :=
  (Closing.roomOf_le _ state).trans (Nat.mul_le_mul_right _ size)

theorem exists_lacking {state : State} {cores : List Configuration}
    (aligned : state.Aligned cores) (lacks : state.covers cores = false) :
    ∃ index, ∃ inside : index < cores.length,
      ∃ terminal ∈ cores[index].context,
        terminal ∉ (state.configuration index).context := by
  by_contra none
  push Not at none
  rw [(State.covers_iff aligned).mpr] at lacks
  · cases lacks
  · intro item terminal arrives
    obtain ⟨index, inside, rfl⟩ :=
      aligned.exists_index (aligned.items ▸ arrives.mem_items)
    rw [aligned.arrives_iff inside] at arrives
    exact (aligned.hasContext_iff inside).mpr
      (none index inside terminal arrives)

/-- A state that lacks some of what arrives has less room once that is
joined. -/
theorem roomOf_lt_of_joined {old new : State} {cores : List Configuration}
    (joined : State.Joined grammar first cores old new)
    (matching : old.Matches grammar cores)
    (bounded : ∀ item terminal, State.Arrives cores item terminal →
      terminal < grammar.terminals.size)
    (lacks : old.covers cores = false) :
    Closing.roomOf grammar.terminals.size new <
      Closing.roomOf grammar.terminals.size old := by
  have aligned := matching.aligned
  obtain ⟨index, bound, terminal, arrives, lacking⟩ :=
    exists_lacking aligned lacks
  have inside := aligned.lt_size bound
  have newInside := joined.sameItems.size.symm ▸ inside
  have kernel : (old.configuration index).item.InKernel :=
    matching.regular.kernel index (aligned.length ▸ bound)
  have reaches : State.Arrives cores (old.configuration index).item
      terminal := by
    rw [aligned.item bound, aligned.arrives_iff bound]
    exact arrives
  refine Closing.roomOf_lt_of_gains joined.sameItems.size ?_ inside
    (bounded _ terminal reaches) lacking ?_
  · intro other otherInside token member
    have has := joined.grows _ token
      ((matching.regular.hasContext_iff otherInside).mpr member)
    rw [← joined.sameItems.item other otherInside] at has
    exact (joined.regular.hasContext_iff
      (joined.sameItems.size.symm ▸ otherInside)).mp has
  · rw [← joined.regular.hasContext_iff newInside,
      joined.sameItems.item index inside]
    exact (joined.core _ terminal kernel).mpr (Or.inr reaches)

/-- Two states with the same core items were made for different contexts. -/
structure Distinguished (grammar : Grammar) (precision : Precision)
    (made : Nat → Item → Nat → Prop) (automaton : Automaton) : Prop where
  within : ∀ number < automaton.size, ∀ item terminal,
    made number item terminal →
      (automaton.state number).HasContext item terminal
  whole : precision = .canonical → ∀ number < automaton.size,
    ∀ item ∈ (automaton.state number).coreItems, ∀ terminal,
      (automaton.state number).HasContext item terminal →
        made number item terminal
  apart : ∀ one < automaton.size, ∀ other < automaton.size, one ≠ other →
    (automaton.state one).coreItems = (automaton.state other).coreItems →
      ∃ item ∈ (automaton.state one).coreItems, ∃ terminal,
        ¬ (made one item terminal ↔ made other item terminal)

section Counting

variable {automaton : Automaton} {made : Nat → Item → Nat → Prop}

open Classical in
/-- The core items of a state and the contexts for which it was made. -/
noncomputable def code (grammar : Grammar) (made : Nat → Item → Nat → Prop)
    (automaton : Automaton) (number : Nat) : Finset (Item × Nat) :=
  (grammar.itemSet ×ˢ range (grammar.terminals.size + 1)).filter fun entry =>
    entry.1 ∈ (automaton.state number).coreItems ∧
      (entry.2 = 0 ∨ made number entry.1 (entry.2 - 1))

theorem code_subset (number : Nat) :
    code grammar made automaton number ⊆
      grammar.itemSet ×ˢ range (grammar.terminals.size + 1) := by
  classical
  exact filter_subset _ _

theorem item_mem_code {number : Nat}
    (listed : (automaton.state number).Listed grammar) {item : Item} :
    (item, 0) ∈ code grammar made automaton number ↔
      item ∈ (automaton.state number).coreItems := by
  simp only [code, mem_filter, mem_product, mem_range, true_or, and_true,
    Nat.succ_pos]
  constructor
  · exact And.right
  · intro member
    exact ⟨Grammar.mem_itemSet.mpr (listed.lists item member), member⟩

theorem terminal_mem_code {number : Nat}
    (listed : (automaton.state number).Listed grammar) {item : Item}
    (core : item ∈ (automaton.state number).coreItems) {terminal : Nat}
    (inside : terminal < grammar.terminals.size) :
    (item, terminal + 1) ∈ code grammar made automaton number ↔
      made number item terminal := by
  simp only [code, mem_filter, mem_product, mem_range, core, true_and,
    Nat.succ_ne_zero, false_or, Nat.add_sub_cancel]
  constructor
  · exact And.right
  · intro member
    exact ⟨⟨Grammar.mem_itemSet.mpr (listed.lists item core),
      Nat.succ_lt_succ inside⟩, member⟩

/-- There are no more states than sets of items with lookaheads. -/
theorem Distinguished.size_le
    (distinguished : Distinguished grammar precision made automaton)
    (listed : ∀ number < automaton.size,
      (automaton.state number).Listed grammar)
    (terminated : automaton.Terminated grammar) :
    automaton.size ≤ grammar.stateBound := by
  have injective : Set.InjOn (code grammar made automaton)
      (range automaton.size) := by
    intro one oneInside other otherInside same
    rw [coe_range, Set.mem_Iio] at oneInside otherInside
    by_contra different
    have oneListed := listed one oneInside
    have otherListed := listed other otherInside
    have items : (automaton.state one).coreItems =
        (automaton.state other).coreItems := by
      apply oneListed.ascending.eq_of_mem_iff otherListed.ascending
      intro item
      rw [← @item_mem_code grammar automaton made one oneListed, same,
        item_mem_code otherListed]
    obtain ⟨item, core, terminal, differs⟩ :=
      distinguished.apart one oneInside other otherInside different items
    apply differs
    by_cases inside : terminal < grammar.terminals.size
    · rw [← @terminal_mem_code grammar automaton made one oneListed item
        core terminal inside, same,
        terminal_mem_code otherListed (items ▸ core) inside]
    · constructor
      · intro member
        exact absurd (terminated one oneInside item terminal
          (distinguished.within one oneInside item terminal member)) inside
      · intro member
        exact absurd (terminated other otherInside item terminal
          (distinguished.within other otherInside item terminal member))
          inside
  have subset : ∀ number ∈ range automaton.size,
      code grammar made automaton number ∈
        (grammar.itemSet ×ˢ range (grammar.terminals.size + 1)).powerset := by
    intro number _
    rw [mem_powerset]
    exact code_subset number
  have bound := card_le_card_of_injOn _ subset injective
  rw [card_range, card_powerset, card_product, card_range] at bound
  rw [Grammar.stateBound, Nat.one_shiftLeft]
  exact bound.trans (Nat.pow_le_pow_right Nat.two_pos
    (Nat.mul_le_mul_right _ grammar.card_itemSet_le))

end Counting

section Distinctions

variable {made : Nat → Item → Nat → Prop} {provided : Collecting}
  {number target source : Nat} {symbol : Symbol}

theorem exists_difference_of_lacks {state : State} {cores : List Configuration}
    {before : Item → Nat → Prop} (aligned : state.Aligned cores)
    (lacks : state.covers cores = false)
    (within : ∀ item terminal, before item terminal →
      state.HasContext item terminal) :
    ∃ item ∈ state.coreItems, ∃ terminal,
      ¬ (before item terminal ↔ State.Arrives cores item terminal) := by
  by_contra none
  push Not at none
  rw [(State.covers_iff aligned).mpr] at lacks
  · cases lacks
  · intro item terminal arrives
    apply within
    exact (none item (aligned.items ▸ arrives.mem_items) terminal).mpr arrives

/-- A state that refuses what arrives was not made for it. -/
theorem exists_difference {state : State} {cores : List Configuration}
    {before : Item → Nat → Prop} (aligned : state.Aligned cores)
    (refuses : state.Refuses precision cores)
    (within : ∀ item terminal, before item terminal →
      state.HasContext item terminal)
    (whole : precision = .canonical → ∀ item ∈ state.coreItems, ∀ terminal,
      state.HasContext item terminal → before item terminal) :
    ∃ item ∈ state.coreItems, ∃ terminal,
      ¬ (before item terminal ↔ State.Arrives cores item terminal) := by
  cases precision with
  | lr0 => cases refuses.tracks
  | canonical =>
      by_contra none
      push Not at none
      apply refuses.differs
      rw [State.coreContexts_eq_iff aligned]
      intro item core terminal
      rw [← none item core terminal]
      exact ⟨whole rfl item core terminal, within item terminal⟩
  | pager =>
      apply exists_difference_of_lacks aligned ?_ within
      -- What is there already does not clash with itself.
      rw [← Bool.not_eq_true]
      intro covers
      have clashes := refuses.clashes rfl
      rw [State.weaklyCompatible_of_covers covers] at clashes
      cases clashes

theorem Distinguished.alike {old new : Automaton}
    (distinguished : Distinguished grammar precision made old)
    (size : new.size = old.size)
    (alike : ∀ number, (old.state number).Alike (new.state number)) :
    Distinguished grammar precision made new := by
  constructor
  · intro number inside item terminal isMade
    rw [(alike number).hasContext_iff]
    exact distinguished.within number (size ▸ inside) item terminal isMade
  · intro canonical number inside item core terminal has
    rw [(alike number).sameItems.coreItems] at core
    rw [(alike number).hasContext_iff] at has
    exact distinguished.whole canonical number (size ▸ inside) item core
      terminal has
  · intro one oneInside other otherInside different same
    rw [(alike one).sameItems.coreItems,
      (alike other).sameItems.coreItems] at same
    rw [(alike one).sameItems.coreItems]
    exact distinguished.apart one (size ▸ oneInside) other
      (size ▸ otherInside) different same

/-- A new state is made for what arrives. -/
theorem Distinguished.add {automaton : Automaton} {added : State}
    {cores : List Configuration}
    (distinguished : Distinguished grammar precision made automaton)
    (items : added.coreItems = cores.map Configuration.item)
    (arrived : ∀ item ∈ added.coreItems, ∀ terminal,
      added.HasContext item terminal ↔ State.Arrives cores item terminal)
    (differs : ∀ number < automaton.size,
      (automaton.state number).coreItems = cores.map Configuration.item →
        ∃ item ∈ (automaton.state number).coreItems, ∃ terminal,
          ¬ (made number item terminal ↔
            State.Arrives cores item terminal)) :
    Distinguished grammar precision
      (fun number item terminal =>
        if number < automaton.size then made number item terminal
        else State.Arrives cores item terminal)
      (automaton.add added) := by
  have difference {number : Nat} (inside : number < automaton.size)
      (same : (automaton.state number).coreItems = added.coreItems) :
      ∃ item ∈ added.coreItems, ∃ terminal,
        ¬ (made number item terminal ↔
          State.Arrives cores item terminal) := by
    rw [← same]
    exact differs number inside (same.trans items)
  constructor
  · intro number inside item terminal isMade
    rcases Automaton.lt_or_eq_of_lt_size_add inside with earlier | rfl
    · rw [if_pos earlier] at isMade
      rw [Automaton.state_add_of_lt earlier]
      exact distinguished.within number earlier item terminal isMade
    · rw [if_neg (Nat.lt_irrefl _)] at isMade
      rw [Automaton.state_add_size]
      exact (arrived item (items ▸ isMade.mem_items) terminal).mpr isMade
  · intro canonical number inside item core terminal has
    rcases Automaton.lt_or_eq_of_lt_size_add inside with earlier | rfl
    · rw [Automaton.state_add_of_lt earlier] at core has
      rw [if_pos earlier]
      exact distinguished.whole canonical number earlier item core terminal
        has
    · rw [Automaton.state_add_size] at core has
      rw [if_neg (Nat.lt_irrefl _)]
      exact (arrived item core terminal).mp has
  · intro one oneInside other otherInside different same
    rcases Automaton.lt_or_eq_of_lt_size_add oneInside with oneEarlier | rfl
    · rw [Automaton.state_add_of_lt oneEarlier] at same ⊢
      rcases Automaton.lt_or_eq_of_lt_size_add otherInside with
        otherEarlier | rfl
      · rw [Automaton.state_add_of_lt otherEarlier] at same
        simp only [if_pos oneEarlier, if_pos otherEarlier]
        exact distinguished.apart one oneEarlier other otherEarlier different
          same
      · rw [Automaton.state_add_size] at same
        simp only [if_pos oneEarlier, if_neg (Nat.lt_irrefl _)]
        rw [same]
        exact difference oneEarlier same
    · have otherEarlier :=
        (Automaton.lt_or_eq_of_lt_size_add otherInside).resolve_right
          different.symm
      rw [Automaton.state_add_size, Automaton.state_add_of_lt otherEarlier]
        at same
      rw [Automaton.state_add_size]
      simp only [if_pos otherEarlier, if_neg (Nat.lt_irrefl _)]
      obtain ⟨item, core, terminal, differs⟩ :=
        difference otherEarlier same.symm
      exact ⟨item, core, terminal, fun equal => differs equal.symm⟩

/-- Contexts may grow while items stay, but for a canonical search. -/
theorem Distinguished.grow {automaton : Automaton} {grown : State}
    (distinguished : Distinguished grammar precision made automaton)
    (pager : precision = .pager)
    (same : (automaton.state number).SameItems grown)
    (grows : ∀ item terminal,
      (automaton.state number).HasContext item terminal →
        grown.HasContext item terminal) :
    Distinguished grammar precision made
      (automaton.modify number fun _ => grown) := by
  have items {other : Nat} (inside : other < automaton.size) :
      ((automaton.modify number fun _ => grown).state other).coreItems =
        (automaton.state other).coreItems := by
    by_cases isNumber : other = number
    · subst isNumber
      rw [Automaton.state_modify_self inside]
      exact same.coreItems
    · rw [Automaton.state_modify_ne isNumber]
  constructor
  · intro other inside item terminal isMade
    rw [Automaton.size_modify] at inside
    have has := distinguished.within other inside item terminal isMade
    by_cases isNumber : other = number
    · subst isNumber
      rw [Automaton.state_modify_self inside]
      exact grows item terminal has
    · rw [Automaton.state_modify_ne isNumber]
      exact has
  · intro canonical
    rw [pager] at canonical
    cases canonical
  · intro one oneInside other otherInside different equal
    rw [Automaton.size_modify] at oneInside otherInside
    rw [items oneInside, items otherInside] at equal
    rw [items oneInside]
    exact distinguished.apart one oneInside other otherInside different equal

end Distinctions

theorem roomIn_modify_lt {automaton : Automaton} {number : Nat}
    {grown : State} (inside : number < automaton.size)
    (less : Closing.roomOf grammar.terminals.size grown <
      Closing.roomOf grammar.terminals.size (automaton.state number)) :
    roomIn grammar (automaton.modify number fun _ => grown) <
      roomIn grammar automaton := by
  rw [roomIn, roomIn, Automaton.size_modify]
  apply sum_lt_sum
  · intro other _
    by_cases same : other = number
    · subst same
      rw [Automaton.state_modify_self inside]
      exact Nat.le_of_lt less
    · rw [Automaton.state_modify_ne same]
  · refine ⟨number, mem_range.mpr inside, ?_⟩
    rw [Automaton.state_modify_self inside]
    exact less

theorem roomIn_add (automaton : Automaton) (added : State) :
    roomIn grammar (automaton.add added) =
      roomIn grammar automaton +
        Closing.roomOf grammar.terminals.size added := by
  rw [roomIn, roomIn, Automaton.size_add, sum_range_succ,
    Automaton.state_add_size]
  apply congrArg (· + _)
  apply sum_congr rfl
  intro number inside
  rw [Automaton.state_add_of_lt (mem_range.mp inside)]

/-- The items and lookaheads of a state are those of the grammar. -/
def Bounded (grammar : Grammar) (state : State) : Prop :=
  state.Listed grammar ∧ state.Terminated grammar

section Searching

variable (wellFormed : grammar.WellFormed) (unused : grammar.GoalUnused)
  (exact : first.Exact grammar)

include wellFormed unused exact

theorem keeps_bounded :
    Keeps grammar first precision (Bounded grammar) :=
  (keeps_listed wellFormed unused exact).and
    (keeps_terminated wellFormed unused exact)

end Searching

end Collecting

end LRTables
