import LRTables.Proofs.FiniteSearches
import LRTables.Proofs.FinishedDrafts
import LRTables.Proofs.TracedAutomata

/-!
# Lookaheads

Lookaheads of items read along a word, with what follows an item handed on to
the items that closure brings in.  If every nonterminal derives a string of
terminals, these are the terminals that are admitted, and tracing the lanes of
an automaton finds exactly them.
-/

namespace LRTables

namespace Grammar

variable {grammar : Grammar} {word : List Symbol} {item : Item}
  {terminal : Nat}

/-- The terminal is a lookahead of the item after the word.  Closure hands on
what can begin the tail with a lookahead of the item after it. -/
inductive Anticipates (grammar : Grammar) :
    List Symbol → Item → Nat → Prop where
  | goal : Anticipates grammar [] .goal Terminal.endOfInput
  | closure {word : List Symbol} {item : Item}
      {nonterminal rule ahead terminal : Nat} :
      Anticipates grammar word item ahead →
      item.scanned grammar = some (.nonterminal nonterminal) →
      rule ∈ grammar.rulesOf nonterminal →
      grammar.Begins (item.tail grammar ++ [.terminal ahead]) terminal →
      Anticipates grammar word { rule, dot := 0 } terminal
  | advance {word : List Symbol} {item : Item} {symbol : Symbol}
      {terminal : Nat} :
      Anticipates grammar word item terminal →
      item.scanned grammar = some symbol →
      Anticipates grammar (word ++ [symbol]) item.advance terminal

theorem begins_append_terminal {symbols : List Symbol} {ahead : Nat} :
    grammar.Begins (symbols ++ [.terminal ahead]) terminal ↔
      grammar.Begins symbols terminal ∨
        grammar.Vanishes symbols ∧ terminal = ahead := by
  rw [begins_append, begins_terminal]

theorem Anticipates.admits
    (anticipates : grammar.Anticipates word item terminal) :
    grammar.Admits word item terminal := by
  induction anticipates with
  | goal => exact .goal
  | closure _ scanned member begins ih =>
      rcases begins_append_terminal.mp begins with here | ⟨vanishes, rfl⟩
      · exact .generated ih.valid scanned member here
      · exact .inherited ih scanned member vanishes
  | advance _ scanned ih => exact .advance ih scanned

theorem Accepted.hasRule (accepted : grammar.Accepted)
    {rule nonterminal : Nat}
    (member : .nonterminal nonterminal ∈ grammar.right rule) :
    grammar.HasRule nonterminal := by
  obtain ⟨_, draft, -, success⟩ := accepted
  obtain ⟨start, -, rfl, defined, -⟩ := Draft.finish_eq_ok success
  exact firstUndefined?_eq_none.mp defined _ (exists_of_mem_right member)

/-- Without unproductive nonterminals, what is left of an item derives a string
of terminals. -/
theorem Accepted.derives_tail (accepted : grammar.Accepted)
    (productive : grammar.unproductiveNonterminals = []) (item : Item) :
    ∃ tokens : List Nat,
      grammar.Derives (item.tail grammar) (tokens.map .terminal) := by
  have wellFormed := accepted.wellFormed
  have settled : allSettled true grammar.productives (item.tail grammar) =
      true := by
    rw [allSettled_iff]
    intro symbol member
    refine ⟨fun _ _ => rfl, ?_⟩
    rintro nonterminal rfl
    have hasRule := accepted.hasRule (Item.tail_subset_right _ member)
    by_contra unmarked
    rw [isMarked_productives wellFormed] at unmarked
    have listed := (mem_unproductiveNonterminals wellFormed).mpr
      ⟨hasRule, unmarked⟩
    rw [productive] at listed
    cases listed
  obtain ⟨tokens, -, derives⟩ := derives_of_allSettled
    (fun index => (isMarked_settled wellFormed).mp) settled
  exact ⟨tokens, derives⟩

theorem Valid.exists_anticipates (accepted : grammar.Accepted)
    (productive : grammar.unproductiveNonterminals = [])
    (valid : grammar.Valid word item) :
    ∃ ahead, grammar.Anticipates word item ahead := by
  induction valid with
  | goal => exact ⟨_, .goal⟩
  | @closure word item nonterminal rule _ scanned member ih =>
      obtain ⟨ahead, anticipates⟩ := ih
      obtain ⟨tokens, derives⟩ := accepted.derives_tail productive item
      cases tokens with
      | nil =>
          exact ⟨ahead, .closure anticipates scanned member
            (begins_append_terminal.mpr (Or.inr ⟨derives, rfl⟩))⟩
      | cons token rest =>
          exact ⟨token, .closure anticipates scanned member
            (begins_append_terminal.mpr (Or.inl ⟨_, derives⟩))⟩
  | advance _ scanned ih =>
      obtain ⟨ahead, anticipates⟩ := ih
      exact ⟨ahead, .advance anticipates scanned⟩

theorem Admits.anticipates (accepted : grammar.Accepted)
    (productive : grammar.unproductiveNonterminals = [])
    (admits : grammar.Admits word item terminal) :
    grammar.Anticipates word item terminal := by
  induction admits with
  | goal => exact .goal
  | generated valid scanned member begins =>
      obtain ⟨ahead, anticipates⟩ :=
        valid.exists_anticipates accepted productive
      exact .closure anticipates scanned member
        (begins_append_terminal.mpr (Or.inl begins))
  | inherited _ scanned member vanishes ih =>
      exact .closure ih scanned member
        (begins_append_terminal.mpr (Or.inr ⟨vanishes, rfl⟩))
  | advance _ scanned ih => exact .advance ih scanned

end Grammar

namespace Automaton

variable {grammar : Grammar} {first : FirstSets} {base automaton : Automaton}

theorem TracedFrom.mem_context_iff (wellFormed : grammar.WellFormed)
    (unused : grammar.GoalUnused) (exact : first.Exact grammar)
    (traced : TracedFrom grammar first base automaton) {place : Place}
    (holds : automaton.Holds place) {terminal : Nat} :
    terminal ∈ automaton.context place ↔
      ∃ word, automaton.Leads word place.state ∧
        grammar.Admits word (automaton.configuration place).item terminal := by
  have inside : place.state < base.size := traced.retraced.size ▸ holds.1
  have regular := traced.framed.regular place.state holds.1
  simp only [traced.retraced.sameFrame.leads_iff]
  rw [← traced.hasContext_iff wellFormed unused exact inside]
  exact (regular.hasContext_iff holds.2).symm

/-- The contexts of all configurations that can be reached are the lookaheads
that their items have after the words that lead to their states. -/
def Finds (automaton : Automaton)
    (lookaheads : List Symbol → Item → Nat → Prop) : Prop :=
  ∀ place, automaton.Holds place →
    place.state ∈ automaton.reachableStates → ∀ terminal,
      terminal ∈ automaton.context place ↔
        ∃ word, automaton.Leads word place.state ∧
          lookaheads word (automaton.configuration place).item terminal

theorem Finds.anticipates (accepted : grammar.Accepted)
    (productive : grammar.unproductiveNonterminals = [])
    (finds : automaton.Finds grammar.Admits) :
    automaton.Finds grammar.Anticipates := by
  intro place holds reachable terminal
  rw [finds place holds reachable terminal]
  constructor
  · rintro ⟨word, leads, admits⟩
    exact ⟨word, leads, admits.anticipates accepted productive⟩
  · rintro ⟨word, leads, anticipates⟩
    exact ⟨word, leads, anticipates.admits⟩

/-- Tracing the lanes of the automaton without lookaheads works off all its
frames and completes every configuration that can be reached.  It finds the
terminals that are admitted, which are the ones anticipated if no nonterminal
is unproductive. -/
theorem traced_lookaheads (accepted : grammar.Accepted)
    (unused : grammar.GoalUnused) :
    ∃ base tracing, collect? grammar (.ofGrammar grammar) .lr0 = some base ∧
      base.traceLanes grammar (.ofGrammar grammar) = tracing ∧
      tracing.frames = [] ∧ tracing.lane = [] ∧
      (∀ place, tracing.automaton.Holds place →
        place.state ∈ tracing.automaton.reachableStates →
          tracing.isComplete place = true ∧
            tracing.isInLane place = false) ∧
      tracing.automaton.Finds grammar.Admits ∧
      (grammar.unproductiveNonterminals = [] →
        tracing.automaton.Finds grammar.Anticipates) := by
  have wellFormed := accepted.wellFormed
  have exact := FirstSets.exact_ofGrammar wellFormed
  obtain ⟨base, found⟩ := exists_collect? wellFormed exact .lr0
  have lookaheadless :=
    lookaheadless_of_collect? wellFormed unused exact found
  have walked : Traced grammar (.ofGrammar grammar) base _ :=
    (lookaheadless.laned wellFormed unused).traced wellFormed unused
      lookaheadless.fresh
  have traced := lookaheadless.tracedFrom wellFormed unused
  have finds : (base.traceLanes grammar
      (.ofGrammar grammar)).automaton.Finds grammar.Admits := by
    intro place holds _ terminal
    exact traced.mem_context_iff wellFormed unused exact holds
  refine ⟨base, _, found, rfl, walked.frames, walked.lane, ?_, finds, ?_⟩
  · intro place holds _
    have before : base.Holds place := walked.retraced.holds_iff.mp holds
    have reached : place.state ∈ base.reachableStates := by
      rw [lookaheadless.collected.framed.mem_reachableStates]
      exact lookaheadless.reached place.state before.1
    exact ⟨walked.complete place before reached,
      walked.notInLane place before⟩
  · exact fun productive => finds.anticipates accepted productive

theorem traced_lookaheads_chain :
    Grammar.chain.unproductiveNonterminals = [] ∧
      ∃ base tracing, collect? .chain (.ofGrammar .chain) .lr0 = some base ∧
        base.traceLanes .chain (.ofGrammar .chain) = tracing ∧
        tracing.frames = [] ∧ tracing.lane = [] ∧
        (∀ place, tracing.automaton.Holds place →
          place.state ∈ tracing.automaton.reachableStates →
            tracing.isComplete place = true ∧
              tracing.isInLane place = false) ∧
        tracing.automaton.Finds Grammar.chain.Anticipates := by
  have productive : Grammar.chain.unproductiveNonterminals = [] := by
    decide +kernel
  obtain ⟨base, tracing, found, traced, frames, lane, done, -, anticipates⟩ :=
    traced_lookaheads accepted_chain goalUnused_chain
  exact ⟨productive, base, tracing, found, traced, frames, lane, done,
    anticipates productive⟩

end Automaton

/-- A token `a`, or a list of which nothing comes, since what is to follow it
derives no string of terminals. -/
def Sample.stuck : Sample :=
  { terminals := plain ["a", "c", "b"]
    nonterminals := ["S", "A", "U"]
    rules :=
      [("S", ["a"]),
       ("S", ["A", "U"]),
       ("A", ["A", "c"]),
       ("A", ["b"]),
       ("U", ["U"])]
    expect := none }

def Grammar.stuck : Grammar :=
  { terminals :=
      #[{ name := "$end", precedence := none, quoted := false },
        { name := "error", precedence := none, quoted := false },
        { name := "a", precedence := none, quoted := false },
        { name := "c", precedence := none, quoted := false },
        { name := "b", precedence := none, quoted := false }]
    nonterminals := #["$accept", "S", "A", "U"]
    rules :=
      #[{ left := goalSymbol
          right := [.nonterminal 1]
          override := none
          hasCode := false },
        { left := 1
          right := [.terminal 2]
          override := none
          hasCode := false },
        { left := 1
          right := [.nonterminal 2, .nonterminal 3]
          override := none
          hasCode := false },
        { left := 2
          right := [.nonterminal 2, .terminal 3]
          override := none
          hasCode := false },
        { left := 2
          right := [.terminal 4]
          override := none
          hasCode := false },
        { left := 3
          right := [.nonterminal 3]
          override := none
          hasCode := false }]
    start := 1
    expect := none }

theorem accepted_stuck : Grammar.stuck.Accepted := by
  apply Sample.accepted
  show Sample.stuck.grammar = .ok Grammar.stuck
  decide +kernel

theorem goalUnused_stuck : Grammar.stuck.GoalUnused := by
  constructor
  · decide
  · decide

/-- The last nonterminal derives nothing but itself. -/
theorem derives_stuck {form : List Symbol}
    (derives : Grammar.stuck.Derives [.nonterminal 3] form) :
    form = [.nonterminal 3] := by
  induction derives with
  | refl => rfl
  | @tail middle form _ step ih =>
      subst ih
      generalize equal : [Symbol.nonterminal 3] = middle at step
      obtain ⟨before, after, inside⟩ := step
      rcases List.append_eq_singleton_iff.mp equal.symm with
        ⟨rfl, single⟩ | ⟨-, impossible⟩
      · obtain ⟨left, rfl⟩ := List.cons_eq_cons.mp single
        have only : ∀ rule < 6,
            Symbol.nonterminal (Grammar.stuck.left rule) = .nonterminal 3 →
              Grammar.stuck.right rule = [.nonterminal 3] := by
          decide
        rw [only _ inside left, left]
        rfl
      · cases impossible

/-- Nothing is anticipated with the rules of the list. -/
theorem rule_of_anticipates_stuck {word : List Symbol} {item : Item}
    {terminal : Nat}
    (anticipates : Grammar.stuck.Anticipates word item terminal) :
    item.rule ∈ [0, 1, 2, 5] := by
  induction anticipates with
  | goal => decide
  | @closure word item nonterminal rule ahead terminal _ scanned member begins
      ih =>
      have short : ∀ rule ∈ [0, 1, 2, 5],
          (Grammar.stuck.right rule).length ≤ 2 := by
        decide
      have within := (List.getElem?_eq_some_iff.mp
        (Item.right_of_scanned scanned)).choose
      -- Only the list itself is brought in with another rule, and what is to
      -- follow it derives neither a terminal nor nothing.
      have steps : ∀ rule ∈ [0, 1, 2, 5], ∀ dot < 2, ∀ nonterminal < 4,
          ({ rule, dot } : Item).scanned .stuck =
              some (.nonterminal nonterminal) →
            (∀ other ∈ Grammar.stuck.rulesOf nonterminal,
                other ∈ [0, 1, 2, 5]) ∨
              ({ rule, dot } : Item).tail .stuck = [.nonterminal 3] := by
        decide +kernel
      have declared : nonterminal < 4 :=
        accepted_stuck.wellFormed.right_declared item.rule _
          (Item.scanned_mem_right scanned)
      rcases steps item.rule ih item.dot
          (Nat.lt_of_lt_of_le within (short item.rule ih)) nonterminal declared
          scanned with all | tail
      · exact all rule member
      · rw [tail, Grammar.begins_append_terminal] at begins
        rcases begins with ⟨rest, derives⟩ | ⟨vanishes, -⟩
        · cases derives_stuck derives
        · cases derives_stuck vanishes
  | advance _ _ ih => exact ih

theorem admits_stuck : Grammar.stuck.Admits [] { rule := 4, dot := 0 } 3 := by
  have scanned : ({ rule := 2, dot := 0 } : Item).scanned .stuck =
      some (.nonterminal 2) := by
    decide
  have again : ({ rule := 3, dot := 0 } : Item).scanned .stuck =
      some (.nonterminal 2) := by
    decide
  have choice : Grammar.stuck.Valid [] { rule := 2, dot := 0 } :=
    .closure .goal (show Item.goal.scanned .stuck = some (.nonterminal 1)
      by decide) (by decide +kernel)
  have list : Grammar.stuck.Valid [] { rule := 3, dot := 0 } :=
    .closure choice scanned (by decide +kernel)
  exact .generated list again (by decide +kernel)
    (Grammar.begins_terminal.mpr rfl)

/-- A configuration of the list has a context, although its item anticipates
nothing. -/
theorem not_finds_anticipates_stuck : ∃ base,
    Automaton.collect? .stuck (.ofGrammar .stuck) .lr0 = some base ∧
      ¬ (base.traceLanes .stuck (.ofGrammar .stuck)).automaton.Finds
        Grammar.stuck.Anticipates := by
  have wellFormed := accepted_stuck.wellFormed
  have exact := FirstSets.exact_ofGrammar wellFormed
  obtain ⟨base, found⟩ :=
    Automaton.exists_collect? wellFormed exact .lr0
  refine ⟨base, found, ?_⟩
  intro finds
  have lookaheadless :=
    Automaton.lookaheadless_of_collect? wellFormed goalUnused_stuck exact found
  have traced := lookaheadless.tracedFrom wellFormed goalUnused_stuck
  have positive := lookaheadless.collected.framed.positive
  obtain ⟨index, within, item, inContext⟩ :=
    (traced.hasContext_iff wellFormed goalUnused_stuck exact positive).mpr
      ⟨[], .start, admits_stuck⟩
  have inside : Automaton.start < (base.traceLanes .stuck
      (.ofGrammar .stuck)).automaton.size := traced.framed.positive
  obtain ⟨word, -, anticipates⟩ :=
    (finds { state := Automaton.start, index } ⟨inside, within⟩
      (traced.framed.mem_reachableStates.mpr ⟨[], .start⟩) 3).mp inContext
  have listed := rule_of_anticipates_stuck anticipates
  have rule : ((base.traceLanes .stuck
      (.ofGrammar .stuck)).automaton.configuration
        { state := Automaton.start, index }).item.rule = 4 :=
    congrArg Item.rule item
  rw [rule] at listed
  revert listed
  decide

end LRTables
