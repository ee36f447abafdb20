import LRTables.Proofs.CanonicalSearches
import LRTables.Proofs.Lookaheads
import LRTables.Proofs.Nestings

/-!
# Canonical collections

The canonical automaton has a path for every word after which an item is valid,
and the state there has the valid items with the terminals that the word admits.
Without lookaheads the paths and the items are the same.
-/

namespace LRTables

namespace Automaton

variable {grammar : Grammar} {first : FirstSets} {automaton : Automaton}

/-- The words of an automaton are those with valid items, which are the items
of the states that they lead to, each in one place. -/
structure Collects (grammar : Grammar) (automaton : Automaton) : Prop where
  paths : ∀ word, (∃ number, automaton.Leads word number) ↔
    ∃ item, grammar.Valid word item
  items : ∀ word number, automaton.Leads word number →
    ∀ item, item ∈ (automaton.state number).items ↔ grammar.Valid word item
  nodup : ∀ word number, automaton.Leads word number →
    (automaton.state number).items.Nodup
  reached : ∀ number < automaton.size, ∃ word, automaton.Leads word number

/-- The contexts are the lookaheads of the items after every word that leads to
their state. -/
def HasLookaheads (automaton : Automaton)
    (lookaheads : List Symbol → Item → Nat → Prop) : Prop :=
  ∀ word number, automaton.Leads word number →
    ∀ index < (automaton.state number).configurations.size, ∀ terminal,
      terminal ∈ ((automaton.state number).configuration index).context ↔
        lookaheads word ((automaton.state number).configuration index).item
          terminal

/-- The automaton has the paths of another one to the same items in the same
places, but one state for each core, and no lookaheads. -/
structure Strips (plain automaton : Automaton) : Prop where
  paths : ∀ word, (∃ number, plain.Leads word number) ↔
    ∃ number, automaton.Leads word number
  items : ∀ word one other, plain.Leads word one →
    automaton.Leads word other →
      (plain.state one).items = (automaton.state other).items
  apart : plain.Apart
  contexts : ∀ place, plain.context place = ∅

section Searches

variable {precision : Precision} (wellFormed : grammar.WellFormed)
  (unused : grammar.GoalUnused) (exact : first.Exact grammar)

include wellFormed unused exact in
theorem collects_of_collect? (unmerged : precision ≠ .pager)
    (result : collect? grammar first precision = some automaton) :
    automaton.Collects grammar := by
  have collected := collected_of_collect? wellFormed unused exact
    (Collecting.keeps_unrolled wellFormed unused exact) result
  have framed := collected.framed
  constructor
  · intro word
    constructor
    · rintro ⟨number, leads⟩
      exact framed.exists_valid wellFormed unused leads
    · rintro ⟨item, valid⟩
      exact framed.exists_leads wellFormed unused collected.total valid
  · intro word number leads item
    exact framed.mem_items wellFormed unused leads
  · intro word number leads
    exact State.distinct_iff_nodup.mp
      (framed.regular number (framed.lt_size leads)).distinct
  · exact reached_of_collect? wellFormed unused exact unmerged result

include wellFormed unused exact in
/-- The canonical contexts hold what each word admits. -/
theorem admits_of_collect?
    (result : collect? grammar first .canonical = some automaton) :
    automaton.HasLookaheads grammar.Admits := by
  have faithful := faithful_of_collect? wellFormed unused exact rfl result
  have framed := faithful.framed
  have drawn := drawn_of_collect? wellFormed unused exact result
  intro word number leads index inside terminal
  have regular := framed.regular number (framed.lt_size leads)
  rw [← regular.hasContext_iff inside]
  constructor
  · exact drawn.admits wellFormed unused framed faithful.evident leads
  · exact faithful.saturated.hasContext wellFormed unused exact framed leads

include wellFormed unused exact in
/-- A search without lookaheads differs from others in its states and contexts
only. -/
theorem strips_of_collect? {plain : Automaton}
    (result : collect? grammar first precision = some automaton)
    (bare : collect? grammar first .lr0 = some plain) :
    plain.Strips automaton := by
  have unrolled {precision : Precision} {automaton : Automaton}
      (result : collect? grammar first precision = some automaton) :=
    collected_of_collect? wellFormed unused exact
      (Collecting.keeps_unrolled wellFormed unused exact) result
  have framed := (unrolled result).framed
  have plainFramed := (unrolled bare).framed
  have lookaheadless :=
    lookaheadless_of_collect? wellFormed unused exact bare
  constructor
  · intro word
    constructor
    · rintro ⟨number, leads⟩
      obtain ⟨item, valid⟩ := plainFramed.exists_valid wellFormed unused leads
      exact framed.exists_leads wellFormed unused (unrolled result).total valid
    · rintro ⟨number, leads⟩
      obtain ⟨item, valid⟩ := framed.exists_valid wellFormed unused leads
      exact plainFramed.exists_leads wellFormed unused (unrolled bare).total
        valid
  · intro word one other leads too
    have inside := plainFramed.lt_size leads
    have otherInside := framed.lt_size too
    apply ((unrolled bare).states one inside).2.items_eq
      ((unrolled result).states other otherInside).2
    exact plainFramed.coreItems_eq wellFormed unused leads
      (framed.hasKernel wellFormed unused too)
      (framed.ascending_coreItems too)
  · exact lookaheadless.plain.apart
  · intro place
    apply TerminalSet.ext
    intro terminal
    refine iff_of_false ?_ (TerminalSet.not_mem_empty terminal)
    by_cases holds : plain.Holds place
    · exact lookaheadless.fresh.blank place holds terminal
    · rw [context, configuration_of_not_holds holds]
      exact TerminalSet.not_mem_empty terminal

end Searches

/-- The canonical collection and the one without lookaheads.  The terminals that
are admitted are the ones anticipated if no nonterminal is unproductive. -/
theorem canonical_collection (accepted : grammar.Accepted)
    (unused : grammar.GoalUnused) :
    ∃ canonical plain,
      collect? grammar (.ofGrammar grammar) .canonical = some canonical ∧
      collect? grammar (.ofGrammar grammar) .lr0 = some plain ∧
      canonical.Collects grammar ∧
      canonical.HasLookaheads grammar.Admits ∧
      (grammar.unproductiveNonterminals = [] →
        canonical.HasLookaheads grammar.Anticipates) ∧
      canonical.ContextsApart ∧
      plain.Collects grammar ∧ plain.Strips canonical := by
  have wellFormed := accepted.wellFormed
  have exact := FirstSets.exact_ofGrammar wellFormed
  obtain ⟨canonical, found⟩ :=
    exists_collect? wellFormed exact .canonical
  obtain ⟨plain, bare⟩ := exists_collect? wellFormed exact .lr0
  have admits := admits_of_collect? wellFormed unused exact found
  refine ⟨canonical, plain, found, bare,
    collects_of_collect? wellFormed unused exact (by decide) found, admits,
    ?_,
    contextsApart_of_collect? wellFormed unused exact found,
    collects_of_collect? wellFormed unused exact (by decide) bare,
    strips_of_collect? wellFormed unused exact found bare⟩
  intro productive word number leads index inside terminal
  rw [admits word number leads index inside terminal]
  constructor
  · exact Grammar.Admits.anticipates accepted productive
  · exact Grammar.Anticipates.admits

theorem canonical_collection_chain :
    Grammar.chain.unproductiveNonterminals = [] ∧
      ∃ canonical plain,
        collect? .chain (.ofGrammar .chain) .canonical = some canonical ∧
        collect? .chain (.ofGrammar .chain) .lr0 = some plain ∧
        canonical.Collects .chain ∧
        canonical.HasLookaheads Grammar.chain.Anticipates ∧
        canonical.ContextsApart ∧
        plain.Collects .chain ∧ plain.Strips canonical := by
  have productive : Grammar.chain.unproductiveNonterminals = [] := by
    decide +kernel
  obtain ⟨canonical, plain, found, bare, collects, -, anticipates, apart,
    plainCollects, strips⟩ :=
    canonical_collection accepted_chain goalUnused_chain
  exact ⟨productive, canonical, plain, found, bare, collects,
    anticipates productive, apart, plainCollects, strips⟩

end Automaton

/-- With an unproductive nonterminal, a canonical context has a terminal that
is not anticipated. -/
theorem not_hasLookaheads_anticipates_stuck : ∃ canonical,
    Automaton.collect? .stuck (.ofGrammar .stuck) .canonical =
        some canonical ∧
      ¬ canonical.HasLookaheads Grammar.stuck.Anticipates := by
  have wellFormed := accepted_stuck.wellFormed
  have exact := FirstSets.exact_ofGrammar wellFormed
  obtain ⟨canonical, found⟩ :=
    Automaton.exists_collect? wellFormed exact .canonical
  refine ⟨canonical, found, ?_⟩
  intro anticipates
  have faithful := Automaton.faithful_of_collect? wellFormed goalUnused_stuck
    exact rfl found
  obtain ⟨index, inside, item, inContext⟩ :=
    faithful.saturated.hasContext wellFormed goalUnused_stuck exact
      faithful.framed .start admits_stuck
  have anticipated :=
    (anticipates [] _ .start index inside 3).mp inContext
  rw [item] at anticipated
  have listed := rule_of_anticipates_stuck anticipated
  revert listed
  decide

end LRTables
