import LRTables.Proofs.Remakes
import LRTables.Proofs.Searches

/-!
# Hungry transitions

A transition is hungry if its target lacks some of what arrives.  A state has at
most as many transitions as the table has columns.  Redirecting a hungry
transition to a target that has it all leaves one hungry transition fewer.
-/

namespace LRTables

open Finset

namespace Ordered

variable {α β : Type} [DecidableEq α] {entries : List (α × β)} {key : α}
  {value : β}

theorem put_of_find? (found : find? entries key = some value) :
    put entries key value = entries := by
  induction entries with
  | nil => cases found
  | cons entry rest ih =>
      obtain ⟨first, present⟩ := entry
      rw [find?_cons] at found
      rw [put, update]
      split at found
      · rename_i same
        cases found
        rw [if_pos same]
      · rename_i different
        rw [if_neg different]
        exact congrArg _ (ih found)

/-- One entry fewer passes the test when one that passed is replaced by one that
does not. -/
theorem countP_put_lt {old : β} {before after : α × β → Bool}
    (found : find? entries key = some old) (passed : before (key, old) = true)
    (fails : after (key, value) = false)
    (keeps : ∀ entry ∈ entries, after entry = true → before entry = true) :
    (put entries key value).countP after < entries.countP before := by
  induction entries with
  | nil => cases found
  | cons entry rest ih =>
      obtain ⟨first, present⟩ := entry
      have keepsRest : ∀ other ∈ rest, after other = true →
          before other = true :=
        fun other member => keeps other (List.mem_cons_of_mem _ member)
      rw [find?_cons] at found
      rw [put, update]
      split at found
      · rename_i same
        cases found
        subst same
        rw [if_pos rfl, List.countP_cons_of_neg (by simp [fails]),
          List.countP_cons_of_pos passed]
        exact Nat.lt_succ_of_le (List.countP_mono_left keepsRest)
      · rename_i different
        rw [if_neg different]
        have fewer := ih found keepsRest
        rw [List.countP_cons, List.countP_cons]
        have own := keeps (first, present) List.mem_cons_self
        rw [put] at fewer
        split
        · rename_i passes
          rw [if_pos (own passes)]
          omega
        · omega

end Ordered

namespace Grammar

variable {grammar : Grammar}

theorem length_columns_of_pos (positive : 0 < grammar.nonterminals.size) :
    grammar.columns.length = grammar.columnCount := by
  simp only [columns, columnCount, List.length_append, List.length_map,
    List.length_range]
  omega

theorem length_columns (wellFormed : grammar.WellFormed) :
    grammar.columns.length = grammar.columnCount :=
  length_columns_of_pos (Nat.zero_lt_of_lt (wellFormed.left_declared goalRule))

theorem mem_columns (unused : grammar.GoalUnused)
    (wellFormed : grammar.WellFormed) {item : Item} {symbol : Symbol}
    (scans : item.scanned grammar = some symbol) :
    symbol ∈ grammar.columns := by
  have declared := wellFormed.right_declared item.rule symbol
    (Item.scanned_mem_right scans)
  rw [columns, List.mem_append]
  cases symbol with
  | terminal index =>
      exact Or.inl (List.mem_map.mpr ⟨index, List.mem_range.mpr declared, rfl⟩)
  | nonterminal index =>
      refine Or.inr (List.mem_map.mpr ⟨index - 1, ?_, ?_⟩)
      · have bound : index < grammar.nonterminals.size := declared
        have moved := scanned_ne_goalSymbol unused scans
        rw [goalSymbol] at moved
        rw [List.mem_range]
        omega
      · have moved := scanned_ne_goalSymbol unused scans
        rw [goalSymbol] at moved
        rw [Nat.sub_add_cancel (Nat.pos_of_ne_zero moved)]

end Grammar

namespace Automaton

variable {grammar : Grammar} {first : FirstSets} {automaton : Automaton}
  {source target number : Nat} {symbol : Symbol}

theorem Framed.length_successors_le (wellFormed : grammar.WellFormed)
    (unused : grammar.GoalUnused) (framed : automaton.Framed grammar)
    (number : Nat) :
    (automaton.state number).successors.length ≤ grammar.columnCount := by
  have subset : (automaton.state number).successors.map Prod.fst ⊆
      grammar.columns := by
    intro symbol member
    obtain ⟨⟨scanned, target⟩, listed, rfl⟩ := List.mem_map.mp member
    have scans := framed.scanned _ _ _ (framed.keyed.mem_successors.mp listed)
    obtain ⟨item, -, scans⟩ := State.mem_scannedSymbols.mp scans
    exact grammar.mem_columns unused wellFormed scans
  have bound := ((framed.keyed number).subperm subset).length_le
  rwa [List.length_map, Grammar.length_columns wellFormed] at bound

theorem successors_relink (inside : source < automaton.size) :
    ((automaton.relink source symbol target).state source).successors =
      Ordered.put (automaton.state source).successors symbol target := by
  rcases automaton.relink_cases source symbol target with
    ⟨found, equal⟩ | ⟨-, equal⟩ | ⟨old, -, equal⟩
  · rw [equal, Ordered.put_of_find? (State.successor?_eq _ _ ▸ found)]
  · rw [equal, successors_link inside, if_pos rfl]
  · rw [equal, successors_link (by rwa [size_modify]), if_pos rfl,
      successors_dropParent]

/-- Whether the target of a transition lacks some of what arrives. -/
def isHungry (grammar : Grammar) (automaton : Automaton) (source : Nat)
    (edge : Symbol × Nat) : Bool :=
  !(automaton.state edge.2).covers
    ((automaton.state source).successorCores grammar true edge.1)

theorem Framed.isHungry_iff (framed : automaton.Framed grammar)
    (edge : (automaton.state source).successor? symbol = some target) :
    automaton.isHungry grammar source (symbol, target) = true ↔
      ¬ Feeds grammar (automaton.state source) symbol
        (automaton.state target) := by
  rw [isHungry, Bool.not_eq_true', Bool.eq_false_iff, Ne,
    covers_iff_feeds (Propagating.matches_of_successor framed edge)]

/-- The number of hungry transitions of a state. -/
def hunger (grammar : Grammar) (automaton : Automaton) (number : Nat) : Nat :=
  (automaton.state number).successors.countP
    (automaton.isHungry grammar number)

/-- The number of hungry transitions. -/
def hungerIn (grammar : Grammar) (automaton : Automaton) : Nat :=
  ∑ number ∈ range automaton.size, automaton.hunger grammar number

theorem Framed.hunger_le (wellFormed : grammar.WellFormed)
    (unused : grammar.GoalUnused) (framed : automaton.Framed grammar)
    (number : Nat) :
    automaton.hunger grammar number ≤ grammar.columnCount :=
  List.countP_le_length.trans
    (framed.length_successors_le wellFormed unused number)

section Changes

variable {old new : Automaton}
  (framed : old.Framed grammar) (newFramed : new.Framed grammar)
  (alike : (old.state number).Alike (new.state number))
  (grows : ∀ other < old.size, ∀ item terminal,
    (old.state other).HasContext item terminal →
      (new.state other).HasContext item terminal)

include framed newFramed alike grows in
theorem isHungry_of_grows {scanned : Symbol} {next : Nat}
    (edge : (old.state number).successor? scanned = some next)
    (newEdge : (new.state number).successor? scanned = some next)
    (hungry : new.isHungry grammar number (scanned, next) = true) :
    old.isHungry grammar number (scanned, next) = true := by
  rw [newFramed.isHungry_iff newEdge] at hungry
  rw [framed.isHungry_iff edge]
  intro feeds
  apply hungry
  intro item terminal has scans
  exact grows next (framed.bounded _ _ _ edge) _ _
    (feeds item terminal (alike.hasContext_iff.mp has) scans)

include framed newFramed alike grows in
theorem hunger_le_of_grows
    (successors : (new.state number).successors =
      (old.state number).successors) :
    new.hunger grammar number ≤ old.hunger grammar number := by
  rw [hunger, hunger, successors]
  apply List.countP_mono_left
  rintro ⟨scanned, next⟩ member hungry
  have edge := framed.keyed.mem_successors.mp member
  apply isHungry_of_grows framed newFramed alike grows edge ?_ hungry
  exact newFramed.keyed.mem_successors.mp (successors.symm ▸ member)

include framed newFramed alike grows in
/-- A hungry transition that is redirected to a target which has all that
arrives leaves one hungry transition fewer. -/
theorem hunger_lt_of_redirected {current : Nat}
    (successors : (new.state number).successors =
      Ordered.put (old.state number).successors symbol target)
    (edge : (old.state number).successor? symbol = some current)
    (hungry : old.isHungry grammar number (symbol, current) = true)
    (feeds : Feeds grammar (new.state number) symbol (new.state target)) :
    new.hunger grammar number < old.hunger grammar number := by
  have redirected (scanned : Symbol) :
      (new.state number).successor? scanned =
        if scanned = symbol then some target
        else (old.state number).successor? scanned := by
    rw [State.successor?_eq, successors, Ordered.find?_put,
      State.successor?_eq]
  rw [hunger, hunger, successors]
  refine Ordered.countP_put_lt (State.successor?_eq _ _ ▸ edge) hungry ?_ ?_
  · rw [← Bool.not_eq_true, newFramed.isHungry_iff
      ((redirected symbol).trans (if_pos rfl)), not_not]
    exact feeds
  · rintro ⟨scanned, next⟩ member still
    have found := framed.keyed.mem_successors.mp member
    by_cases same : scanned = symbol
    · subst same
      rw [edge] at found
      cases found
      exact hungry
    · apply isHungry_of_grows framed newFramed alike grows found ?_ still
      rw [redirected, if_neg same]
      exact found

end Changes

end Automaton

end LRTables
