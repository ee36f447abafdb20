import LRTables.Proofs.BuiltTables
import LRTables.Proofs.GeneratedParsers
import LRTables.Proofs.ReadTables

/-!
# Tables survive their text

Whether a table is built, compacted or read, its text reads back as the table
itself unless a header stands in the way.  In the table of a grammar that can
only be the header of a literal with a line feed in it.
-/

namespace LRTables

/-- The text holds no character that ends a line. -/
def OneLine (text : String) : Prop :=
  '\n' ∉ text.toList ∧ '\r' ∉ text.toList

theorem OneLine.cleanHeader {text : String} (oneLine : OneLine text) :
    Table.CleanHeader text :=
  ⟨oneLine.1, fun last => oneLine.2 (List.mem_of_getLast? last)⟩

theorem Name.oneLine [Alphabet] (lineFeed : Alphabet.Excludes '\n')
    (carriageReturn : Alphabet.Excludes '\r') {text : String}
    (name : Name.isName text = true) : OneLine text := by
  constructor
  · exact not_mem_of_isName lineFeed (by decide) (by decide) name
  · exact not_mem_of_isName carriageReturn (by decide) (by decide) name

/-- Symbols that are not quoted have names without line ends, and numbers of
16 bits are enough for all symbols and rules. -/
structure Draft.Writable (draft : Draft) : Prop where
  terminals : ∀ terminal ∈ draft.terminals,
    terminal.quoted = false → OneLine terminal.name
  nonterminals : ∀ name ∈ draft.nonterminals, OneLine name
  terminalCount : draft.terminals.size ≤ numberLimit
  nonterminalCount : draft.nonterminals.size ≤ numberLimit
  ruleCount : draft.rules.size < numberLimit

namespace Draft

theorem writable_empty : empty.Writable := by
  constructor
  · intro terminal member _
    simp only [empty, List.mem_toArray, List.mem_cons, List.not_mem_nil,
      or_false] at member
    rcases member with rfl | rfl
    · exact ⟨by decide, by decide⟩
    · exact ⟨by decide, by decide⟩
  · intro name member
    simp only [empty, List.mem_toArray, List.mem_singleton] at member
    subst member
    exact ⟨by decide, by decide⟩
  · decide
  · decide
  · decide

theorem Writable.push {draft : Draft} {terminal : Terminal}
    (writable : draft.Writable)
    (own : terminal.quoted = false → OneLine terminal.name)
    (few : draft.terminals.size < numberLimit) :
    { draft with
      terminals := draft.terminals.push terminal }.Writable := by
  constructor
  · intro other member
    rcases Array.mem_push.mp member with old | rfl
    · exact writable.terminals other old
    · exact own
  · exact writable.nonterminals
  · rw [Array.size_push]
    exact few
  · exact writable.nonterminalCount
  · exact writable.ruleCount

theorem Writable.keep {draft next : Draft} (writable : draft.Writable)
    (terminals : next.terminals = draft.terminals)
    (nonterminals : next.nonterminals = draft.nonterminals)
    (rules : next.rules.size < numberLimit) : next.Writable := by
  constructor
  · rw [terminals]
    exact writable.terminals
  · rw [nonterminals]
    exact writable.nonterminals
  · rw [terminals]
    exact writable.terminalCount
  · rw [nonterminals]
    exact writable.nonterminalCount
  · exact rules

section Alphabet

variable [Alphabet] (lineFeed : Alphabet.Excludes '\n')
  (carriageReturn : Alphabet.Excludes '\r')

include lineFeed carriageReturn

theorem Writable.step {draft next : Draft} {declaration : Declaration}
    (writable : draft.Writable) (step : draft.Step declaration next) :
    next.Writable := by
  cases step with
  | terminal isName absent few =>
      exact writable.push (fun _ => Name.oneLine lineFeed carriageReturn isName)
        few
  | quoted filled absent few => exact writable.push Bool.noConfusion few
  | nonterminal isName absent few =>
      constructor
      · exact writable.terminals
      · intro other member
        rcases Array.mem_push.mp member with old | rfl
        · exact writable.nonterminals other old
        · exact Name.oneLine lineFeed carriageReturn isName
      · exact writable.terminalCount
      · rw [Array.size_push]
        exact few
      · exact writable.ruleCount
  | rule resolved unlike few =>
      exact writable.keep rfl rfl (by rwa [Array.size_push])
  | @code rule =>
      cases rule with
      | zero => exact writable
      | succ index =>
          have rules :
              (draft.markCode (index + 1)).rules.size < numberLimit := by
            rw [markCode, Array.size_modify]
            exact writable.ruleCount
          exact writable.keep rfl rfl rules
  | _ => exact writable.keep rfl rfl writable.ruleCount

theorem Reachable.writable {draft : Draft} (reachable : draft.Reachable) :
    draft.Writable := by
  induction reachable with
  | empty => exact writable_empty
  | declare _ _ success ih =>
      exact ih.step lineFeed carriageReturn (step_of_declare success)

end Alphabet

end Draft

/-- What a draft has in stock for the text of a table, the finished grammar has
as well. -/
structure Grammar.Writable (grammar : Grammar) : Prop where
  terminals : ∀ terminal ∈ grammar.terminals,
    terminal.quoted = false → OneLine terminal.name
  nonterminals : ∀ name ∈ grammar.nonterminals, OneLine name
  terminalCount : grammar.terminals.size ≤ Draft.numberLimit
  nonterminalCount : grammar.nonterminals.size ≤ Draft.numberLimit
  ruleCount : grammar.rules.size ≤ Draft.numberLimit

theorem Grammar.Definable.writable [Alphabet]
    (lineFeed : Alphabet.Excludes '\n')
    (carriageReturn : Alphabet.Excludes '\r') {grammar : Grammar}
    (definable : grammar.Definable) : grammar.Writable := by
  obtain ⟨draft, reachable, success⟩ := definable
  obtain ⟨start, -, rfl, -, -⟩ := Draft.finish_eq_ok success
  have writable := reachable.writable lineFeed carriageReturn
  refine ⟨writable.terminals, writable.nonterminals, writable.terminalCount,
    writable.nonterminalCount, ?_⟩
  rw [Draft.toGrammar, Array.size_append, List.size_toArray,
    List.length_singleton, Nat.add_comm]
  exact writable.ruleCount

namespace Terminal

theorem cleanHeader_text {terminal : Terminal}
    (named : terminal.quoted = false → OneLine terminal.name) :
    Table.CleanHeader terminal.text ↔
      (terminal.quoted = true → '\n' ∉ terminal.name.toList) := by
  cases quoted : terminal.quoted with
  | false =>
      rw [text_of_not_quoted quoted]
      exact ⟨fun _ absurd => (nomatch absurd),
        fun _ => (named quoted).cleanHeader⟩
  | true =>
      have last : ('\'' :: (terminal.name.toList ++ ['\''])).getLast? =
          some '\'' := by
        rw [← List.cons_append]
        exact List.getLast?_concat
      rw [Table.CleanHeader, toList_text_of_quoted quoted, last]
      simp

end Terminal

namespace Table

/-- The table of an automaton that was constructed for the grammar. -/
def BuiltFor (grammar : Grammar) (table : Table) : Prop :=
  ∃ automaton anyLookahead, automaton.Constructed grammar ∧
    ofAutomaton grammar automaton anyLookahead = .ok table

/-- The states of the table can be numbered by its cells, and its lists have
lengths that a machine can hold. -/
structure Holdable (table : Table) : Prop where
  states : table.stateCount ≤ Reading.codeBound
  lengths : ∀ shape ∈ table.rules, shape.length < Reading.sizeBound
  conflicts : table.log.conflicts.size < Reading.sizeBound

instance (table : Table) : Decidable table.Holdable :=
  decidable_of_iff
    (table.stateCount ≤ Reading.codeBound ∧
      (∀ shape ∈ table.rules, shape.length < Reading.sizeBound) ∧
      table.log.conflicts.size < Reading.sizeBound)
    ⟨fun ⟨states, lengths, conflicts⟩ => ⟨states, lengths, conflicts⟩,
      fun ⟨states, lengths, conflicts⟩ => ⟨states, lengths, conflicts⟩⟩

/-- The tables there are: those built for grammars with names over the
alphabet, as far as they can be held, those compacted, and those read. -/
inductive Obtained [Alphabet] : Table → Prop where
  | built {grammar : Grammar} {table : Table} :
      grammar.Definable → BuiltFor grammar table → table.Holdable →
      Obtained table
  | compacted {table : Table} : Obtained table → Obtained table.compact
  | read {text : String} {table : Table} :
      Table.read text = .ok table → Obtained table

namespace BuiltFor

variable {grammar : Grammar} {table : Table}

theorem valid (accepted : grammar.Accepted)
    (built : table.BuiltFor grammar) : table.Valid := by
  obtain ⟨automaton, anyLookahead, constructed, result⟩ := built
  exact valid_ofAutomaton accepted.wellFormed
    (constructed.proper accepted.wellFormed) result

theorem columns_eq (built : table.BuiltFor grammar) :
    table.columns = (grammar.columns.map grammar.symbolText).toArray := by
  obtain ⟨automaton, anyLookahead, -, result⟩ := built
  exact columns_ofAutomaton result

/-- Only literals with line feeds in them spoil the headers of a grammar. -/
theorem cleanHeaders_iff (writable : grammar.Writable)
    (built : table.BuiltFor grammar) :
    (∀ head ∈ table.columns, CleanHeader head) ↔
      ∀ terminal ∈ grammar.terminals,
        terminal.quoted = true → '\n' ∉ terminal.name.toList := by
  rw [built.columns_eq, grammar.map_symbolText_columns]
  simp only [List.mem_toArray, List.forall_mem_append, List.forall_mem_map,
    Array.mem_toList_iff]
  have named : ∀ name ∈ grammar.nonterminals.toList.tail,
      CleanHeader name := by
    intro name member
    exact (writable.nonterminals name
      (Array.mem_toList_iff.mp (List.mem_of_mem_tail member))).cleanHeader
  constructor
  · intro clean terminal member
    exact (Terminal.cleanHeader_text (writable.terminals _ member)).mp
      (clean.1 terminal member)
  · intro free
    refine ⟨fun terminal member => ?_, named⟩
    exact (Terminal.cleanHeader_text (writable.terminals _ member)).mpr
      (free terminal member)

/-- A table that can be held fits into its text: the numbers of symbols and
rules are those of the grammar. -/
theorem fits (accepted : grammar.Accepted) (writable : grammar.Writable)
    (built : table.BuiltFor grammar) (holdable : table.Holdable) : table.Fits := by
  have valid := built.valid accepted
  have wellFormed := accepted.wellFormed
  obtain ⟨automaton, anyLookahead, constructed, result⟩ := built
  obtain ⟨-, log⟩ :=
    filled_of_ofAutomaton wellFormed (constructed.proper wellFormed) result
  obtain ⟨-, terminalCount, rules⟩ := ofAutomaton_eq_ok result
  have fewRules : grammar.rules.size ≤ Action.ruleBound :=
    writable.ruleCount.trans (by decide)
  have declared : table.rules.size = grammar.rules.size := by
    rw [rules, Array.size_map]
  have narrow : table.columns.size ≤ 2 * Draft.numberLimit := by
    have terminals := writable.terminalCount
    have nonterminals := writable.nonterminalCount
    rw [size_columns_ofAutomaton wellFormed result, Grammar.columnCount]
    omega
  have small {rule : Nat} (inside : rule < table.rules.size) :
      rule < Action.ruleBound :=
    Nat.lt_of_lt_of_le inside (declared ▸ fewRules)
  have below {action : Action}
      (own : action.Below table.stateCount grammar.rules.size) :
      action.Below Reading.codeBound Action.ruleBound :=
    own.mono holdable.states fewRules
  constructor
  · exact Nat.lt_of_le_of_lt narrow (by decide)
  · rw [declared]
    exact Nat.lt_of_le_of_lt fewRules (by decide)
  · intro shape member
    refine ⟨?_, holdable.lengths shape member⟩
    intro column isColumn
    rw [rules] at member
    obtain ⟨rule, listed, rfl⟩ := Array.mem_map.mp member
    obtain ⟨number, inside, rfl⟩ := Array.mem_iff_getElem.mp listed
    have left := wellFormed.left_declared number
    rw [Grammar.left, Array.getElem?_eq_getElem inside] at left
    have inTable := @RowFilling.columnOf_lt grammar wellFormed
      (.nonterminal _) column left isColumn
    rw [← size_columns_ofAutomaton wellFormed result] at inTable
    exact Nat.lt_of_lt_of_le inTable (narrow.trans (by decide))
  · exact Nat.lt_of_le_of_lt holdable.states (by decide)
  · have cells : table.stateCount * table.columns.size ≤
        Reading.codeBound * (2 * Draft.numberLimit) :=
      Nat.mul_le_mul holdable.states narrow
    exact Nat.lt_of_le_of_lt cells (by decide)
  · intro row member action inRow
    exact below (declared ▸ (valid.rows row member).below action inRow)
  · exact Nat.lt_of_le_of_lt
      ((finals_ofAutomaton result).1.trans holdable.states) (by decide)
  · exact fun final member => small (valid.finals final member).2
  · apply log.tallied.fits holdable.conflicts
    · rw [log.shiftShift]
      decide
    · intro conflict member
      have own := valid.conflicts conflict member
      obtain ⟨other, decision⟩ := log.below conflict member
      refine ⟨?_, small own.reduce, below other, below decision⟩
      apply Nat.lt_of_lt_of_le own.lookahead
      rw [terminalCount]
      exact writable.terminalCount.trans (by decide)

end BuiltFor

section Alphabet

variable [Alphabet] (lineFeed : Alphabet.Excludes '\n')
  (carriageReturn : Alphabet.Excludes '\r')

include lineFeed carriageReturn

theorem Obtained.valid_and_fits {table : Table} (obtained : table.Obtained) :
    table.Valid ∧ table.Fits := by
  induction obtained with
  | built definable built holdable =>
      have accepted := definable.accepted
      have writable := definable.writable lineFeed carriageReturn
      exact ⟨built.valid accepted, built.fits accepted writable holdable⟩
  | compacted _ before => exact ⟨before.1.compact, before.2.compact⟩
  | read result => exact ⟨(sound_read result).1, (sound_read result).2.1⟩

/-- The text of a table reads back as the table, unless a header holds a line
feed or ends in a carriage return.  For the table of a grammar, that is to say
unless a quoted literal holds a line feed. -/
theorem read_write_obtained {table : Table} (obtained : table.Obtained) :
    (read table.write = .ok table ↔
      ∀ head ∈ table.columns,
        '\n' ∉ head.toList ∧ head.toList.getLast? ≠ some '\r') ∧
    ∀ grammar : Grammar, grammar.Definable → table.BuiltFor grammar →
      (read table.write ≠ .ok table ↔
        ∃ terminal ∈ grammar.terminals,
          terminal.quoted = true ∧ '\n' ∈ terminal.name.toList) := by
  obtain ⟨valid, fits⟩ := obtained.valid_and_fits lineFeed carriageReturn
  have readBack := read_write_iff valid fits
  refine ⟨readBack, ?_⟩
  intro grammar definable built
  have writable := definable.writable lineFeed carriageReturn
  rw [Ne, readBack, built.cleanHeaders_iff writable]
  simp only [not_forall, not_not, exists_prop]

end Alphabet

theorem exists_obtained_chain :
    ∃ table : Table, table.Obtained ∧ table.BuiltFor .chain := by
  obtain ⟨output, result, holdable⟩ : ∃ output,
      Grammar.chain.generateWithin 0 .standard = .ok output ∧
        output.table.Holdable := by
    apply exists_ok_of_any
    cbv
  have built : output.table.BuiltFor .chain :=
    (Grammar.constructed_constructWithin
      (Grammar.built_of_generateWithin result)).2
  exact ⟨output.table, .built definable_chain built holdable, built⟩

theorem read_write_obtained_chain : ∃ table : Table, table.Obtained ∧
    table.BuiltFor .chain ∧ read table.write = .ok table ∧
    read table.compact.write = .ok table.compact := by
  obtain ⟨table, obtained, built⟩ := exists_obtained_chain
  have lineFeed : Alphabet.Excludes '\n' :=
    ⟨by decide +kernel, by decide +kernel⟩
  have carriageReturn : Alphabet.Excludes '\r' :=
    ⟨by decide +kernel, by decide +kernel⟩
  obtain ⟨clean, literals⟩ :=
    read_write_obtained lineFeed carriageReturn obtained
  have readBack : read table.write = .ok table := by
    rw [← not_ne_iff, literals .chain definable_chain built]
    decide
  obtain ⟨compactedClean, -⟩ :=
    read_write_obtained lineFeed carriageReturn obtained.compacted
  exact ⟨table, obtained, built, readBack,
    compactedClean.mpr (clean.mp readBack)⟩

end Table

end LRTables
