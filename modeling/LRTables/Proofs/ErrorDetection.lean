import LRTables.Proofs.GeneratedParsers
import LRTables.Proofs.Halting

/-!
# Error detection

A parser over a table without conflicts shifts a token only if the tokens so
far begin something that the grammar derives, and it shifts all that do.
Reductions made on a wrong token neither consume it nor go on for ever.
-/

namespace LRTables

namespace Grammar

variable {grammar : Grammar}

/-- The start symbol derives some string of symbols that begins with the
tokens. -/
def Viable (grammar : Grammar) (tokens : List Nat) : Prop :=
  ∃ rest, grammar.Derives [.nonterminal grammar.start]
    (tokens.map .terminal ++ rest)

/-- A word with a valid item is a first part of what the grammar derives. -/
theorem Valid.exists_derives (wellFormed : grammar.WellFormed)
    {word : List Symbol} {item : Item} (valid : grammar.Valid word item) :
    ∃ more, grammar.Derives [.nonterminal grammar.start]
      (word ++ item.rest grammar ++ more) := by
  induction valid with
  | goal =>
      refine ⟨[], ?_⟩
      have isRest : Item.goal.rest grammar = [.nonterminal grammar.start] :=
        wellFormed.right_goalRule
      rw [isRest]
      exact .refl _
  | @closure word item nonterminal rule _ scanned member ih =>
      obtain ⟨more, derives⟩ := ih
      obtain ⟨inside, isLeft⟩ := mem_rulesOf.mp member
      refine ⟨item.tail grammar ++ more, derives.trans ?_⟩
      have step := (Derives.single inside).within word
        (item.tail grammar ++ more)
      rw [isLeft] at step
      rw [Item.rest_of_scanned scanned]
      simpa [Item.rest] using step
  | @advance word item symbol _ scanned ih =>
      obtain ⟨more, derives⟩ := ih
      refine ⟨more, ?_⟩
      rw [Item.rest_of_scanned scanned] at derives
      rw [Item.rest_advance]
      simpa using derives

end Grammar

/-- The symbols of the point derive the tokens that are gone. -/
def Point.Accounts (grammar : Grammar) (tokens : List Nat) (point : Point) :
    Prop :=
  ∃ gone, tokens = gone ++ point.left ∧
    grammar.Derives point.above (gone.map .terminal)

theorem Point.accounts_start (grammar : Grammar) (tokens : List Nat) :
    Point.Accounts grammar tokens { above := [], left := tokens } :=
  ⟨[], rfl, .refl _⟩

namespace Table

open Automaton

variable {grammar : Grammar} {first : FirstSets} {automaton : Automaton}
  {table : Table} {tokens : List Nat} {point last : Point}
  (wellFormed : grammar.WellFormed) (unused : grammar.GoalUnused)

include wellFormed unused in
theorem Proceeds.accounts
    (represents : table.Represents grammar false automaton)
    (proceeds : table.Proceeds grammar automaton [] point last)
    (accounts : point.Accounts grammar tokens) :
    last.Accounts grammar tokens := by
  obtain ⟨gone, split, derives⟩ := accounts
  cases proceeds with
  | @shift _ token _ left _ isLeft _ =>
      refine ⟨gone ++ [token], ?_, ?_⟩
      · rw [split, isLeft, List.append_assoc]
        rfl
      · rw [List.map_append]
        exact derives.append (.refl _)
  | @reduce _ rule front leads isWord _ cell =>
      refine ⟨gone, split, ?_⟩
      have handle := handle_of_cell wellFormed unused represents leads cell
      have same : grammar.Derives front front := .refl _
      have step := same.append (Grammar.Derives.single handle.inside)
      rw [← isWord] at step
      exact step.trans derives

include wellFormed unused in
theorem Reads.accounts
    (represents : table.Represents grammar false automaton)
    (reads : table.Reads grammar automaton [] point last)
    (accounts : point.Accounts grammar tokens) :
    last.Accounts grammar tokens := by
  induction reads with
  | refl => exact accounts
  | tail _ proceeds ih =>
      exact proceeds.accounts wellFormed unused represents ih

include wellFormed unused in
theorem viable_of_accounts (framed : automaton.Framed grammar) {top : Nat}
    (leads : automaton.Leads point.above top)
    (accounts : point.Accounts grammar tokens) :
    ∃ gone, tokens = gone ++ point.left ∧ grammar.Viable gone := by
  obtain ⟨gone, split, derives⟩ := accounts
  obtain ⟨item, valid⟩ := framed.exists_valid wellFormed unused leads
  obtain ⟨more, whole⟩ := valid.exists_derives wellFormed
  refine ⟨gone, split, item.rest grammar ++ more, whole.trans ?_⟩
  rw [List.append_assoc]
  exact derives.append (.refl _)

variable (endUnused : grammar.EndUnused) (exact : first.Exact grammar)
  (faithful : automaton.Faithful grammar first)
  (decides : table.Decides grammar false automaton)

include wellFormed unused endUnused exact faithful decides in
theorem length_le_of_viable
    (reads : table.Reads grammar automaton [] { above := [], left := tokens }
      last)
    (rests : Rests grammar automaton table last) {gone left : List Nat}
    (split : tokens = gone ++ left) (viable : grammar.Viable gone) :
    last.left.length ≤ left.length := by
  obtain ⟨more, derives⟩ := viable
  have leads : automaton.Leads [] Automaton.start := .start
  have present := (faithful.framed.mem_items wellFormed unused leads).mpr .goal
  have isRest : Item.goal.rest grammar = [.nonterminal grammar.start] ++ [] :=
    wellFormed.right_goalRule
  subst split
  obtain ⟨above, again⟩ := reads_first wellFormed unused endUnused exact
    faithful decides (Grammar.expands_iff_derives.mpr derives) left rfl leads
    present isRest
  exact (Reads.comparable reads again rests).length_le

include wellFormed unused endUnused exact faithful decides in
/-- A parse of a sentence is accepted; any other ends with an error at the
first token with which the tokens begin nothing that the grammar derives. -/
theorem detects (noEnd : ∀ token ∈ tokens, token ≠ Terminal.endOfInput) :
    ∃ steps, (grammar.Derives [.nonterminal grammar.start]
          (tokens.map .terminal) ∧
        ∃ rules, table.parseWithin steps (tokens.map .ok) =
          some (.ok rules)) ∨
      (¬ grammar.Derives [.nonterminal grammar.start]
          (tokens.map .terminal) ∧
        ∃ consumed, table.parseWithin steps (tokens.map .ok) =
            some (.error (.step consumed .unexpected)) ∧
          IsGreatest { count | count ≤ tokens.length ∧
            grammar.Viable (tokens.take count) } consumed) := by
  have represents := decides.represents
  have recognizes := (decides.recognizes wellFormed unused endUnused tokens
    noEnd).1
  obtain ⟨last, reads, rests⟩ := exists_rests wellFormed unused endUnused exact
    faithful decides { above := [], left := tokens }
  obtain ⟨later, ⟨steps, reaches⟩, stands⟩ :=
    (stands_begin tokens).read wellFormed unused represents reads
  have parsed : table.parseWithin (1 + steps) (tokens.map .ok) =
      Parse.run table 1 later := reaches 1
  refine ⟨1 + steps, ?_⟩
  rcases stands.cases wellFormed unused represents endUnused with
    ⟨next, proceeds⟩ | accepts | fails
  · exact absurd proceeds (rests next)
  · have result := parsed.trans accepts
    exact Or.inl ⟨recognizes.mp ⟨_, _, result⟩, _, result⟩
  · have result := parsed.trans fails
    refine Or.inr ⟨?_, _, result, ?_, ?_⟩
    · intro derives
      obtain ⟨others, rules, accepts⟩ := recognizes.mpr derives
      cases Decides.parseWithin_unique accepts result
    · obtain ⟨top, _, -, leads⟩ := stands.stacked.exists_top
      obtain ⟨gone, split, viable⟩ := viable_of_accounts wellFormed unused
        represents.framed leads (reads.accounts wellFormed unused represents
          (Point.accounts_start grammar tokens))
      have total := stands.consumed
      rw [split, List.length_append] at total
      have isGone : later.consumed = gone.length := by omega
      rw [isGone, split]
      refine ⟨?_, ?_⟩
      · rw [List.length_append]
        exact Nat.le_add_right _ _
      · rwa [List.take_left]
    · rintro count ⟨inside, viable⟩
      have further := length_le_of_viable wellFormed unused endUnused exact
        faithful decides reads rests (List.take_append_drop count tokens).symm
        viable
      have total := stands.consumed
      rw [List.length_drop] at further
      omega

end Table

/-- With any kind of lookaheads, a parser over a table without conflicts halts
on every input, and it finds an error at the first token with which the tokens
begin nothing that the grammar derives. -/
theorem generated_detects {grammar : Grammar} {options : Options} {limit : Nat}
    {output : Output} (accepted : grammar.Accepted)
    (unused : grammar.GoalUnused) (endUnused : grammar.EndUnused)
    (mode : options.mode ≠ .lr0)
    (result : grammar.generateWithin limit options = .ok output)
    (clean : output.table.log.conflicts = #[]) (tokens : List Nat)
    (noEnd : ∀ token ∈ tokens, token ≠ Terminal.endOfInput) :
    ∃ steps, (grammar.Derives [.nonterminal grammar.start]
          (tokens.map .terminal) ∧
        ∃ rules, output.table.parseWithin steps (tokens.map .ok) =
          some (.ok rules)) ∨
      (¬ grammar.Derives [.nonterminal grammar.start]
          (tokens.map .terminal) ∧
        ∃ consumed, output.table.parseWithin steps (tokens.map .ok) =
            some (.error (.step consumed .unexpected)) ∧
          IsGreatest { count | count ≤ tokens.length ∧
            grammar.Viable (tokens.take count) } consumed) := by
  have wellFormed := accepted.wellFormed
  have exact := FirstSets.exact_ofGrammar wellFormed
  have construction := Grammar.faithful_constructWithin wellFormed unused mode
    (Grammar.built_of_generateWithin result)
  obtain ⟨automaton, faithful, filled⟩ := construction.table
  have adequate := faithful.adequate wellFormed unused exact
  have decides := adequate.decides wellFormed filled clean
  exact Table.detects wellFormed unused endUnused exact faithful decides noEnd

theorem generated_detects_chain : ∃ output,
    Grammar.chain.generateWithin 0 .standard = .ok output ∧
      output.table.log.conflicts = #[] ∧
      ∃ steps, (Grammar.chain.Derives [.nonterminal Grammar.chain.start]
            (([2, 3, 3] : List Nat).map .terminal) ∧
          ∃ rules, output.table.parseWithin steps
            (([2, 3, 3] : List Nat).map .ok) = some (.ok rules)) ∨
        (¬ Grammar.chain.Derives [.nonterminal Grammar.chain.start]
            (([2, 3, 3] : List Nat).map .terminal) ∧
          ∃ consumed, output.table.parseWithin steps
              (([2, 3, 3] : List Nat).map .ok) =
                some (.error (.step consumed .unexpected)) ∧
            IsGreatest { count | count ≤ ([2, 3, 3] : List Nat).length ∧
              Grammar.chain.Viable (([2, 3, 3] : List Nat).take count) }
              consumed) := by
  obtain ⟨output, result, clean⟩ := exists_output_chain
  exact ⟨output, result, clean, generated_detects accepted_chain
    goalUnused_chain endUnused_chain (by decide) result clean [2, 3, 3]
    (by decide)⟩

end LRTables
