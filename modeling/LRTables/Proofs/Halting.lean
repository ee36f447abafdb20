import LRTables.Proofs.Readings
import Mathlib.Data.Set.Card

/-!
# Halting

A parser over a table without conflicts never reduces for ever.  On one
lookahead every reduction belongs to an item below whose symbols after the dot
vanish, so the stack gets lower or its topmost symbol is replaced.  Symbols
could be replaced for ever only in a circle; but what lets a lookahead into
such a circle also lets the parser out of it, so two actions would compete.
-/

namespace LRTables

namespace Grammar

variable {grammar : Grammar} {inner outer : Symbol}

/-- A rule for the outer symbol begins with the inner one, and what follows
there vanishes. -/
def Wraps (grammar : Grammar) (inner outer : Symbol) : Prop :=
  ∃ rule < grammar.rules.size, ∃ tail,
    outer = .nonterminal (grammar.left rule) ∧
      grammar.right rule = inner :: tail ∧ grammar.Vanishes tail

/-- Such rules lead from the symbol back to it. -/
abbrev Circular (grammar : Grammar) (symbol : Symbol) : Prop :=
  Relation.TransGen grammar.Wraps symbol symbol

theorem Derives.endOfInput_notMem (endUnused : grammar.EndUnused)
    {symbols form : List Symbol} (derives : grammar.Derives symbols form)
    (absent : Symbol.terminal Terminal.endOfInput ∉ symbols) :
    Symbol.terminal Terminal.endOfInput ∉ form := by
  induction derives with
  | refl => exact absent
  | tail _ step ih =>
      cases step with
      | @replace before after rule _ =>
          have fresh := endUnused.not_mem_right rule
          simp only [List.mem_append, List.mem_cons, not_or] at ih ⊢
          exact ⟨⟨ih.1, fresh⟩, ih.2.2⟩

theorem not_begins_endOfInput (endUnused : grammar.EndUnused) (item : Item) :
    ¬ grammar.Begins (item.rest grammar) Terminal.endOfInput := by
  rintro ⟨more, derives⟩
  refine derives.endOfInput_notMem endUnused ?_ List.mem_cons_self
  exact fun member =>
    endUnused.not_mem_right item.rule (List.mem_of_mem_drop member)

theorem Wraps.ne_goal (unused : grammar.GoalUnused)
    (wraps : grammar.Wraps inner outer) :
    inner ≠ .nonterminal goalSymbol := by
  rintro rfl
  obtain ⟨rule, -, tail, -, right, -⟩ := wraps
  apply unused.not_mem_right rule
  rw [right]
  exact List.mem_cons_self

/-- What all rules of an outer symbol admit, those of an inner one do too. -/
theorem admits_inner {word : List Symbol} {terminal inner outer : Nat}
    (reaches : Relation.ReflTransGen grammar.Wraps (.nonterminal inner)
      (.nonterminal outer))
    (admits : ∀ rule ∈ grammar.rulesOf outer,
      grammar.Admits word { rule, dot := 0 } terminal) :
    ∀ rule ∈ grammar.rulesOf inner,
      grammar.Admits word { rule, dot := 0 } terminal := by
  generalize isInner : Symbol.nonterminal inner = symbol at reaches
  induction reaches using Relation.ReflTransGen.head_induction_on
    generalizing inner with
  | refl =>
      cases isInner
      exact admits
  | head wraps _ ih =>
      subst isInner
      obtain ⟨rule, inside, tail, rfl, right, vanishes⟩ := wraps
      have split : grammar.right rule =
          [] ++ .nonterminal inner :: tail := right
      obtain ⟨scanned, isTail⟩ := Item.scanned_of_dot split
      intro other member
      exact .inherited (ih rfl rule (mem_rulesOf.mpr ⟨inside, rfl⟩)) scanned
        member (isTail.symm ▸ vanishes)

/-- When all rules of a symbol that wrapping leads back to are admitted, so is
the rule that wraps it. -/
theorem Circular.exists_outer {word : List Symbol}
    {nonterminal terminal : Nat}
    (circular : grammar.Circular (.nonterminal nonterminal))
    (rules : ∀ rule ∈ grammar.rulesOf nonterminal,
      grammar.Admits word { rule, dot := 0 } terminal) :
    ∃ outer : Item, outer.dot = 0 ∧
      grammar.Circular (.nonterminal (grammar.left outer.rule)) ∧
      grammar.Admits word outer terminal ∧
      outer.scanned grammar = some (.nonterminal nonterminal) ∧
      grammar.Vanishes (outer.tail grammar) := by
  obtain ⟨outer, wraps, back⟩ := Relation.TransGen.head'_iff.mp circular
  obtain ⟨rule, inside, tail, rfl, right, vanishes⟩ := wraps
  have split : grammar.right rule = [] ++ .nonterminal nonterminal :: tail :=
    right
  obtain ⟨scanned, isTail⟩ := Item.scanned_of_dot split
  refine ⟨{ rule, dot := 0 }, rfl, ?_, ?_, scanned, isTail.symm ▸ vanishes⟩
  · exact .tail' back ⟨rule, inside, tail, rfl, right, vanishes⟩
  · exact admits_inner back rules rule
      (mem_rulesOf.mpr ⟨inside, rfl⟩)

/-- If the rest of an item vanishes, its lookahead begins the rest of some
item, or belongs to an item of the kernel whose rest vanishes as well. -/
theorem Carries.begins_or_vanishes {kernel : Item → Prop}
    {context : Item → Nat → Prop} {item : Item} {terminal : Nat}
    (carries : grammar.Carries kernel context item terminal)
    (vanishes : grammar.Vanishes (item.rest grammar)) :
    (∃ source, grammar.Spreads kernel source ∧
        grammar.Begins (source.rest grammar) terminal) ∨
      ∃ source, kernel source ∧ context source terminal ∧
        grammar.Vanishes (source.rest grammar) := by
  have scannedVanishes {nonterminal rule : Nat}
      (member : rule ∈ grammar.rulesOf nonterminal)
      (empty : grammar.Vanishes
        (({ rule, dot := 0 } : Item).rest grammar)) :
      grammar.Vanishes [.nonterminal nonterminal] :=
    vanishes_nonterminal.mpr ⟨rule, member, empty⟩
  induction carries with
  | kernel member inContext => exact Or.inr ⟨_, member, inContext, vanishes⟩
  | @generated item nonterminal rule terminal spreads scanned member begins =>
      refine Or.inl ⟨item, spreads, ?_⟩
      rw [Item.rest_of_scanned scanned, ← List.singleton_append]
      exact begins_append.mpr
        (Or.inr ⟨scannedVanishes member vanishes, begins⟩)
  | @inherited item nonterminal rule terminal _ scanned member tailVanishes
      ih =>
      apply ih
      rw [Item.rest_of_scanned scanned, ← List.singleton_append]
      exact vanishes_append.mpr
        ⟨scannedVanishes member vanishes, tailVanishes⟩

/-- The symbols that a stack may come to end with by wrapping its last one. -/
def outers (grammar : Grammar) (above : List Symbol) : Set Symbol :=
  { outer | ∃ symbol, above.getLast? = some symbol ∧
      Relation.TransGen grammar.Wraps symbol outer }

theorem finite_outers (grammar : Grammar) (above : List Symbol) :
    (grammar.outers above).Finite := by
  have heads := (Set.finite_lt_nat grammar.rules.size).image fun rule =>
    Symbol.nonterminal (grammar.left rule)
  apply heads.subset
  rintro outer ⟨symbol, -, wraps⟩
  obtain ⟨_, -, rule, inside, _, rfl, -, -⟩ :=
    Relation.TransGen.tail'_iff.mp wraps
  exact ⟨rule, inside, rfl⟩

theorem outers_lt {front : List Symbol} (wraps : grammar.Wraps inner outer)
    (straight : ¬ grammar.Circular outer) :
    (grammar.outers (front ++ [outer])).ncard <
      (grammar.outers (front ++ [inner])).ncard := by
  apply Set.ncard_lt_ncard _ (grammar.finite_outers _)
  have last (symbol : Symbol) :
      (front ++ [symbol]).getLast? = some symbol := by
    simp
  constructor
  · rintro other ⟨symbol, isLast, reaches⟩
    cases (last outer).symm.trans isLast
    exact ⟨inner, last inner, reaches.head wraps⟩
  · intro subset
    obtain ⟨symbol, isLast, circle⟩ :=
      subset ⟨inner, last inner, .single wraps⟩
    cases (last outer).symm.trans isLast
    exact straight circle

/-- A token is consumed, the stack gets lower, or its last symbol is replaced
by one that wraps it and cannot come back. -/
inductive Falls (grammar : Grammar) : Point → Point → Prop where
  | consumed {here there : Point} : there.left.length < here.left.length →
      Falls grammar there here
  | lower {left : List Nat} {above more : List Symbol} :
      more.length < above.length →
      Falls grammar { above := more, left } { above, left }
  | wrapped {left : List Nat} {front : List Symbol} {inner outer : Symbol} :
      grammar.Wraps inner outer → ¬ grammar.Circular outer →
      Falls grammar { above := front ++ [outer], left }
        { above := front ++ [inner], left }

theorem wellFounded_falls (grammar : Grammar) :
    WellFounded grammar.Falls := by
  have order : WellFounded (Prod.Lex (· < · : Nat → Nat → Prop)
      (Prod.Lex (· < · : Nat → Nat → Prop) (· < · : Nat → Nat → Prop))) :=
    WellFounded.prod_lex wellFounded_lt
      (WellFounded.prod_lex wellFounded_lt wellFounded_lt)
  have measured := InvImage.wf (fun point : Point =>
    (point.left.length, point.above.length,
      (grammar.outers point.above).ncard)) order
  apply Subrelation.wf _ measured
  intro there here falls
  cases falls with
  | consumed less => exact .left _ _ less
  | lower less => exact .right _ (.left _ _ less)
  | @wrapped left front inner outer wraps straight =>
      show Prod.Lex _ _ (left.length, _) (left.length, _)
      refine .right _ ?_
      have same : (front ++ [outer]).length = (front ++ [inner]).length := by
        simp
      rw [same]
      exact .right _ (outers_lt wraps straight)

end Grammar

namespace Table

open Automaton

variable {grammar : Grammar} {first : FirstSets} {automaton : Automaton}
  {table : Table} (wellFormed : grammar.WellFormed)
  (unused : grammar.GoalUnused) (endUnused : grammar.EndUnused)
  (exact : first.Exact grammar)
  (faithful : automaton.Faithful grammar first)
  (decides : table.Decides grammar false automaton)

section Kernels

variable {word : List Symbol} {top : Nat} {item other : Item}
  {left : List Nat}

include wellFormed unused endUnused exact faithful decides in
theorem reads_vanishing (leads : automaton.Leads word top)
    (has : (automaton.state top).HasContext item (Grammar.lookahead left))
    (vanishes : grammar.Vanishes (item.rest grammar)) :
    table.Reads grammar automaton word { above := [], left }
      { above := item.rest grammar, left } := by
  have expands := Grammar.expands_iff_derives.mpr vanishes
  have isRest : item.rest grammar = item.rest grammar ++ [] :=
    (List.append_nil _).symm
  exact @reads_of_expands grammar first automaton table wellFormed unused
    endUnused exact faithful decides _ _ expands word [] top item [] left rfl
    leads has.mem_items isRest (Or.inr ⟨.nil, has⟩)

include wellFormed unused faithful decides in
/-- What comes next goes below the word. -/
theorem stuck_of_vanishing (leads : automaton.Leads word top)
    (has : (automaton.state top).HasContext item (Grammar.lookahead left))
    (moved : 0 < item.dot) (next : Point) :
    ¬ table.Proceeds grammar automaton word
      { above := item.rest grammar, left } next := by
  obtain ⟨last, lastLeads, cell⟩ :=
    cell_of_hasContext wellFormed unused faithful decides leads has
  have valid := (faithful.framed.mem_items wellFormed unused leads).mp
    has.mem_items
  have bound := valid.dot_le
  intro proceeds
  cases proceeds with
  | shift leads' split cell' =>
      cases leads'.unique lastLeads
      dsimp only at split
      rw [split, Action.atEnd] at cell
      have same := cell'.symm.trans cell
      split at same <;> cases same
  | @reduce _ rule front leads' split _ cell' =>
      cases leads'.unique lastLeads
      have same := cell'.symm.trans cell
      rw [Action.atEnd] at same
      split at same
      · cases same
      · cases same
        have length := congrArg List.length split
        simp only [Item.rest, List.length_drop, List.length_append] at length
        omega

include wellFormed unused endUnused exact faithful decides in
/-- Of the items whose dot has moved, at most one has a given lookahead and a
rest that vanishes. -/
theorem item_unique (leads : automaton.Leads word top) {terminal : Nat}
    (has : (automaton.state top).HasContext item terminal)
    (hasOther : (automaton.state top).HasContext other terminal)
    (vanishes : grammar.Vanishes (item.rest grammar))
    (otherVanishes : grammar.Vanishes (other.rest grammar))
    (moved : 0 < item.dot) (otherMoved : 0 < other.dot) : item = other := by
  have lookahead : Grammar.lookahead [terminal] = terminal := rfl
  rw [← lookahead] at has hasOther
  have reads := reads_vanishing wellFormed unused endUnused exact faithful
    decides leads has vanishes
  have readsOther := reads_vanishing wellFormed unused endUnused exact faithful
    decides leads hasOther otherVanishes
  have stuck := stuck_of_vanishing wellFormed unused faithful decides leads has
    moved
  have stuckOther := stuck_of_vanishing wellFormed unused faithful decides
    leads hasOther otherMoved
  have rests : item.rest grammar = other.rest grammar := by
    rcases (Reads.comparable reads readsOther stuck).cases_head with
      same | ⟨next, proceeds, -⟩
    · exact (congrArg Point.above same).symm
    · exact absurd proceeds (stuckOther next)
  obtain ⟨last, lastLeads, cell⟩ :=
    cell_of_hasContext wellFormed unused faithful decides leads has
  obtain ⟨otherLast, otherLeads, otherCell⟩ :=
    cell_of_hasContext wellFormed unused faithful decides leads hasOther
  rw [rests] at lastLeads
  cases lastLeads.unique otherLeads
  have rules := Action.atEnd_injective (cell.symm.trans otherCell)
  have framed := faithful.framed
  have bound := ((framed.mem_items wellFormed unused leads).mp
    has.mem_items).dot_le
  have otherBound := ((framed.mem_items wellFormed unused leads).mp
    hasOther.mem_items).dot_le
  have length := congrArg List.length rests
  simp only [Item.rest, List.length_drop] at length
  rw [rules] at length bound
  have dots : item.dot = other.dot := by omega
  cases item
  cases other
  cases rules
  cases dots
  rfl

include wellFormed unused endUnused exact faithful decides in
/-- If the rest of an item vanishes on a lookahead, no other item of the state
goes on with that terminal. -/
theorem not_begins (leads : automaton.Leads word top) {terminal : Nat}
    (has : (automaton.state top).HasContext item terminal)
    (vanishes : grammar.Vanishes (item.rest grammar)) (moved : 0 < item.dot)
    (present : other ∈ (automaton.state top).items) :
    ¬ grammar.Begins (other.rest grammar) terminal := by
  rintro ⟨more, derives⟩
  have lookahead : Grammar.lookahead [terminal] = terminal := rfl
  rw [← lookahead] at has
  have reads := reads_vanishing wellFormed unused endUnused exact faithful
    decides leads has vanishes
  have stuck := stuck_of_vanishing wellFormed unused faithful decides leads has
    moved
  have isRest : other.rest grammar = other.rest grammar ++ [] :=
    (List.append_nil _).symm
  obtain ⟨above, again⟩ := @reads_first grammar first automaton table
    wellFormed unused endUnused exact faithful decides _ _
    (Grammar.expands_iff_derives.mpr derives) word [] more top other
    [terminal] [] rfl leads present isRest
  have back := (Reads.comparable reads again stuck).length_le
  exact absurd back (Nat.not_succ_le_zero 0)

end Kernels

include wellFormed unused exact faithful in
theorem exists_leads_advance {word : List Symbol} {outer : Item}
    {symbol : Symbol} {terminal : Nat}
    (admits : grammar.Admits word outer terminal)
    (scanned : outer.scanned grammar = some symbol) :
    ∃ number, automaton.Leads (word ++ [symbol]) number ∧
      (automaton.state number).HasContext outer.advance terminal := by
  have further : grammar.Admits (word ++ [symbol]) outer.advance terminal :=
    .advance admits scanned
  obtain ⟨number, leads⟩ := faithful.framed.exists_leads wellFormed unused
    faithful.total further.valid
  exact ⟨number, leads, faithful.saturated.hasContext wellFormed unused exact
    faithful.framed leads further⟩

include wellFormed unused endUnused exact faithful decides in
/-- Nothing is admitted with a rule of a symbol from which wrapping leads back
to it. -/
theorem not_circular {word : List Symbol} {item : Item} {terminal : Nat}
    (admits : grammar.Admits word item terminal) (start : item.dot = 0) :
    ¬ grammar.Circular (.nonterminal (grammar.left item.rule)) := by
  -- The rules of the symbol have the lookahead, and so has the rule that wraps
  -- it.  When the symbol has been read, that rule competes with the item that
  -- brought the lookahead in.
  induction admits with
  | goal =>
      intro circular
      obtain ⟨outer, wraps, -⟩ := Relation.TransGen.head'_iff.mp circular
      apply wraps.ne_goal unused
      rw [← wellFormed.left_goalRule]
      rfl
  | @generated word item nonterminal rule terminal valid scanned member begins =>
      intro circular
      rw [(Grammar.mem_rulesOf.mp member).2] at circular
      obtain ⟨outer, -, -, outerAdmits, outerScanned, outerVanishes⟩ :=
        Grammar.Circular.exists_outer circular fun other isRule =>
          .generated valid scanned isRule begins
      obtain ⟨number, leads, has⟩ := exists_leads_advance wellFormed unused
        exact faithful outerAdmits outerScanned
      have present := (faithful.framed.mem_items wellFormed unused leads).mpr
        (.advance valid scanned)
      refine not_begins wellFormed unused endUnused exact faithful decides
        leads has ?_ (Nat.succ_pos _) present ?_
      · rw [Item.rest_advance]
        exact outerVanishes
      · rw [Item.rest_advance]
        exact begins
  | @inherited word item nonterminal rule terminal admits scanned member
      vanishes ih =>
      intro circular
      rw [(Grammar.mem_rulesOf.mp member).2] at circular
      obtain ⟨outer, isStart, again, outerAdmits, outerScanned,
        outerVanishes⟩ := Grammar.Circular.exists_outer circular
          fun other isRule => .inherited admits scanned isRule vanishes
      obtain ⟨number, leads, has⟩ := exists_leads_advance wellFormed unused
        exact faithful outerAdmits outerScanned
      have hasItem := faithful.saturated.hasContext wellFormed unused exact
        faithful.framed leads (.advance admits scanned)
      have same : item.advance = outer.advance := by
        apply item_unique wellFormed unused endUnused exact faithful decides
          leads hasItem has
        · rw [Item.rest_advance]
          exact vanishes
        · rw [Item.rest_advance]
          exact outerVanishes
        · exact Nat.succ_pos _
        · exact Nat.succ_pos _
      cases Item.advance_injective same
      exact ih isStart again
  | advance => cases start

include wellFormed unused endUnused exact faithful decides in
/-- The first symbol of a rule is replaced by one that wraps it, if the rest of
the rule vanishes. -/
theorem falls_of_single {word : List Symbol} {top terminal : Nat} {item : Item}
    (leads : automaton.Leads word top)
    (has : (automaton.state top).HasContext item terminal)
    (vanishes : grammar.Vanishes (item.rest grammar)) (single : item.dot = 1)
    (front : List Symbol) (left : List Nat) :
    grammar.Falls
      { above := front ++ [.nonterminal (grammar.left item.rule)], left }
      { above := front ++ (grammar.right item.rule).take item.dot, left } := by
  have framed := faithful.framed
  have valid := (framed.mem_items wellFormed unused leads).mp has.mem_items
  have bound := valid.dot_le
  obtain ⟨rule, dot⟩ := item
  dsimp only at single bound
  subst single
  obtain ⟨inner, rest, right⟩ := List.exists_cons_of_length_pos bound
  have isRest : ({ rule, dot := 1 } : Item).rest grammar = rest := by
    rw [Item.rest, right]
    rfl
  rw [isRest] at vanishes
  have wraps : grammar.Wraps inner (.nonterminal (grammar.left rule)) :=
    ⟨rule, valid.rule_lt wellFormed, rest, rfl, right, vanishes⟩
  have isInner : (grammar.right rule).take 1 = [inner] := by
    rw [right]
    rfl
  rw [isInner]
  refine .wrapped wraps ?_
  obtain ⟨other, -, admits⟩ := (faithful.evident top
    (framed.lt_size leads)).attested.context _ terminal has
  generalize isItem : ({ rule, dot := 1 } : Item) = item at admits
  cases admits with
  | goal => cases isItem
  | generated => cases isItem
  | inherited => cases isItem
  | advance earlier _ =>
      have same : ({ rule, dot := 0 } : Item).advance = _ := isItem
      cases Item.advance_injective same
      have straight := not_circular wellFormed unused endUnused exact faithful
        decides earlier
      exact straight rfl

/-- Nothing is shifted or reduced at the point. -/
def Rests (grammar : Grammar) (automaton : Automaton) (table : Table)
    (point : Point) : Prop :=
  ∀ next, ¬ table.Proceeds grammar automaton [] point next

section Rounds

variable {point : Point}

include wellFormed unused endUnused exact faithful decides in
/-- When the rest of a kernel item vanishes, the stack falls. -/
theorem falls_of_kernel {top : Nat} {item : Item}
    (leads : automaton.Leads point.above top)
    (core : item ∈ (automaton.state top).coreItems)
    (has : (automaton.state top).HasContext item
      (Grammar.lookahead point.left))
    (vanishes : grammar.Vanishes (item.rest grammar)) :
    ∃ next, table.Reads grammar automaton [] point next ∧
      (grammar.Falls next point ∨ Rests grammar automaton table next) := by
  have framed := faithful.framed
  have reads := reads_vanishing wellFormed unused endUnused exact faithful
    decides leads has vanishes
  have lowered : table.Reads grammar automaton [] point
      { above := point.above ++ item.rest grammar, left := point.left } := by
    rw [← List.nil_append point.above] at reads
    have all := reads.lower
    rwa [List.append_nil] at all
  obtain ⟨last, lastLeads, cell⟩ :=
    cell_of_hasContext wellFormed unused faithful decides leads has
  by_cases isGoal : item.rule = goalRule
  · refine ⟨_, lowered, Or.inr ?_⟩
    rw [Action.atEnd, if_pos isGoal] at cell
    intro next proceeds
    cases proceeds with
    | shift leads' split cell' =>
        cases leads'.unique lastLeads
        dsimp only at split
        rw [split] at cell
        cases cell.symm.trans cell'
    | reduce leads' _ _ cell' =>
        cases leads'.unique lastLeads
        cases cell.symm.trans cell'
  · rw [Action.atEnd, if_neg isGoal] at cell
    have valid := (framed.mem_items wellFormed unused leads).mp has.mem_items
    have bound := valid.dot_le
    have moved : 0 < item.dot := by
      have inKernel := ((framed.regular top
        (framed.lt_size leads)).mem_coreItems.mp core).2
      exact inKernel.resolve_left fun same => isGoal (congrArg Item.rule same)
    obtain ⟨front, isFront, -⟩ := valid.exists_front
    have whole : point.above ++ item.rest grammar =
        front ++ grammar.right item.rule := by
      rw [isFront, List.append_assoc]
      exact congrArg (front ++ ·) (List.take_append_drop _ _)
    have isTerminal := lt_of_hasContext wellFormed faithful leads has
    refine ⟨_, lowered.tail (.reduce lastLeads whole isTerminal cell),
      Or.inl ?_⟩
    obtain ⟨above, left⟩ := point
    dsimp only at isFront has ⊢
    subst isFront
    by_cases single : item.dot = 1
    · exact falls_of_single wellFormed unused endUnused exact faithful decides
        leads has vanishes single front left
    · apply Grammar.Falls.lower
      simp only [List.length_append, List.length_take, List.length_singleton]
      omega

include wellFormed unused endUnused exact faithful decides in
/-- When the lookahead begins the rest of an item, it is shifted. -/
theorem falls_of_begins {top : Nat} {item : Item}
    (leads : automaton.Leads point.above top)
    (present : item ∈ (automaton.state top).items)
    (begins : grammar.Begins (item.rest grammar)
      (Grammar.lookahead point.left)) :
    ∃ next, table.Reads grammar automaton [] point next ∧
      (grammar.Falls next point ∨ Rests grammar automaton table next) := by
  obtain ⟨above, left⟩ := point
  cases left with
  | nil => exact absurd begins (Grammar.not_begins_endOfInput endUnused item)
  | cons token left =>
      obtain ⟨more, derives⟩ := begins
      have isRest : item.rest grammar = item.rest grammar ++ [] :=
        (List.append_nil _).symm
      obtain ⟨further, reads⟩ := @reads_first grammar first automaton table
        wellFormed unused endUnused exact faithful decides _ _
        (Grammar.expands_iff_derives.mpr derives) above [] more top item
        [token] left rfl leads present isRest
      rw [← List.nil_append above] at reads
      have all := reads.lower
      rw [List.append_nil] at all
      exact ⟨_, all, Or.inl (.consumed (Nat.lt_succ_self _))⟩

include wellFormed unused endUnused exact faithful decides in
/-- Sooner or later a parser comes to rest or its point falls. -/
theorem exists_falls (point : Point) :
    ∃ next, table.Reads grammar automaton [] point next ∧
      (grammar.Falls next point ∨ Rests grammar automaton table next) := by
  have represents := decides.represents
  have framed := faithful.framed
  by_cases goes : ∃ next, table.Proceeds grammar automaton [] point next
  · obtain ⟨next, proceeds⟩ := goes
    cases proceeds with
    | shift leads split cell =>
        refine ⟨_, .single (.shift leads split cell), Or.inl (.consumed ?_)⟩
        rw [split]
        exact Nat.lt_succ_self _
    | @reduce top rule front leads split isTerminal cell =>
        obtain ⟨item, has, final, -, -⟩ :=
          (represents.reflects.justified _ top leads).reduce _ rule cell
        have snug := (faithful.evident top (framed.lt_size leads)).snug
        have empty : grammar.Vanishes (item.rest grammar) := by
          rw [List.isEmpty_iff.mp final]
          exact .nil
        rcases (snug item _ has).begins_or_vanishes empty with
          ⟨source, spreads, begins⟩ | ⟨source, core, inContext, vanishes⟩
        · exact falls_of_begins wellFormed unused endUnused exact faithful
            decides leads ((framed.closed top
              (framed.lt_size leads)).mem_items
                (fun _ => State.coreItems_subset) spreads) begins
        · exact falls_of_kernel wellFormed unused endUnused exact faithful
            decides leads core inContext vanishes
  · exact ⟨point, .refl, Or.inr (not_exists.mp goes)⟩

include wellFormed unused endUnused exact faithful decides in
/-- From every point a parser comes to rest. -/
theorem exists_rests (point : Point) :
    ∃ last, table.Reads grammar automaton [] point last ∧
      Rests grammar automaton table last := by
  induction point using grammar.wellFounded_falls.induction with
  | _ point ih =>
      obtain ⟨next, reads, falls | rests⟩ := exists_falls wellFormed unused
        endUnused exact faithful decides point
      · obtain ⟨last, further, rests⟩ := ih next falls
        exact ⟨last, reads.trans further, rests⟩
      · exact ⟨next, reads, rests⟩

end Rounds

end Table

end LRTables
