import LRTables.Automaton.Item
import LRTables.Proofs.Admission
import LRTables.Proofs.Derivation
import Mathlib.Data.List.Induction

/-!
# Valid items

An item is valid for a word of symbols when the start of every parse leads to
it along the word.  A terminal is admitted with a valid item when it may follow
once the rule of the item has been read to its end.  The items whose dot has
moved form the kernel of a word, and all else follows from it by closure.
-/

namespace LRTables

namespace Item

variable {grammar : Grammar} {item : Item} {symbol : Symbol}

theorem rest_of_scanned (scanned : item.scanned grammar = some symbol) :
    item.rest grammar = symbol :: item.tail grammar := by
  unfold Item.scanned at scanned
  unfold tail
  cases equal : item.rest grammar with
  | nil =>
      rw [equal] at scanned
      cases scanned
  | cons head rest =>
      rw [equal] at scanned
      cases scanned
      rfl

theorem scanned_of_rest {tail : List Symbol}
    (rest : item.rest grammar = symbol :: tail) :
    item.scanned grammar = some symbol ∧ item.tail grammar = tail := by
  simp [scanned, Item.tail, rest]

theorem rest_advance : item.advance.rest grammar = item.tail grammar := by
  simp [advance, rest, tail, List.tail_drop]

theorem right_of_scanned (scanned : item.scanned grammar = some symbol) :
    (grammar.right item.rule)[item.dot]? = some symbol := by
  rw [Item.scanned, rest, List.head?_drop] at scanned
  exact scanned

theorem scanned_mem_right (scanned : item.scanned grammar = some symbol) :
    symbol ∈ grammar.right item.rule :=
  List.mem_of_getElem? (right_of_scanned scanned)

theorem tail_subset_right :
    ∀ other ∈ item.tail grammar, other ∈ grammar.right item.rule := by
  intro other member
  exact List.mem_of_mem_drop (List.mem_of_mem_tail member)

theorem scanned_of_right {front back : List Symbol}
    (right : grammar.right item.rule = front ++ symbol :: back)
    (dot : item.dot = front.length) :
    item.scanned grammar = some symbol ∧ item.tail grammar = back := by
  apply scanned_of_rest
  rw [rest, right, dot, List.drop_left]

theorem scanned_of_dot {rule : Nat} {front back : List Symbol}
    (right : grammar.right rule = front ++ symbol :: back) :
    ({ rule, dot := front.length } : Item).scanned grammar = some symbol ∧
      ({ rule, dot := front.length } : Item).tail grammar = back :=
  scanned_of_right right rfl

/-- The item is the goal, or its dot has moved. -/
def InKernel (item : Item) : Prop :=
  item = .goal ∨ 0 < item.dot

instance : Decidable item.InKernel :=
  inferInstanceAs (Decidable (_ ∨ _))

theorem inKernel_advance (item : Item) : item.advance.InKernel :=
  Or.inr (Nat.succ_pos item.dot)

theorem advance_injective {first second : Item}
    (equal : first.advance = second.advance) : first = second := by
  cases first
  cases second
  simpa [advance] using equal

end Item

namespace Grammar

variable {grammar : Grammar}

theorem declares_tail (wellFormed : grammar.WellFormed) (item : Item) :
    ∀ symbol ∈ item.tail grammar, grammar.Declares symbol := fun symbol member =>
  wellFormed.right_declared item.rule symbol (item.tail_subset_right symbol member)

/-- The item is valid for the word. -/
inductive Valid (grammar : Grammar) : List Symbol → Item → Prop where
  | goal : Valid grammar [] .goal
  | closure {word : List Symbol} {item : Item} {nonterminal rule : Nat} :
      Valid grammar word item →
      item.scanned grammar = some (.nonterminal nonterminal) →
      rule ∈ grammar.rulesOf nonterminal →
      Valid grammar word { rule, dot := 0 }
  | advance {word : List Symbol} {item : Item} {symbol : Symbol} :
      Valid grammar word item →
      item.scanned grammar = some symbol →
      Valid grammar (word ++ [symbol]) item.advance

/-- The terminal is admitted with the item after the word: it is generated by
the tail of a valid item, or inherited over a tail that can vanish. -/
inductive Admits (grammar : Grammar) :
    List Symbol → Item → Nat → Prop where
  | goal : Admits grammar [] .goal Terminal.endOfInput
  | generated {word : List Symbol} {item : Item}
      {nonterminal rule terminal : Nat} :
      Valid grammar word item →
      item.scanned grammar = some (.nonterminal nonterminal) →
      rule ∈ grammar.rulesOf nonterminal →
      grammar.Begins (item.tail grammar) terminal →
      Admits grammar word { rule, dot := 0 } terminal
  | inherited {word : List Symbol} {item : Item}
      {nonterminal rule terminal : Nat} :
      Admits grammar word item terminal →
      item.scanned grammar = some (.nonterminal nonterminal) →
      rule ∈ grammar.rulesOf nonterminal →
      grammar.Vanishes (item.tail grammar) →
      Admits grammar word { rule, dot := 0 } terminal
  | advance {word : List Symbol} {item : Item} {symbol : Symbol}
      {terminal : Nat} :
      Admits grammar word item terminal →
      item.scanned grammar = some symbol →
      Admits grammar (word ++ [symbol]) item.advance terminal

/-- The item belongs to the kernel of the word. -/
def Kernel (grammar : Grammar) (word : List Symbol) (item : Item) : Prop :=
  grammar.Valid word item ∧ item.InKernel

/-- The item results from kernel items by closure. -/
inductive Spreads (grammar : Grammar) (kernel : Item → Prop) :
    Item → Prop where
  | kernel {item : Item} : kernel item → Spreads grammar kernel item
  | closure {item : Item} {nonterminal rule : Nat} :
      Spreads grammar kernel item →
      item.scanned grammar = some (.nonterminal nonterminal) →
      rule ∈ grammar.rulesOf nonterminal →
      Spreads grammar kernel { rule, dot := 0 }

/-- The terminal reaches the item from the contexts of the kernel items, or
from the tail of some item, by closure. -/
inductive Carries (grammar : Grammar) (kernel : Item → Prop)
    (context : Item → Nat → Prop) : Item → Nat → Prop where
  | kernel {item : Item} {terminal : Nat} :
      kernel item → context item terminal →
      Carries grammar kernel context item terminal
  | generated {item : Item} {nonterminal rule terminal : Nat} :
      grammar.Spreads kernel item →
      item.scanned grammar = some (.nonterminal nonterminal) →
      rule ∈ grammar.rulesOf nonterminal →
      grammar.Begins (item.tail grammar) terminal →
      Carries grammar kernel context { rule, dot := 0 } terminal
  | inherited {item : Item} {nonterminal rule terminal : Nat} :
      Carries grammar kernel context item terminal →
      item.scanned grammar = some (.nonterminal nonterminal) →
      rule ∈ grammar.rulesOf nonterminal →
      grammar.Vanishes (item.tail grammar) →
      Carries grammar kernel context { rule, dot := 0 } terminal

theorem Admits.valid {word : List Symbol} {item : Item} {terminal : Nat}
    (admits : grammar.Admits word item terminal) :
    grammar.Valid word item := by
  induction admits with
  | goal => exact .goal
  | generated valid scanned member _ => exact .closure valid scanned member
  | inherited _ scanned member _ ih => exact .closure ih scanned member
  | advance _ scanned ih => exact .advance ih scanned

theorem Valid.exists_front {word : List Symbol} {item : Item}
    (valid : grammar.Valid word item) :
    ∃ front, word = front ++ (grammar.right item.rule).take item.dot ∧
      grammar.Valid front { rule := item.rule, dot := 0 } := by
  induction valid with
  | goal => exact ⟨[], rfl, .goal⟩
  | @closure word item nonterminal rule valid scanned member _ =>
      exact ⟨word, by simp, .closure valid scanned member⟩
  | @advance word item symbol _ scanned ih =>
      obtain ⟨front, rfl, start⟩ := ih
      refine ⟨front, ?_, start⟩
      rw [Item.advance, List.append_assoc, List.take_add_one,
        Item.right_of_scanned scanned]
      rfl

theorem Valid.rule_lt {word : List Symbol} {item : Item}
    (wellFormed : grammar.WellFormed) (valid : grammar.Valid word item) :
    item.rule < grammar.rules.size := by
  induction valid with
  | goal => exact wellFormed.hasGoalRule
  | closure _ _ member _ => exact (mem_rulesOf.mp member).1
  | advance _ _ ih => exact ih

theorem Valid.dot_le {word : List Symbol} {item : Item}
    (valid : grammar.Valid word item) :
    item.dot ≤ (grammar.right item.rule).length := by
  induction valid with
  | goal => exact Nat.zero_le _
  | closure => exact Nat.zero_le _
  | advance _ scanned _ =>
      exact (List.getElem?_eq_some_iff.mp (Item.right_of_scanned scanned)).1

theorem Valid.parent {word : List Symbol} {rule : Nat}
    (valid : grammar.Valid word { rule, dot := 0 }) :
    (word = [] ∧ rule = goalRule) ∨
      ∃ parent, grammar.Valid word parent ∧
        parent.scanned grammar = some (.nonterminal (grammar.left rule)) := by
  generalize equal : ({ rule, dot := 0 } : Item) = item at valid
  cases valid with
  | goal =>
      cases equal
      exact Or.inl ⟨rfl, rfl⟩
  | closure valid scanned member =>
      cases equal
      obtain ⟨-, rfl⟩ := mem_rulesOf.mp member
      exact Or.inr ⟨_, valid, scanned⟩
  | advance => cases equal

theorem scanned_ne_goalSymbol (unused : grammar.GoalUnused) {item : Item}
    {nonterminal : Nat}
    (scanned : item.scanned grammar = some (.nonterminal nonterminal)) :
    nonterminal ≠ goalSymbol := by
  rintro rfl
  exact unused.not_mem_right item.rule (Item.scanned_mem_right scanned)

theorem rule_ne_goalRule (wellFormed : grammar.WellFormed)
    (unused : grammar.GoalUnused) {item : Item} {nonterminal rule : Nat}
    (scanned : item.scanned grammar = some (.nonterminal nonterminal))
    (member : rule ∈ grammar.rulesOf nonterminal) : rule ≠ goalRule := by
  rintro rfl
  apply scanned_ne_goalSymbol unused scanned
  rw [← (mem_rulesOf.mp member).2, wellFormed.left_goalRule]

theorem not_inKernel_closure (wellFormed : grammar.WellFormed)
    (unused : grammar.GoalUnused) {item : Item} {nonterminal rule : Nat}
    (scanned : item.scanned grammar = some (.nonterminal nonterminal))
    (member : rule ∈ grammar.rulesOf nonterminal) :
    ¬ Item.InKernel { rule, dot := 0 } := by
  rintro (equal | moved)
  · exact rule_ne_goalRule wellFormed unused scanned member
      (congrArg Item.rule equal)
  · exact Nat.lt_irrefl 0 moved

theorem Valid.eq_nil_of_goal (wellFormed : grammar.WellFormed)
    (unused : grammar.GoalUnused) {word : List Symbol}
    (valid : grammar.Valid word .goal) : word = [] := by
  rcases valid.parent with ⟨empty, -⟩ | ⟨parent, -, scanned⟩
  · exact empty
  · exact absurd wellFormed.left_goalRule
      (scanned_ne_goalSymbol unused scanned)

theorem Valid.eq_start (wellFormed : grammar.WellFormed)
    (unused : grammar.GoalUnused) {word : List Symbol} {item : Item}
    (valid : grammar.Valid word item) (rule : item.rule = goalRule)
    (final : item.isFinal grammar = true) :
    word = [.nonterminal grammar.start] := by
  obtain ⟨front, split, start⟩ := valid.exists_front
  have bound := valid.dot_le
  rw [rule] at split start bound
  rw [Item.isFinal, Item.rest, rule, List.isEmpty_iff,
    List.drop_eq_nil_iff] at final
  rw [start.eq_nil_of_goal wellFormed unused, List.nil_append,
    List.take_of_length_le final, wellFormed.right_goalRule] at split
  exact split

theorem Spreads.mono {kernel more : Item → Prop}
    (subset : ∀ item, kernel item → more item) {item : Item}
    (spreads : grammar.Spreads kernel item) : grammar.Spreads more item := by
  induction spreads with
  | kernel member => exact .kernel (subset _ member)
  | closure _ scanned member ih => exact .closure ih scanned member

theorem valid_iff_spreads {word : List Symbol} {item : Item} :
    grammar.Valid word item ↔ grammar.Spreads (grammar.Kernel word) item := by
  constructor
  · intro valid
    induction valid with
    | goal => exact .kernel ⟨.goal, Or.inl rfl⟩
    | closure _ scanned member ih => exact .closure ih scanned member
    | advance valid scanned _ =>
        exact .kernel ⟨.advance valid scanned, Item.inKernel_advance _⟩
  · intro spreads
    induction spreads with
    | kernel member => exact member.1
    | closure _ scanned member ih => exact .closure ih scanned member

theorem admits_iff_carries {word : List Symbol} {item : Item}
    {terminal : Nat} :
    grammar.Admits word item terminal ↔
      grammar.Carries (grammar.Kernel word) (grammar.Admits word) item
        terminal := by
  constructor
  · intro admits
    induction admits with
    | goal => exact .kernel ⟨.goal, Or.inl rfl⟩ .goal
    | generated valid scanned member begins =>
        exact .generated (valid_iff_spreads.mp valid) scanned member begins
    | inherited _ scanned member vanishes ih =>
        exact .inherited ih scanned member vanishes
    | advance admits scanned _ =>
        exact .kernel
          ⟨.advance admits.valid scanned, Item.inKernel_advance _⟩
          (.advance admits scanned)
  · intro carries
    induction carries with
    | kernel _ admits => exact admits
    | generated spreads scanned member begins =>
        exact .generated (valid_iff_spreads.mpr spreads) scanned member begins
    | inherited _ scanned member vanishes ih =>
        exact .inherited ih scanned member vanishes

theorem Spreads.exists_kernel {kernel : Item → Prop} {item : Item}
    (spreads : grammar.Spreads kernel item) : ∃ source, kernel source := by
  induction spreads with
  | @kernel item member => exact ⟨item, member⟩
  | closure _ _ _ ih => exact ih

theorem Valid.exists_kernel {word : List Symbol} {item : Item}
    (valid : grammar.Valid word item) :
    ∃ source, grammar.Kernel word source :=
  (valid_iff_spreads.mp valid).exists_kernel

theorem Carries.spreads {kernel : Item → Prop} {context : Item → Nat → Prop}
    {item : Item} {terminal : Nat}
    (carries : grammar.Carries kernel context item terminal) :
    grammar.Spreads kernel item := by
  induction carries with
  | kernel member _ => exact .kernel member
  | generated spreads scanned member _ =>
      exact .closure spreads scanned member
  | inherited _ scanned member _ ih => exact .closure ih scanned member

theorem Carries.mono {kernel : Item → Prop} {context more : Item → Nat → Prop}
    (subset : ∀ item, kernel item → ∀ terminal,
      context item terminal → more item terminal)
    {item : Item} {terminal : Nat}
    (carries : grammar.Carries kernel context item terminal) :
    grammar.Carries kernel more item terminal := by
  induction carries with
  | kernel member inContext =>
      exact .kernel member (subset _ member _ inContext)
  | generated spreads scanned member begins =>
      exact .generated spreads scanned member begins
  | inherited _ scanned member vanishes ih =>
      exact .inherited ih scanned member vanishes

/-- The first item waits for the rule of the second one and hands all its
lookaheads on to it. -/
inductive Hands (grammar : Grammar) : Item → Item → Prop where
  | intro {item : Item} {nonterminal rule : Nat} :
      item.scanned grammar = some (.nonterminal nonterminal) →
      rule ∈ grammar.rulesOf nonterminal →
      grammar.Vanishes (item.tail grammar) →
      Hands grammar item { rule, dot := 0 }

theorem Admits.handed {word : List Symbol} {item other : Item} {terminal : Nat}
    (admits : grammar.Admits word item terminal)
    (hands : Relation.ReflTransGen grammar.Hands item other) :
    grammar.Admits word other terminal := by
  induction hands with
  | refl => exact admits
  | tail _ step ih =>
      cases step with
      | intro scanned member vanishes =>
          exact .inherited ih scanned member vanishes

/-- A terminal of an item is generated by the grammar alone, or handed on from
one kernel item. -/
theorem Carries.origin {kernel : Item → Prop} {context : Item → Nat → Prop}
    {item : Item} {terminal : Nat}
    (carries : grammar.Carries kernel context item terminal) :
    (∀ other : Item → Nat → Prop,
        grammar.Carries kernel other item terminal) ∨
      ∃ source, kernel source ∧ context source terminal ∧
        Relation.ReflTransGen grammar.Hands source item := by
  induction carries with
  | @kernel item terminal member inContext =>
      exact Or.inr ⟨item, member, inContext, .refl⟩
  | generated spreads scanned member begins =>
      exact Or.inl fun other => .generated spreads scanned member begins
  | inherited _ scanned member vanishes ih =>
      rcases ih with always | ⟨source, sourceMember, inContext, hands⟩
      · exact Or.inl fun other =>
          .inherited (always other) scanned member vanishes
      · exact Or.inr ⟨source, sourceMember, inContext,
          hands.tail (.intro scanned member vanishes)⟩

theorem kernel_nil {item : Item} :
    grammar.Kernel [] item ↔ item = .goal := by
  constructor
  · rintro ⟨valid, inKernel⟩
    rcases inKernel with goal | moved
    · exact goal
    · obtain ⟨front, split, start⟩ := valid.exists_front
      obtain ⟨-, taken⟩ := List.append_eq_nil_iff.mp split.symm
      have bound := valid.dot_le
      rw [List.take_eq_nil_iff] at taken
      rcases taken with zero | empty
      · omega
      · rw [empty] at bound
        simp only [List.length_nil] at bound
        omega
  · rintro rfl
    exact ⟨.goal, Or.inl rfl⟩

theorem kernel_append (wellFormed : grammar.WellFormed)
    (unused : grammar.GoalUnused) {word : List Symbol} {symbol : Symbol}
    {item : Item} :
    grammar.Kernel (word ++ [symbol]) item ↔
      ∃ origin, grammar.Valid word origin ∧
        origin.scanned grammar = some symbol ∧ item = origin.advance := by
  constructor
  · rintro ⟨valid, inKernel⟩
    generalize equal : word ++ [symbol] = longer at valid
    cases valid with
    | goal => simp at equal
    | closure _ scanned member =>
        exact absurd inKernel
          (not_inKernel_closure wellFormed unused scanned member)
    | @advance _ origin _ valid scanned =>
        obtain ⟨rfl, same⟩ := List.append_inj' equal rfl
        cases same
        exact ⟨origin, valid, scanned, rfl⟩
  · rintro ⟨origin, valid, scanned, rfl⟩
    exact ⟨.advance valid scanned, Item.inKernel_advance origin⟩

theorem admits_append {word : List Symbol} {symbol : Symbol}
    {origin : Item} {terminal : Nat} :
    grammar.Admits (word ++ [symbol]) origin.advance terminal ↔
      grammar.Admits word origin terminal ∧
        origin.scanned grammar = some symbol := by
  constructor
  · intro admits
    generalize sameWord : word ++ [symbol] = longer at admits
    generalize sameItem : origin.advance = item at admits
    cases admits with
    | goal => simp at sameWord
    | generated => cases sameItem
    | inherited => cases sameItem
    | advance admits scanned =>
        obtain ⟨rfl, same⟩ := List.append_inj' sameWord rfl
        cases same
        rw [Item.advance_injective sameItem]
        exact ⟨admits, scanned⟩
  · rintro ⟨admits, scanned⟩
    exact .advance admits scanned

theorem Admits.eq_endOfInput (wellFormed : grammar.WellFormed)
    (unused : grammar.GoalUnused) {word : List Symbol} {item : Item}
    {terminal : Nat} (admits : grammar.Admits word item terminal)
    (rule : item.rule = goalRule) : terminal = Terminal.endOfInput := by
  induction admits with
  | goal => rfl
  | generated _ scanned member =>
      exact absurd rule (rule_ne_goalRule wellFormed unused scanned member)
  | inherited _ scanned member =>
      exact absurd rule (rule_ne_goalRule wellFormed unused scanned member)
  | advance _ _ ih => exact ih rule

theorem admits_start (wellFormed : grammar.WellFormed) :
    grammar.Admits [.nonterminal grammar.start] Item.goal.advance
      Terminal.endOfInput := by
  have rest : Item.goal.rest grammar = [.nonterminal grammar.start] :=
    wellFormed.right_goalRule
  exact .advance .goal (Item.scanned_of_rest rest).1

theorem Admits.advanceOver {word : List Symbol} {rule terminal : Nat}
    (admits : grammar.Admits word { rule, dot := 0 } terminal)
    (front : List Symbol) {back : List Symbol}
    (right : grammar.right rule = front ++ back) :
    grammar.Admits (word ++ front) { rule, dot := front.length } terminal := by
  induction front using List.reverseRecOn generalizing back with
  | nil => simpa using admits
  | append_singleton front symbol ih =>
      have split : grammar.right rule = front ++ symbol :: back := by
        simpa using right
      have before := ih split
      have scanned := Item.scanned_of_dot split
      have after := before.advance scanned.1
      simpa [Item.advance] using after

/-- Whatever can follow a nonterminal of the form is admitted with the rules of
that nonterminal. -/
def Announces (grammar : Grammar) (form : List Symbol) : Prop :=
  ∀ before nonterminal after, form = before ++ .nonterminal nonterminal :: after →
    ∀ terminal,
      grammar.Begins (after ++ [.terminal Terminal.endOfInput]) terminal →
      ∀ rule ∈ grammar.rulesOf nonterminal,
        grammar.Admits before { rule, dot := 0 } terminal

theorem announces_start (wellFormed : grammar.WellFormed) :
    grammar.Announces [.nonterminal grammar.start] := by
  intro before nonterminal after equal terminal begins rule member
  cases before with
  | cons symbol before => simp at equal
  | nil =>
      cases equal
      have same := begins_terminal.mp begins
      subst same
      have scanned : Item.goal.scanned grammar =
            some (.nonterminal grammar.start) ∧
          Item.goal.tail grammar = [] :=
        Item.scanned_of_rest wellFormed.right_goalRule
      refine .inherited .goal scanned.1 member ?_
      rw [scanned.2]
      exact .nil

/-- The lookahead in front of the tokens that are left. -/
def lookahead (tokens : List Nat) : Nat :=
  tokens.headD Terminal.endOfInput

theorem begins_tokens {tokens : List Nat} {terminal : Nat} :
    grammar.Begins
        (tokens.map .terminal ++ [.terminal Terminal.endOfInput]) terminal ↔
      terminal = lookahead tokens := by
  cases tokens with
  | nil => exact begins_terminal
  | cons token rest => exact begins_terminal

/-- What follows a nonterminal on the right-hand side of a rule is admitted
once the rule has been applied. -/
theorem Announces.inside {before front back : List Symbol}
    {rule nonterminal : Nat} {tokens : List Nat}
    (valid : rule < grammar.rules.size)
    (announces : grammar.Announces
      (before ++ .nonterminal (grammar.left rule) :: tokens.map .terminal))
    (right : grammar.right rule = front ++ .nonterminal nonterminal :: back)
    {terminal other : Nat}
    (begins : grammar.Begins
      (back ++ tokens.map .terminal ++ [.terminal Terminal.endOfInput])
      terminal)
    (member : other ∈ grammar.rulesOf nonterminal) :
    grammar.Admits (before ++ front) { rule := other, dot := 0 } terminal := by
  have next : grammar.Admits before { rule, dot := 0 } (lookahead tokens) :=
    announces before _ _ rfl _ (begins_tokens.mpr rfl) rule
      (mem_rulesOf.mpr ⟨valid, rfl⟩)
  have moved := next.advanceOver front right
  have scanned := Item.scanned_of_dot right
  rw [List.append_assoc, begins_append] at begins
  rcases begins with own | ⟨vanishes, later⟩
  · refine .generated moved.valid scanned.1 member ?_
    rw [scanned.2]
    exact own
  · rw [begins_tokens.mp later]
    refine .inherited moved scanned.1 member ?_
    rw [scanned.2]
    exact vanishes

theorem not_mem_tokens (nonterminal : Nat) (tokens : List Nat) :
    Symbol.nonterminal nonterminal ∉ tokens.map Symbol.terminal := by
  simp

theorem Announces.step {before : List Symbol} {rule : Nat}
    {tokens : List Nat} (valid : rule < grammar.rules.size)
    (announces : grammar.Announces
      (before ++ .nonterminal (grammar.left rule) :: tokens.map .terminal)) :
    grammar.Announces
      (before ++ grammar.right rule ++ tokens.map .terminal) := by
  intro front nonterminal after equal terminal begins other member
  rw [List.append_assoc] at equal
  have insideFront : ∀ start, front = before ++ start →
      grammar.right rule ++ tokens.map .terminal =
        start ++ .nonterminal nonterminal :: after →
      grammar.Admits front { rule := other, dot := 0 } terminal := by
    rintro start rfl split
    rcases List.append_eq_append_iff.mp split with
      ⟨inner, -, rest⟩ | ⟨inner, right, rest⟩
    · refine absurd ?_ (not_mem_tokens nonterminal tokens)
      rw [rest]
      exact List.mem_append_right _ List.mem_cons_self
    · cases inner with
      | nil =>
          refine absurd ?_ (not_mem_tokens nonterminal tokens)
          rw [List.nil_append] at rest
          exact rest ▸ List.mem_cons_self
      | cons symbol inner =>
          rw [List.cons_append, List.cons.injEq] at rest
          obtain ⟨rfl, rfl⟩ := rest
          exact announces.inside valid right begins member
  rcases List.append_eq_append_iff.mp equal with
    ⟨middle, same, split⟩ | ⟨middle, rfl, split⟩
  · exact insideFront middle same split
  · cases middle with
    | nil => exact insideFront [] (by simp) split.symm
    | cons symbol middle =>
        rw [List.cons_append, List.cons.injEq] at split
        obtain ⟨rfl, rfl⟩ := split
        refine announces front nonterminal
          (middle ++ .nonterminal (grammar.left rule) :: tokens.map .terminal)
          (by simp) terminal ?_ other member
        refine begins.of_derives ?_
        have step := (Derives.single valid).within middle
          (tokens.map .terminal ++ [.terminal Terminal.endOfInput])
        simpa [List.append_assoc] using step

end Grammar

end LRTables
