import LRTables.Automaton.Collection
import LRTables.Lane.Region
import LRTables.Lane.Tracing
import LRTables.Proofs.Collections
import LRTables.Proofs.Copies
import LRTables.Proofs.Remakes

/-!
# Proper automata

In a proper automaton every item belongs to a rule of the grammar, every
lookahead is a terminal of the grammar, and every transition leads to an
existing state other than the start state, along a symbol that some rule holds,
and along no symbol twice.  Whatever the grammar looks like, collecting states
and tracing lanes yields proper automata.
-/

namespace LRTables

/-- The rule of the item exists, and the lookaheads are terminals. -/
def Configuration.Proper (grammar : Grammar)
    (configuration : Configuration) : Prop :=
  configuration.item.rule < grammar.rules.size ∧
    ∀ terminal ∈ configuration.context, terminal < grammar.terminals.size

namespace State

variable {grammar : Grammar} {first : FirstSets} {contexts : Bool}
  {state : State}

def Proper (grammar : Grammar) (state : State) : Prop :=
  ∀ configuration ∈ state.configurations, configuration.Proper grammar

theorem proper_iff_within :
    state.Proper grammar ↔
      state.Within (·.rule < grammar.rules.size)
        fun _ terminal => terminal < grammar.terminals.size := by
  constructor
  · intro proper index inside
    exact proper _ (mem_configurations.mpr ⟨index, inside, rfl⟩)
  · intro within configuration member
    obtain ⟨index, inside, rfl⟩ := mem_configurations.mp member
    exact within index inside

theorem Proper.configuration (proper : state.Proper grammar)
    {index : Nat} (inside : index < state.configurations.size) :
    (state.configuration index).Proper grammar :=
  proper _ (mem_configurations.mpr ⟨index, inside, rfl⟩)

theorem proper_ofCores {entry : Option Symbol} {cores : List Configuration}
    (each : ∀ configuration ∈ cores, configuration.Proper grammar) :
    (ofCores entry cores).Proper grammar :=
  fun configuration member => each configuration (List.mem_toArray.mp member)

theorem Proper.close (wellFormed : grammar.WellFormed)
    (exact : first.Exact grammar) (proper : state.Proper grammar) :
    (state.close grammar first contexts).1.Proper grammar := by
  rw [proper_iff_within] at proper ⊢
  apply close_within _ proper
  intro item nonterminal tail rule context _ rest listed bounded
  refine ⟨List.mem_range.mp (List.mem_filter.mp listed).1, ?_⟩
  exact (Closing.bounds_lt contexts wellFormed exact (Nat.le_refl _) item
    nonterminal tail rule context trivial rest listed bounded).2

theorem Proper.modify (proper : state.Proper grammar) (index : Nat)
    {change : Configuration → Configuration}
    (keeps : (state.configuration index).Proper grammar →
      (change (state.configuration index)).Proper grammar) :
    (state.modify index change).Proper grammar := by
  intro configuration member
  obtain ⟨other, inside, rfl⟩ := mem_configurations.mp member
  have bound : other < state.configurations.size := by
    simpa [State.modify] using inside
  by_cases same : other = index
  · subst same
    rw [configuration_modify_self bound]
    exact keeps (proper.configuration bound)
  · rw [configuration_modify_ne same]
    exact proper.configuration bound

theorem Proper.mapConfigurations (proper : state.Proper grammar)
    {change : Configuration → Configuration}
    (keeps : ∀ configuration ∈ state.configurations,
      configuration.Proper grammar →
        (change configuration).Proper grammar) :
    (state.mapConfigurations change).Proper grammar := by
  intro configuration member
  obtain ⟨own, listed, rfl⟩ := Array.mem_map.mp member
  exact keeps own listed (proper own listed)

theorem Proper.of_alike {other : State} (proper : state.Proper grammar)
    (alike : state.Alike other) : other.Proper grammar := by
  rw [proper_iff_within] at proper ⊢
  intro index inside
  rw [alike.sameItems.size] at inside
  rw [alike.sameItems.item index inside, alike.context index inside]
  exact proper index inside

theorem Proper.successorCores (proper : state.Proper grammar)
    (contexts : Bool) (symbol : Symbol) :
    ∀ configuration ∈ state.successorCores grammar contexts symbol,
      configuration.Proper grammar := by
  intro configuration member
  obtain ⟨index, inside, -, rfl⟩ := mem_successorCores.mp member
  have own := proper.configuration inside
  refine ⟨own.1, ?_⟩
  intro terminal arrives
  cases contexts with
  | false => exact absurd arrives (TerminalSet.not_mem_empty terminal)
  | true => exact own.2 terminal arrives

theorem Proper.joinContexts (proper : state.Proper grammar)
    {contexts : List TerminalSet}
    (bounded : ∀ context ∈ contexts, ∀ terminal ∈ context,
      terminal < grammar.terminals.size) :
    (state.joinContexts contexts).Proper grammar := by
  intro configuration member
  obtain ⟨index, inside, rfl⟩ := Array.mem_mapIdx.mp member
  have own := proper _ (Array.getElem_mem inside)
  refine ⟨own.1, ?_⟩
  intro terminal joined
  rcases TerminalSet.mem_union.mp joined with old | new
  · exact own.2 terminal old
  · rw [List.getD_eq_getElem?_getD] at new
    cases found : contexts[index]? with
    | none =>
        rw [found] at new
        exact absurd new (TerminalSet.not_mem_empty terminal)
    | some context =>
        rw [found] at new
        exact bounded context (List.mem_of_getElem? found) terminal new

theorem Proper.absorb (wellFormed : grammar.WellFormed)
    (exact : first.Exact grammar) (proper : state.Proper grammar)
    {incoming : List Configuration}
    (each : ∀ configuration ∈ incoming, configuration.Proper grammar) :
    (state.absorb grammar first incoming).1.Proper grammar := by
  unfold State.absorb
  split
  · exact proper
  · apply Proper.close wellFormed exact
    apply proper.joinContexts
    intro context member
    obtain ⟨configuration, listed, rfl⟩ := List.mem_map.mp member
    exact (each configuration listed).2

end State

namespace Ordered

variable {α β : Type} [DecidableEq α]

/-- An entry of an updated map is an old one or the new one. -/
theorem mem_put {entries : List (α × β)} {key : α} {value : β}
    {entry : α × β} (member : entry ∈ put entries key value) :
    entry ∈ entries ∨ entry = (key, value) := by
  rw [put] at member
  induction entries with
  | nil => exact Or.inr (List.mem_singleton.mp member)
  | cons first rest ih =>
      rw [update] at member
      split at member
      · rename_i same
        rcases List.mem_cons.mp member with here | later
        · exact Or.inr (same ▸ here)
        · exact Or.inl (List.mem_cons_of_mem _ later)
      · rcases List.mem_cons.mp member with here | later
        · exact Or.inl (here ▸ List.mem_cons_self)
        · rcases ih later with old | new
          · exact Or.inl (List.mem_cons_of_mem _ old)
          · exact Or.inr new

end Ordered

/-- Some rule has the symbol on its right-hand side. -/
def Grammar.Holds (grammar : Grammar) (symbol : Symbol) : Prop :=
  ∃ rule, symbol ∈ grammar.right rule

namespace Automaton

variable {grammar : Grammar} {first : FirstSets} {automaton : Automaton}

/-- An existing state other than the start state. -/
def IsTarget (automaton : Automaton) (number : Nat) : Prop :=
  Automaton.start < number ∧ number < automaton.size

/-- All items and lookaheads are those of the grammar, and no transition leads
to the start state or out of the automaton.  The same goes for the states that
copies stand for.  The transitions of a state form a map on symbols that rules
hold. -/
structure Proper (grammar : Grammar) (automaton : Automaton) : Prop where
  positive : Automaton.start < automaton.size
  entry : (automaton.state Automaton.start).entry = none
  original : (automaton.state Automaton.start).cloneOf = none
  states : ∀ number, (automaton.state number).Proper grammar
  targets : ∀ number, ∀ edge ∈ (automaton.state number).successors,
    automaton.IsTarget edge.2
  keyed : automaton.Keyed
  held : ∀ number, ∀ edge ∈ (automaton.state number).successors,
    grammar.Holds edge.1
  prototypes : ∀ number prototype,
    (automaton.state number).cloneOf = some prototype →
      automaton.IsTarget prototype

/-- The new state stands where the old one stood, and leads nowhere else. -/
structure Succeeds (old new : State) : Prop where
  entry : new.entry = old.entry
  cloneOf : new.cloneOf = old.cloneOf
  successors : new.successors.Sublist old.successors

namespace Succeeds

variable {old new : State}

theorem refl (state : State) : Succeeds state state :=
  ⟨rfl, rfl, List.Sublist.refl _⟩

theorem trans {later : State} (before : Succeeds old new)
    (after : Succeeds new later) : Succeeds old later :=
  ⟨after.entry.trans before.entry, after.cloneOf.trans before.cloneOf,
    after.successors.trans before.successors⟩

end Succeeds

theorem succeeds_close (contexts : Bool) (state : State) :
    Succeeds state (state.close grammar first contexts).1 := by
  rw [(@State.close_extends grammar first contexts state).frame]
  exact ⟨rfl, rfl, List.Sublist.refl _⟩

theorem succeeds_absorb (state : State) (incoming : List Configuration) :
    Succeeds state (state.absorb grammar first incoming).1 := by
  unfold State.absorb
  split
  · exact .refl state
  · have joined : Succeeds state
        (state.joinContexts (incoming.map Configuration.context)) :=
      ⟨rfl, rfl, List.Sublist.refl _⟩
    exact joined.trans (succeeds_close true _)

/-- A transition of a linked automaton is an old one or the new one. -/
theorem mem_successors_link {source target number : Nat} {symbol : Symbol}
    {edge : Symbol × Nat}
    (member : edge ∈
      ((automaton.link source symbol target).state number).successors) :
    edge ∈ (automaton.state number).successors ∨ edge = (symbol, target) := by
  by_cases same : number = source
  · subst same
    by_cases inside : number < automaton.size
    · rw [successors_link inside, if_pos rfl] at member
      exact Ordered.mem_put member
    · have outside : (automaton.link number symbol target).size ≤ number := by
        rw [size_link]
        exact Nat.le_of_not_lt inside
      rw [state_of_size_le outside] at member
      cases member
  · rw [successors_link_ne same] at member
    exact Or.inl member

theorem keyed_link (keyed : automaton.Keyed) (source : Nat) (symbol : Symbol)
    (target : Nat) : (automaton.link source symbol target).Keyed := by
  by_cases inside : source < automaton.size
  · exact keyed.link inside symbol target
  · intro number
    by_cases same : number = source
    · subst same
      have outside : (automaton.link number symbol target).size ≤ number := by
        rw [size_link]
        exact Nat.le_of_not_lt inside
      rw [state_of_size_le outside]
      exact List.nodup_nil
    · rw [successors_link_ne same]
      exact keyed number

namespace Proper

/-- Every state is replaced by one that succeeds it. -/
theorem replace (proper : automaton.Proper grammar) {other : Automaton}
    (size : other.size = automaton.size)
    (succeeds : ∀ number, Succeeds (automaton.state number)
      (other.state number))
    (states : ∀ number, (other.state number).Proper grammar) :
    other.Proper grammar := by
  have isTarget {number : Nat} (target : automaton.IsTarget number) :
      other.IsTarget number := ⟨target.1, size.symm ▸ target.2⟩
  constructor
  · exact size.symm ▸ proper.positive
  · rw [(succeeds _).entry]
    exact proper.entry
  · rw [(succeeds _).cloneOf]
    exact proper.original
  · exact states
  · intro number edge member
    exact isTarget (proper.targets number edge
      ((succeeds number).successors.subset member))
  · intro number
    exact (proper.keyed number).sublist
      ((succeeds number).successors.map Prod.fst)
  · intro number edge member
    exact proper.held number edge
      ((succeeds number).successors.subset member)
  · intro number prototype copy
    rw [(succeeds number).cloneOf] at copy
    exact isTarget (proper.prototypes number prototype copy)

theorem modify (proper : automaton.Proper grammar) (number : Nat)
    {change : State → State}
    (succeeds : Succeeds (automaton.state number)
      (change (automaton.state number)))
    (states : (automaton.state number).Proper grammar →
      (change (automaton.state number)).Proper grammar) :
    (automaton.modify number change).Proper grammar := by
  have value (other : Nat) :
      (automaton.modify number change).state other =
          automaton.state other ∨
        other = number ∧ (automaton.modify number change).state other =
          change (automaton.state other) := by
    by_cases same : other = number
    · subst same
      by_cases inside : other < automaton.size
      · exact Or.inr ⟨rfl, state_modify_self inside⟩
      · have outside := Nat.le_of_not_lt inside
        refine Or.inl ?_
        rw [state_of_size_le outside,
          state_of_size_le (by rwa [size_modify])]
    · exact Or.inl (state_modify_ne same)
  apply proper.replace (size_modify change)
  · intro other
    rcases value other with same | ⟨rfl, changed⟩
    · rw [same]
      exact .refl _
    · rw [changed]
      exact succeeds
  · intro other
    rcases value other with same | ⟨rfl, changed⟩
    · rw [same]
      exact proper.states other
    · rw [changed]
      exact states (proper.states other)

theorem modifyConfiguration (proper : automaton.Proper grammar)
    (place : Place) {change : Configuration → Configuration}
    (keeps : (automaton.configuration place).Proper grammar →
      (change (automaton.configuration place)).Proper grammar) :
    (automaton.modifyConfiguration place change).Proper grammar := by
  apply proper.modify
  · exact ⟨rfl, rfl, List.Sublist.refl _⟩
  · intro own
    exact own.modify place.index keeps

/-- A state without transitions is appended. -/
theorem add (proper : automaton.Proper grammar) {added : State}
    (states : added.Proper grammar) (successors : added.successors = [])
    (prototype : ∀ prototype, added.cloneOf = some prototype →
      automaton.IsTarget prototype) :
    (automaton.add added).Proper grammar := by
  have isTarget {number : Nat} (target : automaton.IsTarget number) :
      (automaton.add added).IsTarget number := by
    refine ⟨target.1, ?_⟩
    rw [size_add]
    exact Nat.lt_succ_of_lt target.2
  have value (number : Nat) :
      (automaton.add added).state number = automaton.state number ∨
        (automaton.add added).state number = added := by
    rcases Nat.lt_trichotomy number automaton.size with old | rfl | out
    · exact Or.inl (state_add_of_lt old)
    · exact Or.inr (state_add_size added)
    · refine Or.inl ?_
      rw [state_of_size_le (Nat.le_of_lt out),
        state_of_size_le (by rw [size_add]; exact out)]
  have start : (automaton.add added).state Automaton.start =
      automaton.state Automaton.start := state_add_of_lt proper.positive
  constructor
  · rw [size_add]
    exact Nat.lt_succ_of_lt proper.positive
  · rw [start]
    exact proper.entry
  · rw [start]
    exact proper.original
  · intro number
    rcases value number with same | own
    · rw [same]
      exact proper.states number
    · rw [own]
      exact states
  · intro number edge member
    rcases value number with same | own
    · rw [same] at member
      exact isTarget (proper.targets number edge member)
    · rw [own, successors] at member
      cases member
  · intro number
    rcases value number with same | own
    · rw [same]
      exact proper.keyed number
    · rw [own, successors]
      exact List.nodup_nil
  · intro number edge member
    rcases value number with same | own
    · rw [same] at member
      exact proper.held number edge member
    · rw [own, successors] at member
      cases member
  · intro number original copy
    rcases value number with same | own
    · rw [same] at copy
      exact isTarget (proper.prototypes number original copy)
    · rw [own] at copy
      exact isTarget (prototype original copy)

theorem link (proper : automaton.Proper grammar) {source target : Nat}
    {symbol : Symbol} (held : grammar.Holds symbol)
    (isTarget : automaton.IsTarget target) :
    (automaton.link source symbol target).Proper grammar := by
  have targetOf {number : Nat} (old : automaton.IsTarget number) :
      (automaton.link source symbol target).IsTarget number := by
    refine ⟨old.1, ?_⟩
    rw [size_link]
    exact old.2
  have alike := automaton.alike_link source symbol target
  constructor
  · rw [size_link]
    exact proper.positive
  · rw [(alike Automaton.start).sameItems.entry]
    exact proper.entry
  · rw [cloneOf_link]
    exact proper.original
  · intro number
    exact (proper.states number).of_alike (alike number)
  · intro number edge member
    rcases mem_successors_link member with old | rfl
    · exact targetOf (proper.targets number edge old)
    · exact targetOf isTarget
  · exact keyed_link proper.keyed source symbol target
  · intro number edge member
    rcases mem_successors_link member with old | rfl
    · exact proper.held number edge old
    · exact held
  · intro number prototype copy
    rw [cloneOf_link] at copy
    exact targetOf (proper.prototypes number prototype copy)

theorem relink (proper : automaton.Proper grammar) {source target : Nat}
    {symbol : Symbol} (held : grammar.Holds symbol)
    (isTarget : automaton.IsTarget target) :
    (automaton.relink source symbol target).Proper grammar := by
  rcases automaton.relink_cases source symbol target with
    ⟨-, equal⟩ | ⟨-, equal⟩ | ⟨old, -, equal⟩
  · rw [equal]
    exact proper
  · rw [equal]
    exact proper.link held isTarget
  · rw [equal]
    have dropped : (automaton.modify old fun state =>
        state.dropParent source).Proper grammar := by
      apply proper.modify
      · exact ⟨rfl, rfl, List.Sublist.refl _⟩
      · exact fun own => own.of_alike (alike_dropParent source _)
    apply dropped.link held
    exact ⟨isTarget.1, by rw [size_modify]; exact isTarget.2⟩

theorem linkAll (proper : automaton.Proper grammar) (source : Nat)
    {edges : List (Symbol × Nat)}
    (held : ∀ edge ∈ edges, grammar.Holds edge.1)
    (targets : ∀ edge ∈ edges, automaton.IsTarget edge.2) :
    (automaton.linkAll source edges).Proper grammar := by
  induction edges generalizing automaton with
  | nil => exact proper
  | cons edge rest ih =>
      apply ih (proper.link (held edge List.mem_cons_self)
        (targets edge List.mem_cons_self))
        fun other member => held other (List.mem_cons_of_mem _ member)
      intro other member
      have old := targets other (List.mem_cons_of_mem _ member)
      exact ⟨old.1, by rw [size_link]; exact old.2⟩

/-- A copy of a target, or of a copy, is proper. -/
theorem clone (proper : automaton.Proper grammar) {number : Nat}
    (prototype : automaton.IsTarget (automaton.prototype number)) :
    (automaton.clone number).Proper grammar := by
  have barely : (automaton.add (automaton.bareCopy number)).Proper
      grammar := by
    apply proper.add
    · exact (proper.states number).of_alike (automaton.alike_bareCopy number)
    · rfl
    · intro original copy
      cases copy
      exact prototype
  rw [clone_eq]
  apply barely.linkAll _ (proper.held number)
  intro edge member
  have old := proper.targets number edge member
  refine ⟨old.1, ?_⟩
  rw [size_add]
  exact Nat.lt_succ_of_lt old.2

theorem detachUnreachable (proper : automaton.Proper grammar) :
    automaton.detachUnreachable.Proper grammar := by
  apply proper.replace size_detach
  · intro number
    by_cases inside : number < automaton.size
    · rw [state_detach inside]
      refine ⟨rfl, rfl, ?_⟩
      dsimp only
      split
      · exact List.Sublist.refl _
      · exact List.nil_sublist _
    · have outside := Nat.le_of_not_lt inside
      rw [state_of_size_le outside,
        state_of_size_le (size_detach.symm ▸ outside)]
      exact .refl _
  · intro number
    exact (proper.states number).of_alike (alike_detach number)

theorem absorb (wellFormed : grammar.WellFormed) (exact : first.Exact grammar)
    (proper : automaton.Proper grammar) (number : Nat)
    {incoming : List Configuration}
    (each : ∀ configuration ∈ incoming, configuration.Proper grammar) :
    (automaton.absorb grammar first number incoming).1.Proper grammar := by
  have own := (proper.states number).absorb wellFormed exact each
  have succeeds := @succeeds_absorb grammar first (automaton.state number)
    incoming
  unfold Automaton.absorb
  dsimp only
  split
  · exact proper.modify number succeeds fun _ => own
  · exact proper

end Proper

end Automaton

namespace State

variable {grammar : Grammar} {first : FirstSets} {contexts : Bool}
  {state other : State}

/-- The goal item is the core of the state. -/
structure Starts (state : State) : Prop where
  core : state.coreItems = [.goal]
  coreCount_le : state.coreCount ≤ state.configurations.size

theorem Starts.of_sameItems (starts : state.Starts)
    (same : state.SameItems other) : other.Starts := by
  constructor
  · rw [same.coreItems]
    exact starts.core
  · rw [same.coreCount, same.size]
    exact starts.coreCount_le

theorem Starts.of_extends (starts : state.Starts)
    (grows : state.Extends other) : other.Starts := by
  constructor
  · rw [grows.coreItems starts.coreCount_le]
    exact starts.core
  · have count : other.coreCount = state.coreCount := by rw [grows.frame]
    rw [count]
    exact starts.coreCount_le.trans grows.size_le

theorem Starts.absorb (starts : state.Starts)
    (incoming : List Configuration) :
    (state.absorb grammar first incoming).1.Starts := by
  unfold State.absorb
  split
  · exact starts
  · exact (starts.of_sameItems (joinContexts_sameItems _)).of_extends
      close_extends

theorem Starts.not_hasCores (starts : state.Starts) {source : State}
    {symbol : Symbol} :
    ¬ state.hasCores (source.successorCores grammar contexts symbol) =
      true := by
  intro has
  rw [hasCores, Bool.and_eq_true, beq_iff_eq, beq_iff_eq] at has
  have items : [Item.goal] =
      (source.successorCores grammar contexts symbol).map
        Configuration.item := starts.core ▸ has.2
  have member : Item.goal ∈
      (source.successorCores grammar contexts symbol).map
        Configuration.item := items ▸ List.mem_singleton_self _
  obtain ⟨configuration, listed, same⟩ := List.mem_map.mp member
  obtain ⟨index, -, -, rfl⟩ := mem_successorCores.mp listed
  exact absurd (congrArg Item.dot same) (Nat.succ_ne_zero _)

end State

namespace Automaton

variable {grammar : Grammar} {first : FirstSets} {automaton : Automaton}

theorem starts_absorb (starts : (automaton.state start).Starts)
    (number : Nat) (incoming : List Configuration) :
    ((automaton.absorb grammar first number incoming).1.state
      start).Starts := by
  unfold Automaton.absorb
  dsimp only
  split
  · by_cases same : start = number
    · subst same
      by_cases inside : start < automaton.size
      · rw [state_modify_self inside]
        exact starts.absorb incoming
      · have outside := Nat.le_of_not_lt inside
        rw [state_of_size_le (by rwa [size_modify])]
        rwa [state_of_size_le outside] at starts
    · rw [state_modify_ne same]
      exact starts
  · exact starts

end Automaton

namespace Collecting

variable {grammar : Grammar} {first : FirstSets} {precision : Precision}
  {collecting : Collecting}

structure Proper (grammar : Grammar) (collecting : Collecting) : Prop where
  automaton : collecting.automaton.Proper grammar
  starts : (collecting.automaton.state Automaton.start).Starts

section Proper

variable (wellFormed : grammar.WellFormed) (exact : first.Exact grammar)

include wellFormed exact

theorem proper_startState :
    (startState grammar first precision).Proper grammar := by
  apply State.Proper.close wellFormed exact
  apply State.proper_ofCores
  intro configuration member
  rw [List.mem_singleton] at member
  subst member
  refine ⟨wellFormed.hasGoalRule, ?_⟩
  intro terminal listed
  rcases eq_lr0_or_tracks precision with rfl | tracks
  · exact absurd listed (TerminalSet.not_mem_empty terminal)
  · rw [Configuration.ofItem, tracks, if_pos rfl,
      TerminalSet.mem_singleton] at listed
    exact listed ▸ wellFormed.hasEnd

theorem proper_begin : (begin grammar first precision).Proper grammar := by
  have own := @proper_startState grammar first precision wellFormed exact
  have succeeds := @Automaton.succeeds_close grammar first
    precision.tracksContexts
    (State.ofCores none
      [Configuration.ofItem .goal
        (if precision.tracksContexts then .singleton Terminal.endOfInput
          else ∅)])
  have value (number : Nat) :
      (begin grammar first precision).automaton.state number =
          startState grammar first precision ∨
        (begin grammar first precision).automaton.state number = default := by
    cases number with
    | zero => exact Or.inl rfl
    | succ number => exact Or.inr rfl
  have starts : (startState grammar first precision).Starts := by
    have cores : (State.ofCores none
        [Configuration.ofItem .goal
          (if precision.tracksContexts then .singleton Terminal.endOfInput
            else ∅)]).Starts := ⟨rfl, Nat.le_refl 1⟩
    exact cores.of_extends State.close_extends
  constructor
  · constructor
    · exact Nat.zero_lt_one
    · exact succeeds.entry
    · exact succeeds.cloneOf
    · intro number
      rcases value number with same | blank
      · rw [same]
        exact own
      · rw [blank]
        intro configuration member
        exact absurd member (Array.not_mem_empty configuration)
    · intro number edge member
      rcases value number with same | blank
      · rw [same, successors_startState] at member
        cases member
      · rw [blank] at member
        cases member
    · intro number
      rcases value number with same | blank
      · rw [same, successors_startState]
        exact List.nodup_nil
      · rw [blank]
        exact List.nodup_nil
    · intro number edge member
      rcases value number with same | blank
      · rw [same, successors_startState] at member
        cases member
      · rw [blank] at member
        cases member
    · intro number prototype copy
      rcases value number with same | blank
      · rw [same] at copy
        exact nomatch succeeds.cloneOf.symm.trans copy
      · rw [blank] at copy
        cases copy
  · exact starts

theorem Proper.addTransition (proper : collecting.Proper grammar)
    (source : Nat) {symbol : Symbol} (held : grammar.Holds symbol) :
    (collecting.addTransition grammar first precision source symbol).Proper
      grammar := by
  obtain ⟨automaton, starts⟩ := proper
  have cores := (automaton.states source).successorCores
    precision.tracksContexts symbol
  have outcome := @Automaton.found_findTarget collecting.automaton precision
    ((collecting.automaton.state source).successorCores grammar
      precision.tracksContexts symbol)
  have isTarget {target : Nat}
      (member : target ∈ collecting.automaton.withCores
        ((collecting.automaton.state source).successorCores grammar
          precision.tracksContexts symbol)) :
      collecting.automaton.IsTarget target := by
    obtain ⟨inside, has⟩ := Automaton.mem_withCores.mp member
    refine ⟨Nat.pos_of_ne_zero ?_, inside⟩
    rintro rfl
    exact starts.not_hasCores has
  unfold Collecting.addTransition
  dsimp only
  generalize collecting.automaton.findTarget precision
    ((collecting.automaton.state source).successorCores grammar
      precision.tracksContexts symbol) = decision at outcome ⊢
  cases outcome with
  | same target member _ =>
      constructor
      · exact automaton.relink held (isTarget member)
      · exact starts.of_sameItems
          (Automaton.alike_relink source symbol target _).sameItems
  | joined target member _ =>
      have absorbed := automaton.absorb wellFormed exact target cores
      have remains := @Automaton.starts_absorb grammar first _ starts target
        ((collecting.automaton.state source).successorCores grammar
          precision.tracksContexts symbol)
      have stays : (collecting.automaton.absorb grammar first target
          ((collecting.automaton.state source).successorCores grammar
            precision.tracksContexts symbol)).1.IsTarget target := by
        refine ⟨(isTarget member).1, ?_⟩
        rw [Automaton.size_absorb]
        exact (isTarget member).2
      dsimp only
      generalize collecting.automaton.absorb grammar first target
        ((collecting.automaton.state source).successorCores grammar
          precision.tracksContexts symbol) = merged at absorbed remains stays ⊢
      constructor
      · exact absorbed.relink held stays
      · exact remains.of_sameItems
          (Automaton.alike_relink source symbol target _).sameItems
  | new _ =>
      have fresh : (freshState grammar first precision
          (collecting.automaton.state source) symbol).Proper grammar :=
        (State.proper_ofCores cores).close wellFormed exact
      have added := automaton.add fresh successors_freshState (by
        intro prototype copy
        rw [freshState, State.close_extends.frame] at copy
        cases copy)
      constructor
      · apply added.relink held
        refine ⟨automaton.positive, ?_⟩
        rw [Automaton.size_add]
        exact Nat.lt_succ_self _
      · have same := (@Automaton.alike_relink
          (collecting.automaton.add (freshState grammar first precision
            (collecting.automaton.state source) symbol))
          source symbol collecting.automaton.size Automaton.start).sameItems
        refine State.Starts.of_sameItems ?_ same
        rw [Automaton.state_add_of_lt automaton.positive]
        exact starts

theorem invariant_proper :
    Invariant grammar first precision (Proper grammar)
      fun _ pending collecting => collecting.Proper grammar ∧
        ∀ symbol ∈ pending, grammar.Holds symbol := by
  constructor
  · intro collecting number queue _ proper
    refine ⟨⟨proper.automaton, proper.starts⟩, ?_⟩
    intro symbol pending
    obtain ⟨item, -, scanned⟩ := State.mem_scannedSymbols.mp pending
    exact ⟨item.rule, Item.scanned_mem_right scanned⟩
  · intro collecting source symbol pending busy
    exact ⟨busy.1.addTransition wellFormed exact source
        (busy.2 symbol List.mem_cons_self),
      fun other member => busy.2 other (List.mem_cons_of_mem _ member)⟩
  · intro collecting source busy
    exact busy.1

theorem proper_collect? {automaton : Automaton}
    (result : Automaton.collect? grammar first precision = some automaton) :
    automaton.Proper grammar := by
  obtain ⟨collected, ran, rfl⟩ := Option.map_eq_some_iff.mp result
  obtain ⟨final, proper, -, rfl⟩ :=
    (invariant_proper wellFormed exact).run
      (proper_begin wellFormed exact) ran
  exact proper.automaton.detachUnreachable

end Proper

end Collecting

end LRTables
