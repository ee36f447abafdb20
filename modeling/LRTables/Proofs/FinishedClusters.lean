import LRTables.Proofs.TendedClusters

/-!
# Finished clusters

Clusters are tended from the beginning, when the heads have all their lookaheads
and nothing else of the region has any.  In the end every head has had its turn
and nothing waits, so that the copies have all that is on the lanes.
-/

namespace LRTables

open Automaton Splitting

namespace ClusterSplitting

variable {grammar : Grammar} {first : FirstSets} {base automaton : Automaton}
  {region : Region} {growing grown : ClusterSplitting}
  {onLane : Nat → Item → Nat → Prop}

section Resets

variable {splitting : Splitting} {good : State → Prop} {number other : Nat}

theorem state_resetState_ne (different : other ≠ number) :
    (resetState grammar first region splitting number).automaton.state other =
      splitting.automaton.state other := by
  rw [resetState]
  split
  · exact (state_modify_ne different).trans (state_modify_ne different)
  · exact state_modify_ne different

variable (wellFormed : grammar.WellFormed) (unused : grammar.GoalUnused)
  (exact : first.Exact grammar) (sustains : Sustains grammar first False good)

include wellFormed unused in
theorem blank_resetState (kept : splitting.Kept grammar first good base)
    (inside : number < splitting.automaton.size)
    (notHead : number ∉ region.heads) :
    ((resetState grammar first region splitting number).automaton.state
      number).Blank := by
  rw [resetState, if_neg fun isHead => notHead (List.contains_iff_mem.mp isHead)]
  show State.Blank ((splitting.automaton.modify number _).state number)
  rw [state_modify_self inside]
  exact State.blank_resetContexts wellFormed unused
    (kept.intact.framed.regular number inside)

include wellFormed unused exact sustains in
/-- A head that is reset has at least what it had before. -/
theorem encloses_resetState (kept : splitting.Kept grammar first good base)
    (isHead : number ∈ region.heads) :
    ((resetState grammar first region splitting number).automaton.state
      number).Encloses (splitting.automaton.state number) := by
  intro item terminal has
  by_cases inside : number < splitting.automaton.size
  · have regular := kept.intact.framed.regular number inside
    have joined := joined_reset wellFormed unused exact sustains kept inside
    have cleared : number < (splitting.automaton.modify number fun state =>
        state.resetContexts grammar first).size := by
      rwa [size_modify]
    rw [resetState, if_pos (List.contains_iff_mem.mpr isHead)]
    show State.HasContext (((splitting.automaton.modify number _).modify number
      _).state number) item terminal
    rw [state_modify_self cleared, state_modify_self inside]
    apply joined.closed.hasContext_of_carries wellFormed exact ?_ ?_
      (sustains.snug _ (kept.good number inside) item terminal has)
    · intro core member
      apply State.coreItems_subset
      rw [joined.sameItems.coreItems, State.coreItems_resetContexts regular]
      exact member
    · intro core member lookahead had
      exact (joined.core core lookahead (regular.mem_coreItems.mp member).2).mpr
        (Or.inr (had.arrives_cores regular member))
  · rw [state_of_size_le (Nat.le_of_not_lt inside)] at has
    obtain ⟨index, impossible, -⟩ := has
    exact absurd impossible (Nat.not_lt_zero _)

include wellFormed unused exact sustains in
theorem encloses_resetStates (kept : splitting.Kept grammar first good base)
    (numbers : List Nat) (isHead : number ∈ region.heads) :
    ((numbers.foldl (resetState grammar first region) splitting).automaton.state
      number).Encloses (splitting.automaton.state number) := by
  induction numbers generalizing splitting with
  | nil => exact fun _ _ => id
  | cons next rest ih =>
      intro item terminal has
      apply ih (kept_resetState wellFormed unused exact sustains kept)
      by_cases isNext : number = next
      · subst isNext
        exact encloses_resetState wellFormed unused exact sustains kept isHead
          item terminal has
      · rwa [state_resetState_ne isNext]

include wellFormed unused exact sustains in
theorem blank_resetStates (kept : splitting.Kept grammar first good base)
    (inside : number < splitting.automaton.size)
    (notHead : number ∉ region.heads) {numbers : List Nat}
    (reset : number ∈ numbers ∨ (splitting.automaton.state number).Blank) :
    ((numbers.foldl (resetState grammar first region) splitting).automaton.state
      number).Blank := by
  induction numbers generalizing splitting with
  | nil => exact reset.resolve_left List.not_mem_nil
  | cons next rest ih =>
      apply ih (kept_resetState wellFormed unused exact sustains kept)
        ((size_resetState next).symm ▸ inside)
      by_cases isNext : number = next
      · subst isNext
        exact Or.inr (blank_resetState wellFormed unused kept inside notHead)
      · rw [state_resetState_ne isNext]
        exact reset.imp_left fun listed =>
          (List.mem_cons.mp listed).resolve_left isNext

end Resets

section Beginning

variable (wellFormed : grammar.WellFormed) (unused : grammar.GoalUnused)
  (exact : first.Exact grammar)
  (traced : TracedFrom grammar first base automaton)
  (faithful : automaton.Faithful grammar first)
  (genuine : region.Genuine grammar automaton)

include wellFormed unused exact traced faithful genuine in
theorem stocked_begin :
    Stocked grammar first region automaton
      (begin grammar first automaton region) := by
  have sustains := (sustains_evident wellFormed unused exact False).unrolled
  have intact := traced.intact wellFormed unused exact
  have all := faithful.all
  have before := Splitting.kept_begin intact (.refl _) all region
  have kept := @kept_begin grammar first automaton automaton region _
    wellFormed unused exact sustains intact (.refl _) all
  have localized : Localized region automaton
      (begin grammar first automaton region).splitting :=
    (steps_of_occurs wellFormed unused exact sustains genuine intact (.refl _)
      all traced.original .begin).localized (localized_begin traced.original)
  have size : (begin grammar first automaton
      region).splitting.automaton.size = automaton.size :=
    size_resetStates region.states
  have original {copy : Nat} (inside : copy < (begin grammar first automaton
      region).splitting.automaton.size) :
      (begin grammar first automaton
        region).splitting.automaton.prototype copy = copy := by
    rw [size] at inside
    rw [localized.enlarges.prototype copy inside, traced.prototype_eq inside]
  have blank {copy : Nat} (inside : copy < (begin grammar first automaton
        region).splitting.automaton.size) (notHead : copy ∉ region.heads)
      (regional : Regional region (begin grammar first automaton
        region).splitting.automaton copy) :
      ((begin grammar first automaton
        region).splitting.automaton.state copy).Blank := by
    rw [Regional, original inside] at regional
    exact blank_resetStates wellFormed unused exact sustains before
      (size ▸ inside) notHead (Or.inl (contains_iff.mp regional))
  constructor
  · exact kept
  · exact localized
  · exact fun copy member => absurd member List.not_mem_nil
  · exact fun head isHead => encloses_resetStates wellFormed unused exact
      sustains before region.states isHead
  · exact fun copy inside _ => original inside
  · intro copy inside _ notHead
    rw [original inside] at notHead
    exact blank inside notHead
  · intro heads copy inside regional
    have evident := (kept.splitting.good copy inside).1
    by_cases isHead : copy ∈ region.heads
    · rw [size] at inside
      have core := (kept.splitting.enlarges.sameItems copy inside).coreItems
      exact (heads copy isHead).enclosed (traced.encloses wellFormed unused
        exact faithful inside evident.attested core) core
    · exact (blank inside isHead regional).grounded
        (Grammar.hereditary_rivals grammar) evident

include wellFormed unused exact traced faithful genuine in
theorem tended_of_occurs (charts : region.Charts grammar automaton onLane)
    (occurs : Occurs grammar first automaton region growing) :
    Tended grammar first region automaton onLane start [] growing := by
  induction occurs with
  | begin =>
      refine ⟨stocked_begin wellFormed unused exact traced faithful genuine,
        ?_, ?_, ?_⟩
      · exact fun copy waits => absurd waits List.not_mem_nil
      · exact fun head _ isProcessed => absurd isProcessed List.not_mem_nil
      · exact fun source isClaimed => absurd isClaimed List.not_mem_nil
  | start head before served isHead =>
      rename_i ih
      exact ih.startAt traced charts genuine served isHead
  | turn _ ih =>
      exact ih.turn wellFormed unused exact traced faithful charts genuine

end Beginning

/-- The head has had its turn or waits for it. -/
def Attends (growing : ClusterSplitting) (head : Nat) : Prop :=
  head ∈ growing.processed ∨ head ∈ growing.queue.waiting

section Attending

variable {source prototype head : Nat}

theorem Attends.followLane (attends : growing.Attends head) :
    (followLane grammar first region source growing prototype).Attends
      head := by
  rcases @followLane_cases grammar first region growing source prototype with
    ⟨same, -⟩ | ⟨symbol, current, target, splitting, -, -, -, -, next⟩
  · rwa [same]
  · rw [next]
    exact attends.imp_right fun waits => mem_queued.mpr (Or.inl waits)

theorem Attends.followEach {prototypes : List Nat}
    (attends : growing.Attends head) :
    (prototypes.foldl (ClusterSplitting.followLane grammar first region source)
      growing).Attends head := by
  induction prototypes generalizing growing with
  | nil => exact attends
  | cons prototype rest ih => exact ih attends.followLane

/-- A head is its own copy, so that it has had its turn when it is taken from
the queue. -/
theorem Attends.turn (attends : growing.Attends head)
    (own : growing.splitting.automaton.prototype head = head)
    (contained : region.contains head = true) :
    (ClusterSplitting.turn grammar first region growing).Attends head := by
  rw [ClusterSplitting.turn]
  split
  · exact attends
  · rename_i number queue found
    have waiting := WorkQueue.waiting_of_pop found
    rw [Attends, waiting, List.mem_cons] at attends
    rw [followLanes]
    dsimp only
    split
    · apply Attends.followEach
      rcases attends with before | rfl | later
      · exact Or.inl (Ordered.mem_insert.mpr (Or.inl before))
      · exact Or.inl (Ordered.mem_insert.mpr (Or.inr own.symm))
      · exact Or.inr later
    · rename_i outside
      rcases attends with before | rfl | later
      · exact Or.inl before
      · exact absurd (own.symm ▸ contained) outside
      · exact Or.inr later

end Attending

section Ending

variable (wellFormed : grammar.WellFormed) (unused : grammar.GoalUnused)
  (exact : first.Exact grammar)
  (traced : TracedFrom grammar first base automaton)
  (faithful : automaton.Faithful grammar first)
  (genuine : region.Genuine grammar automaton)
  (charts : region.Charts grammar automaton onLane)

include wellFormed unused exact traced faithful genuine charts in
theorem Attends.turns {head : Nat}
    (occurs : Occurs grammar first automaton region growing)
    (isHead : head ∈ region.heads) (attends : growing.Attends head)
    (turns : Nat) :
    ((ClusterSplitting.turn grammar first region)^[turns] growing).Attends
      head := by
  induction turns with
  | zero => exact attends
  | succ turns ih =>
      have tended := tended_of_occurs wellFormed unused exact traced faithful
        genuine charts (occurs.turns turns)
      obtain ⟨original, contained⟩ := charts.heads head isHead
      rw [Function.iterate_succ_apply']
      refine ih.turn ?_ contained
      rw [tended.localized.enlarges.prototype head original,
        traced.prototype_eq original]

include wellFormed unused exact traced faithful genuine charts in
theorem processed_growFrom {head limit left : Nat}
    (isHead : head ∈ region.heads)
    (occurs : Occurs grammar first automaton region growing)
    (served : growing.queue.waiting = [])
    (result : growFrom grammar first region (growing, limit) head =
      .ok (grown, left)) :
    ∀ other ∈ region.heads, other = head ∨ other ∈ growing.processed →
      other ∈ grown.processed := by
  intro other otherHead either
  have contains := (charts.heads head isHead).2
  rcases growFrom_cases result with
    ⟨rfl, skipped⟩ | ⟨contained, fresh, empty, turns, rfl⟩
  · rcases either with rfl | before
    · exact skipped.resolve_right fun outside => by simp [contains] at outside
    · exact before
  · have attends : Attends
        { growing with
          claimed := Ordered.insert growing.claimed head
          cluster := [(head, head)]
          queue := WorkQueue.empty.push head } other :=
      either.symm.imp_right fun same => WorkQueue.mem_push.mpr (Or.inr same)
    have last := attends.turns wellFormed unused exact traced faithful genuine
      charts (occurs.start head served isHead contained fresh) otherHead turns
    refine last.resolve_right ?_
    rw [empty]
    exact List.not_mem_nil

include wellFormed unused exact traced faithful genuine charts in
/-- The heads from which clusters were grown have had their turn, as have those
that had it before. -/
theorem processed_growAll {heads : List Nat} {limit left : Nat}
    (listed : ∀ head ∈ heads, head ∈ region.heads)
    (occurs : Occurs grammar first automaton region growing)
    (served : growing.queue.waiting = [])
    (result : heads.foldlM (growFrom grammar first region)
      (growing, limit) = .ok (grown, left)) :
    ∀ head ∈ region.heads, head ∈ heads ∨ head ∈ growing.processed →
      head ∈ grown.processed := by
  induction heads generalizing growing limit with
  | nil =>
      cases result
      exact fun head _ either => either.resolve_left List.not_mem_nil
  | cons next rest ih =>
      rw [List.foldlM_cons] at result
      obtain ⟨⟨middle, remaining⟩, step, others⟩ := ok_of_bind result
      have isNext := listed next List.mem_cons_self
      obtain ⟨grows, empty⟩ := occurs_growFrom isNext occurs served step
      have processed := processed_growFrom wellFormed unused exact traced
        faithful genuine charts isNext occurs served step
      intro head isHead either
      apply ih (fun other later => listed other (List.mem_cons_of_mem _ later))
        grows empty others head isHead
      rcases either with among | before
      · exact (List.mem_cons.mp among).symm.imp_right fun same =>
          processed head isHead (Or.inl same)
      · exact Or.inr (processed head isHead (Or.inr before))

include wellFormed unused exact traced faithful genuine charts in
/-- In the end no state waits, every head has had its turn, and clusters are
tended. -/
theorem tended_splitByClusters {limit : Nat} {splitting : Splitting}
    (result : region.splitByClusters limit grammar first automaton =
      .ok splitting) :
    ∃ growing : ClusterSplitting, growing.splitting = splitting ∧
      growing.queue.waiting = [] ∧
      (∀ head ∈ region.heads, head ∈ growing.processed) ∧
      Tended grammar first region automaton onLane start [] growing := by
  rw [Region.splitByClusters] at result
  obtain ⟨⟨grown, left⟩, grow, final⟩ := ok_of_bind result
  cases final
  have listed (head : Nat) (isHead : head ∈ region.heads) :
      head ∈ region.heads := isHead
  obtain ⟨occurs, served⟩ := occurs_growAll listed .begin rfl grow
  have processed := processed_growAll wellFormed unused exact traced faithful
    genuine charts listed .begin rfl grow
  exact ⟨grown, rfl, served,
    fun head isHead => processed head isHead (Or.inl isHead),
    tended_of_occurs wellFormed unused exact traced faithful genuine charts
      occurs⟩

variable {number : Nat}
  (tended : Tended grammar first region automaton onLane number [] growing)
  (served : growing.queue.waiting = [])
  (processed : ∀ head ∈ region.heads, head ∈ growing.processed)

include tended processed in
theorem Tended.claimed_of_head {copy : Nat}
    (inside : copy < growing.splitting.automaton.size)
    (isHead : growing.splitting.automaton.prototype copy ∈ region.heads) :
    copy ∈ growing.claimed := by
  have same := tended.single copy inside isHead
  exact same ▸ tended.processed _ isHead (processed _ isHead)

include wellFormed unused exact traced faithful charts tended served
  processed in
/-- What a word admits on a lane has arrived in the copy to which the word
leads. -/
theorem Tended.hasContext {word : List Symbol} {copy terminal : Nat}
    {item : Item} (leads : growing.splitting.automaton.Leads word copy)
    (admits : grammar.Admits word item terminal)
    (laned : onLane (growing.splitting.automaton.prototype copy) item
      terminal) :
    copy ∈ growing.claimed ∧
      (growing.splitting.automaton.state copy).HasContext item terminal := by
  have intact := tended.kept.splitting.intact
  have framed := intact.framed
  -- The whole of what is admitted was found by tracing.
  have had {word : List Symbol} {copy terminal : Nat} {item : Item}
      (leads : growing.splitting.automaton.Leads word copy)
      (admits : grammar.Admits word item terminal) :
      (automaton.state
        (growing.splitting.automaton.prototype copy)).HasContext item
          terminal :=
    faithful.saturated.hasContext wellFormed unused exact faithful.framed
      (tended.localized.leads_prototype traced intact leads) admits
  induction admits generalizing copy with
  | goal =>
      rw [leads_nil.mp leads] at laned ⊢
      exact ⟨tended.claimed_of_head processed framed.positive
        (charts.goal _ _ laned), intact.goal⟩
  | generated valid scans member begins =>
      have inside := framed.lt_size leads
      have present := (framed.mem_items wellFormed unused leads).mpr valid
      have isHead := charts.generated _ _ _ _ _
        ((tended.localized.sameItems intact inside).items ▸ present) scans
        member begins laned
      refine ⟨tended.claimed_of_head processed inside isHead, ?_⟩
      exact (intact.closed copy inside).hasContext_of_carries wellFormed exact
        (fun _ => id) (fun _ _ _ => id)
        (.generated (.kernel present) scans member begins)
  | inherited admits scans member vanishes ih =>
      have hands := Grammar.Hands.intro scans member vanishes
      obtain ⟨isClaimed, has⟩ :=
        ih leads (charts.handed _ _ _ _ hands (had leads admits) laned)
      exact ⟨isClaimed, (intact.closed copy
        (framed.lt_size leads)).hasContext_of_hands wellFormed exact hands has⟩
  | advance admits scans ih =>
      obtain ⟨source, before, edge⟩ := leads_append.mp leads
      have onward := charts.onward _ _ _ _ _
        (tended.localized.edge_prototype traced intact edge) scans
        (had before admits) laned
      obtain ⟨isClaimed, has⟩ := ih before onward.1
      exact tended.passes source isClaimed (served ▸ List.not_mem_nil)
        (fun isHead => processed _ isHead) _ copy edge
        (fun _ => List.not_mem_nil) _ _ scans laned has

end Ending

end ClusterSplitting

end LRTables
