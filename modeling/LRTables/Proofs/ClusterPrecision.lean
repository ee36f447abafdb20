import LRTables.Proofs.ClashAgreement
import LRTables.Proofs.ExactContexts
import LRTables.Proofs.FinishedClusters

/-!
# The precision of splits by clusters

Heads keep all their lookaheads, so that overlaps in a head stay.  All other
copies get what words on lanes admit and have no overlaps but those of single
words.  So a split by clusters leaves no conflicts just if rivals share no
lookahead in a head.
-/

namespace LRTables

open Automaton Splitting

variable {grammar : Grammar} {first : FirstSets} {base automaton : Automaton}
  {region : Region}

/-- Rivals share a lookahead in no state of an automaton whose table has no
conflicts. -/
theorem Table.Decides.not_rivals (wellFormed : grammar.WellFormed)
    (unused : grammar.GoalUnused) (exact : first.Exact grammar) {table : Table}
    (decides : table.Decides grammar false automaton)
    (faithful : automaton.Faithful grammar first) {word : List Symbol}
    {number terminal : Nat} {here there : Item}
    (leads : automaton.Leads word number)
    (hasHere : (automaton.state number).HasContext here terminal)
    (hasThere : (automaton.state number).HasContext there terminal) :
    ¬ grammar.Rivals here there := by
  intro rivals
  induction rivals generalizing word number with
  | finals final otherFinal different =>
      have attested :=
        (faithful.evident number (faithful.framed.lt_size leads)).attested
      have atEnd {item : Item}
          (has : (automaton.state number).HasContext item terminal)
          (isGoal : item.rule = goalRule) :
          terminal = Terminal.endOfInput := by
        obtain ⟨front, -, admits⟩ := attested.context item terminal has
        exact admits.eq_endOfInput wellFormed unused isGoal
      exact different (decides.rule_eq leads hasHere hasThere final otherFinal
        (atEnd hasHere) (atEnd hasThere))
  | scanned scans otherScans _ ih =>
      obtain ⟨target, edge, -, passes⟩ :=
        faithful.advance leads hasHere.mem_items scans
      exact ih (leads.step edge) (passes terminal hasHere)
        (faithful.saturated.feeds word number leads _ target edge _ terminal
          hasThere otherScans)
  | left hands _ ih =>
      have closed := faithful.saturated.closed word number leads
      exact ih leads (closed.hasContext_of_hands wellFormed exact hands hasHere)
        hasThere
  | right hands _ ih =>
      have closed := faithful.saturated.closed word number leads
      exact ih leads hasHere
        (closed.hasContext_of_hands wellFormed exact hands hasThere)

/-- In no head of the lanes two rivals have a lookahead in common. -/
def Region.Uncontested (grammar : Grammar) (region : Region)
    (automaton : Automaton) : Prop :=
  ∀ head ∈ region.heads, ∀ here there, grammar.Rivals here there →
    ∀ terminal, (automaton.state head).HasContext here terminal →
      ¬ (automaton.state head).HasContext there terminal

namespace ClusterSplitting

variable {growing : ClusterSplitting} {onLane : Nat → Item → Nat → Prop}
  {number : Nat} {done : Splitting} (wellFormed : grammar.WellFormed)
  (unused : grammar.GoalUnused) (exact : first.Exact grammar)
  (traced : TracedFrom grammar first base automaton)
  (faithful : automaton.Faithful grammar first)
  (charts : region.Charts grammar automaton onLane)
  (tended : Tended grammar first region automaton onLane number [] growing)
  (result : growing.splitting.regenerate grammar first = .ok done)

include wellFormed unused exact tended result in
theorem Tended.leads_regenerate {word : List Symbol} {copy : Nat} :
    done.automaton.Leads word copy ↔
      growing.splitting.automaton.Leads word copy := by
  have kept := tended.kept.splitting
  have links := kept.sameLinks_regenerate wellFormed unused exact
    (sustains_evident wellFormed unused exact False).unrolled result
  rw [links.sameFrame.leads_iff, kept.intact.framed.leads_detach]

include wellFormed unused exact traced faithful charts tended result in
/-- Once the contexts are computed anew, all overlaps of rivals are grounded if
those in the heads were. -/
theorem Tended.grounded_regenerate
    (served : growing.queue.waiting = [])
    (processed : ∀ head ∈ region.heads, head ∈ growing.processed)
    (heads : region.Grounded grammar automaton) {word : List Symbol}
    {copy : Nat} (leads : done.automaton.Leads word copy) :
    (done.automaton.state copy).Grounded grammar grammar.Rivals := by
  have kept := tended.kept.splitting
  have sustains := (sustains_evident wellFormed unused exact False).unrolled
  have justified := kept.justified_regenerate wellFormed unused exact sustains
    traced tended.localized result
  have links :=
    kept.sameLinks_regenerate wellFormed unused exact sustains result
  have leadsIff {word : List Symbol} {copy : Nat} :=
    @Tended.leads_regenerate grammar first automaton region growing onLane
      number done wellFormed unused exact tended result word copy
  have inside := kept.intact.framed.lt_size (leadsIff.mp leads)
  intro here there rivals terminal hasHere hasThere
  obtain ⟨one, oneLeads, oneAdmits⟩ :=
    justified word copy leads here terminal hasHere
  obtain ⟨other, otherLeads, otherAdmits⟩ :=
    justified word copy leads there terminal hasThere
  rw [leadsIff] at oneLeads otherLeads
  have had {word : List Symbol} {item : Item}
      (leads : growing.splitting.automaton.Leads word copy)
      (admits : grammar.Admits word item terminal) :=
    faithful.saturated.hasContext wellFormed unused exact faithful.framed
      (tended.localized.leads_prototype traced kept.intact leads) admits
  obtain ⟨hereLaned, thereLaned⟩ := charts.rivals here there terminal rivals
    _ _ (tended.localized.leads_prototype traced kept.intact oneLeads)
    (had oneLeads oneAdmits) (had otherLeads otherAdmits)
  obtain ⟨isClaimed, left⟩ := tended.hasContext wellFormed unused exact traced
    faithful charts served processed oneLeads oneAdmits hereLaned
  obtain ⟨-, right⟩ := tended.hasContext wellFormed unused exact traced
    faithful charts served processed otherLeads otherAdmits thereLaned
  have shares := tended.grounded heads copy inside (tended.claimed copy
    isClaimed).2 here there rivals terminal left right
  exact shares.transfer ((alike_detach copy).sameItems.trans
    (links.state copy).sameItems).coreItems

include wellFormed unused exact traced charts tended result in
/-- Heads have the lookaheads that they had before the split. -/
theorem Tended.hasContext_head
    (doneFaithful : done.automaton.Faithful grammar first) {head : Nat}
    (isHead : head ∈ region.heads) {item : Item} {terminal : Nat}
    (had : (automaton.state head).HasContext item terminal) :
    ∃ word, done.automaton.Leads word head ∧
      (done.automaton.state head).HasContext item terminal := by
  have intact := tended.kept.splitting.intact
  have original := (charts.heads head isHead).1
  rw [traced.retraced.size] at original
  obtain ⟨word, reads, admits⟩ :=
    (traced.hasContext_iff wellFormed unused exact original).mp had
  obtain ⟨copy, leads, isCopy⟩ := tended.localized.exists_leads traced intact
    (traced.retraced.sameFrame.leads_iff.mpr reads)
  have same := tended.single copy (intact.framed.lt_size leads)
    (isCopy ▸ isHead)
  have own : copy = head := same.symm.trans isCopy
  subst own
  have again := (tended.leads_regenerate wellFormed unused exact result).mpr
    leads
  exact ⟨word, again, doneFaithful.saturated.hasContext wellFormed unused exact
    doneFaithful.framed again admits⟩

end ClusterSplitting

namespace Construction

variable {log : ConflictLog} {limit : Nat} {done : Splitting}

/-- A split by clusters leaves no conflicts just if no head is contested. -/
theorem clean_split_iff (wellFormed : grammar.WellFormed)
    (unused : grammar.GoalUnused) (exact : first.Exact grammar)
    (deterministic : grammar.Deterministic)
    (traced : TracedFrom grammar first base automaton)
    (unrolled : base.All (State.Unrolled grammar))
    (tells : Table.Tells grammar false automaton automaton.size log)
    (result : split limit grammar first .clusters
      (automaton.markConflictLanes grammar first log).1
      (automaton.markConflictLanes grammar first log).2 = .ok done) :
    (∃ table, Table.ofAutomaton grammar done.automaton false = .ok table ∧
        table.log.conflicts = #[]) ↔
      (automaton.markConflictLanes grammar first log).2.Uncontested grammar
        automaton := by
  have marked := traced.mark log
  have faithful := marked.faithful wellFormed unused exact unrolled
  have genuine := (Region.genuine_mark traced log).enlarge marked.enlarges
    marked.original
  have charts := traced.charts wellFormed unused exact
    (traced.tame wellFormed unused exact deterministic unrolled) tells unrolled
  have contexts {number : Nat} {item : Item} {terminal : Nat} :=
    @TracedFrom.hasContext_mark grammar first automaton base log number terminal
      item traced
  rw [split_eq] at result
  obtain ⟨splitting, divided, regenerated⟩ := ok_of_bind result
  obtain ⟨growing, rfl, served, processed, tended⟩ :=
    ClusterSplitting.tended_splitByClusters wellFormed unused exact marked
      faithful genuine charts divided
  have doneFaithful := faithful_regenerate wellFormed unused exact
    tended.kept.splitting regenerated
  constructor
  · rintro ⟨table, filled, clean⟩ head isHead here there rivals terminal hasHere
      hasThere
    have decides := (doneFaithful.adequate wellFormed unused exact).decides
      wellFormed filled clean
    obtain ⟨word, leads, left⟩ := tended.hasContext_head wellFormed unused exact
      marked charts regenerated doneFaithful isHead (contexts.mpr hasHere)
    obtain ⟨-, -, right⟩ := tended.hasContext_head wellFormed unused exact
      marked charts regenerated doneFaithful isHead (contexts.mpr hasThere)
    exact decides.not_rivals wellFormed unused exact doneFaithful leads left
      right rivals
  · intro uncontested
    have heads : Region.Grounded grammar
        (automaton.markConflictLanes grammar first log).2
        (automaton.markConflictLanes grammar first log).1 :=
      fun head isHead here there rivals terminal hasHere hasThere =>
        absurd (contexts.mp hasThere) (uncontested head isHead here there rivals
          terminal (contexts.mp hasHere))
    obtain ⟨table, filled, empty⟩ := doneFaithful.exists_clean_table wellFormed
      deterministic fun _ _ => tended.grounded_regenerate wellFormed unused exact
        marked faithful charts regenerated served processed heads
    exact ⟨table, filled, congrArg ConflictLog.conflicts empty⟩

theorem Contended.eq {table : Table}
    (contended : Contended grammar first automaton region)
    (collected : collect? grammar first .lr0 = some base)
    (filled : Table.ofAutomaton grammar
      (base.traceLanes grammar first).automaton false = .ok table) :
    automaton = (base.traceLanes grammar first).automaton ∧
      table.log.reduceReduce ≠ 0 ∧
      region = (automaton.markConflictLanes grammar first table.log).2 := by
  obtain ⟨found, again, rfl⟩ := contended.traced
  cases collected.symm.trans again
  obtain ⟨_, tabulated, contested, rfl⟩ := contended.conflicts
  cases filled.symm.trans tabulated
  exact ⟨rfl, contested, rfl⟩

end Construction

namespace Grammar

/-- If tracing leaves reduce/reduce conflicts, then rivals share no lookahead in
the heads of their lanes. -/
def HeadsUncontested (grammar : Grammar) : Prop :=
  ∀ traced region,
    Construction.Contended grammar (.ofGrammar grammar) traced region →
      region.Uncontested grammar traced

end Grammar

namespace Construction

variable {limit : Nat} {output : Output} (wellFormed : grammar.WellFormed)
  (unused : grammar.GoalUnused) (deterministic : grammar.Deterministic)

include wellFormed unused deterministic in
theorem exists_byClusters
    (ends : (byLanes limit grammar (.ofGrammar grammar)
      (some .clusters)).built ≠ .error .unfinished) :
    ∃ output, (byLanes limit grammar (.ofGrammar grammar)
      (some .clusters)).built = .ok output := by
  have exact := FirstSets.exact_ofGrammar wellFormed
  obtain ⟨base, collected⟩ := exists_collect? wellFormed exact .lr0
  obtain ⟨traced, unrolled⟩ :=
    tracedFrom_of_collect? wellFormed unused exact collected
  obtain ⟨table, filled, -⟩ :=
    traced.exists_table wellFormed unused exact deterministic unrolled
  have faithful := traced.faithful wellFormed unused exact unrolled
  have clean := (faithful.decided wellFormed unused exact).eq_none filled
  have decided := decided_byLanes wellFormed unused exact collected fun _ => ends
  rwa [clean] at decided

include wellFormed unused deterministic in
/-- Splitting by clusters leaves no conflicts just if no head is contested. -/
theorem clean_byClusters_iff
    (result : (byLanes limit grammar (.ofGrammar grammar)
      (some .clusters)).built = .ok output) :
    output.table.log.conflicts = #[] ↔ grammar.HeadsUncontested := by
  have exact := FirstSets.exact_ofGrammar wellFormed
  obtain ⟨base, collected, ofTraced⟩ := exists_base_of_byLanes result
  obtain ⟨traced, unrolled⟩ :=
    tracedFrom_of_collect? wellFormed unused exact collected
  obtain ⟨table, tabulated, tells⟩ :=
    traced.exists_table wellFormed unused exact deterministic unrolled
  cases yields_of_ofTraced ofTraced with
  | unsplit filled _ unsplit =>
      cases tabulated.symm.trans filled
      have none := unsplit.resolve_left (Option.some_ne_none _)
      refine iff_of_true ?_ ?_
      · rw [tells.counted] at none
        exact Array.eq_empty_of_size_eq_zero none
      · intro automaton region contended
        exact absurd none (contended.eq collected filled).2.1
  | unaffected filled _ unaffected =>
      cases tabulated.symm.trans filled
      refine iff_of_true ?_ ?_
      · by_contra conflicts
        have affected := traced.isEmpty_region wellFormed unused exact unrolled
          deterministic tells conflicts
        cases unaffected.symm.trans affected
      · intro automaton region contended
        obtain ⟨rfl, -, rfl⟩ := contended.eq collected filled
        cases unaffected.symm.trans contended.affected
  | @split _ _ done filled contested affected divided _ last =>
      cases tabulated.symm.trans filled
      have clean := clean_split_iff wellFormed unused exact deterministic traced
        unrolled tells divided
      constructor
      · intro none automaton region contended
        obtain ⟨rfl, -, rfl⟩ := contended.eq collected filled
        exact clean.mp ⟨output.table, last, none⟩
      · intro uncontested
        have contended : Contended grammar (.ofGrammar grammar) _ _ :=
          ⟨⟨base, collected, rfl⟩, ⟨table, filled, contested, rfl⟩, affected⟩
        obtain ⟨_, again, none⟩ := clean.mpr (uncontested _ _ contended)
        cases last.symm.trans again
        exact none

end Construction

/-- If canonical states yield a table without conflicts, then lane tracing with
splits by clusters, unless it is stopped, yields one just if rivals share no
lookahead in the heads of their lanes. -/
theorem cluster_tracing_precise_iff (accepted : grammar.Accepted)
    (unused : grammar.GoalUnused) {limit : Nat} {options : Options}
    {canonical : Output}
    (result : grammar.generateWithin limit options.canonical = .ok canonical)
    (clean : canonical.table.log.conflicts = #[])
    (ends : grammar.generateWithin limit
      (options.withMode (.laneTracing .clusters)) ≠ .error .unfinished) :
    (∃ output,
        grammar.generateWithin limit
            (options.withMode (.laneTracing .clusters)) = .ok output ∧
          output.table.log.conflicts = #[]) ↔
      grammar.HeadsUncontested := by
  have wellFormed := accepted.wellFormed
  obtain ⟨deterministic, log⟩ :=
    grammar.deterministic_of_canonical wellFormed unused result clean
  obtain ⟨output, built⟩ :=
    Construction.exists_byClusters wellFormed unused deterministic (by
      intro stopped
      apply ends
      change (Construction.byLanes limit grammar (.ofGrammar grammar)
        (some .clusters)).built.bind _ = _
      rw [stopped]
      rfl)
  rw [← Construction.clean_byClusters_iff wellFormed unused deterministic built]
  constructor
  · rintro ⟨other, generated, none⟩
    have same := built.symm.trans (Grammar.built_of_generateWithin generated)
    cases same
    exact none
  · intro none
    obtain ⟨automaton, faithful, filled⟩ := (Construction.faithful_byLanes
      wellFormed unused (FirstSets.exact_ofGrammar wellFormed) built).table
    have empty := Table.log_eq_empty wellFormed faithful.framed
      (faithful.evident.terminated wellFormed) filled none
    exact ⟨output, Grammar.generateWithin_of_log result built rfl
      (empty.trans log.symm), none⟩

end LRTables
