import LRTables.Proofs.ChartedRegions
import LRTables.Proofs.ClusterTurns
import LRTables.Proofs.PagerPrecision
import LRTables.Proofs.StateGraphs

/-!
# Tended clusters

A head has all its lookaheads before any cluster grows.  Whatever copy a lane
leads to passes on what is on the lanes when its own turn comes, and it brings
no overlap of rivals that the heads do not have.  So once nothing waits, the
copies have all that is on the lanes.
-/

namespace LRTables

open Automaton Splitting

variable {grammar : Grammar} {first : FirstSets} {base automaton : Automaton}
  {region : Region}

theorem Automaton.TracedFrom.encloses (wellFormed : grammar.WellFormed)
    (unused : grammar.GoalUnused) (exact : first.Exact grammar)
    (traced : TracedFrom grammar first base automaton)
    (faithful : automaton.Faithful grammar first) {number : Nat}
    (inside : number < automaton.size) {state : State}
    (attested : state.Attested grammar)
    (core : state.coreItems = (automaton.state number).coreItems) :
    (automaton.state number).Encloses state := by
  intro item terminal has
  obtain ⟨word, kernel, admits⟩ := attested.context item terminal has
  obtain ⟨front, leads⟩ := traced.exists_leads inside
  exact faithful.hasContext_of_admits wellFormed unused exact traced.apart inside
    (kernel.transfer core.symm) (traced.framed.ascending_coreItems leads) admits

/-- In the heads rivals have a lookahead in common only if after some word they
have one. -/
def Region.Grounded (grammar : Grammar) (region : Region)
    (automaton : Automaton) : Prop :=
  ∀ head ∈ region.heads,
    (automaton.state head).Grounded grammar grammar.Rivals

namespace ClusterSplitting

variable {growing grown : ClusterSplitting} {onLane : Nat → Item → Nat → Prop}

/-- A head has the lookaheads that it had before the split, and there are no
copies of it.  A copy that no cluster has claimed has nothing at its core. -/
structure Stocked (grammar : Grammar) (first : FirstSets) (region : Region)
    (automaton : Automaton) (growing : ClusterSplitting) : Prop where
  kept : growing.Kept grammar first
    (fun state => state.Evident grammar ∧ state.Unrolled grammar) automaton
  localized : Localized region automaton growing.splitting
  claimed : ∀ copy ∈ growing.claimed,
    copy < growing.splitting.automaton.size ∧
      Regional region growing.splitting.automaton copy
  full : ∀ head ∈ region.heads,
    (growing.splitting.automaton.state head).Encloses (automaton.state head)
  single : ∀ copy < growing.splitting.automaton.size,
    growing.splitting.automaton.prototype copy ∈ region.heads →
      growing.splitting.automaton.prototype copy = copy
  blank : ∀ copy < growing.splitting.automaton.size,
    copy ∉ growing.claimed →
      growing.splitting.automaton.prototype copy ∉ region.heads →
        Regional region growing.splitting.automaton copy →
          (growing.splitting.automaton.state copy).Blank
  grounded : region.Grounded grammar automaton →
    ∀ copy < growing.splitting.automaton.size,
      Regional region growing.splitting.automaton copy →
        (growing.splitting.automaton.state copy).Grounded grammar
          grammar.Rivals

section Copies

variable {source target head copy prototype : Nat} {symbol : Symbol}
  (wellFormed : grammar.WellFormed) (unused : grammar.GoalUnused)
  (exact : first.Exact grammar)
  (traced : TracedFrom grammar first base automaton)
  (faithful : automaton.Faithful grammar first)
  (stocked : Stocked grammar first region automaton growing)

include stocked in
theorem Stocked.evident (inside : copy < growing.splitting.automaton.size) :
    (growing.splitting.automaton.state copy).Evident grammar :=
  (stocked.kept.splitting.good copy inside).1

include wellFormed unused exact traced faithful stocked in
theorem Stocked.encloses (inside : copy < growing.splitting.automaton.size) :
    (automaton.state (growing.splitting.automaton.prototype copy)).Encloses
      (growing.splitting.automaton.state copy) :=
  traced.encloses wellFormed unused exact faithful
    (stocked.localized.original copy inside) (stocked.evident inside).attested
    (stocked.localized.sameItems stocked.kept.splitting.intact inside).coreItems

include wellFormed unused exact traced faithful stocked in
/-- Nothing can arrive at a head that it does not have. -/
theorem Stocked.covers_head (isHead : head ∈ region.heads)
    (inside : source < growing.splitting.automaton.size)
    (edge : (automaton.state
        (growing.splitting.automaton.prototype source)).successor? symbol =
      some head)
    (matching : (growing.splitting.automaton.state head).Matches grammar
      ((growing.splitting.automaton.state source).successorCores grammar true
        symbol)) :
    (growing.splitting.automaton.state head).covers
      ((growing.splitting.automaton.state source).successorCores grammar true
        symbol) = true := by
  apply (covers_iff_feeds matching).mpr
  intro item terminal has scans
  obtain ⟨word, leads⟩ :=
    traced.exists_leads (stocked.localized.original source inside)
  have had := stocked.encloses wellFormed unused exact traced faithful inside
    item terminal has
  exact stocked.full head isHead _ _ (faithful.saturated.feeds word _ leads
    symbol head edge item terminal had scans)

include wellFormed unused exact traced stocked in
/-- What fits between copies is a transition between the states themselves. -/
theorem Stocked.edge_of_fits (original : prototype < automaton.size)
    (fits : growing.splitting.automaton.Fits grammar source symbol prototype) :
    (automaton.state
        (growing.splitting.automaton.prototype source)).successor? symbol =
      some prototype := by
  have intact := stocked.kept.splitting.intact
  have sourceItems := stocked.localized.sameItems intact fits.source_lt
  have sourceOriginal := stocked.localized.original source fits.source_lt
  obtain ⟨next, found⟩ := (traced.intact wellFormed unused exact).whole _
    sourceOriginal symbol (sourceItems.mem_scannedSymbols.mp fits.scans)
  have same : next = prototype := by
    apply traced.apart next (traced.framed.bounded _ _ _ found) prototype
      original
    calc (automaton.state next).coreItems
      _ = (automaton.state
            (growing.splitting.automaton.prototype source)).successorItems
              grammar symbol := traced.framed.edges _ _ _ found
      _ = (growing.splitting.automaton.state source).successorItems grammar
            symbol := sourceItems.successorItems.symm
      _ = (growing.splitting.automaton.state prototype).coreItems :=
            fits.core.symm
      _ = (automaton.state prototype).coreItems :=
            (stocked.kept.splitting.enlarges.sameItems prototype
              original).coreItems
  exact same ▸ found

section Charts

variable (charts : region.Charts grammar automaton onLane)

include wellFormed unused exact traced faithful stocked charts in
/-- What is on a lane in a copy without lookaheads at its core is generated
there, so that the copy is a head. -/
theorem Stocked.mem_heads_of_blank
    (inside : copy < growing.splitting.automaton.size)
    (blank : (growing.splitting.automaton.state copy).Blank) {item : Item}
    {terminal : Nat}
    (has : (growing.splitting.automaton.state copy).HasContext item terminal)
    (laned : onLane (growing.splitting.automaton.prototype copy) item
      terminal) :
    growing.splitting.automaton.prototype copy ∈ region.heads := by
  have intact := stocked.kept.splitting.intact
  have regular := intact.framed.regular copy inside
  have closed := intact.closed copy inside
  have snug := (stocked.evident inside).snug
  have carries := snug item terminal has
  clear has
  induction carries with
  | kernel member inContext =>
      rw [blank _ member _ inContext] at laned
      exact charts.goal _ _ laned
  | generated spreads scans member begins =>
      refine charts.generated _ _ _ _ _ ?_ scans member begins laned
      rw [← (stocked.localized.sameItems intact inside).items]
      exact (regular.mem_items closed.itemsClosed).mpr spreads
  | inherited carries scans member vanishes ih =>
      have has := (snug.hasContext_iff wellFormed exact closed).mpr carries
      exact ih (charts.handed _ _ _ _ (.intro scans member vanishes)
        (stocked.encloses wellFormed unused exact traced faithful inside _ _
          has) laned)

include wellFormed unused exact traced faithful stocked charts in
theorem Stocked.onward
    (edge : (growing.splitting.automaton.state source).successor? symbol =
      some target) {item : Item} {terminal : Nat}
    (scans : item.scanned grammar = some symbol)
    (has : (growing.splitting.automaton.state source).HasContext item terminal)
    (laned : onLane (growing.splitting.automaton.prototype target) item.advance
      terminal) :
    onLane (growing.splitting.automaton.prototype source) item terminal ∧
      growing.splitting.automaton.prototype target ∈
        region.onwardFrom (growing.splitting.automaton.prototype source) :=
  charts.onward _ symbol _ item terminal
    (stocked.localized.edge_prototype traced stocked.kept.splitting.intact edge)
    scans
    (stocked.encloses wellFormed unused exact traced faithful
      (lt_size_of_successor edge) item terminal has) laned

end Charts

end Copies

section Taking

variable {source target prototype : Nat} {symbol : Symbol}
  {splitting : Splitting} (wellFormed : grammar.WellFormed)
  (unused : grammar.GoalUnused) (exact : first.Exact grammar)
  (traced : TracedFrom grammar first base automaton)
  (faithful : automaton.Faithful grammar first)
  (stocked : Stocked grammar first region automaton growing)
  (ready : Ready grammar automaton growing.splitting.automaton source
    prototype)
  (entry : (growing.splitting.automaton.state prototype).entry = some symbol)
  (edge : (automaton.state
      (growing.splitting.automaton.prototype source)).successor? symbol =
    some prototype)
  (contained : region.contains prototype = true)
  (choice : choose grammar first region growing prototype
      ((growing.splitting.automaton.state source).successorCores grammar true
        symbol) = (target, splitting))
  (heads : region.Grounded grammar automaton)

include wellFormed unused exact traced faithful stocked ready entry edge
  contained choice heads

/-- The copy that is chosen has what arrives, can take it in without a new
overlap, or has nothing yet. -/
theorem Stocked.takes :
    (splitting.automaton.state target).Grounded grammar grammar.Rivals ∧
      ((splitting.automaton.state target).covers
          ((growing.splitting.automaton.state source).successorCores grammar
            true symbol) = true ∨
        (splitting.automaton.state target).canJoin
            (region.terminalsAt prototype)
            ((growing.splitting.automaton.state source).successorCores grammar
              true symbol) = true ∨
        (splitting.automaton.state target).Blank) := by
  have kept := stocked.kept
  have fits := ready.fits symbol entry
  have sustains := (sustains_evident wellFormed unused exact False).unrolled
  have chosen := chosen_choose wellFormed unused exact sustains kept
    ready.inside ready.original fits choice
  rcases choose_cases choice with ⟨rfl, among, takes⟩ | ⟨rfl, rfl, -⟩
  · obtain ⟨inside, same⟩ := kept.copy_of_among ready.inside among
    have regional : Regional region growing.splitting.automaton target := by
      rw [Regional, same]
      exact contained
    refine ⟨stocked.grounded heads target inside regional, ?_⟩
    rcases takes with covers | joins | free
    · exact Or.inl covers
    · exact Or.inr (Or.inl joins)
    · by_cases isHead : prototype ∈ region.heads
      · have isTarget : prototype = target :=
          same ▸ stocked.single target inside (same.symm ▸ isHead)
        subst isTarget
        exact Or.inl (stocked.covers_head wellFormed unused exact traced
          faithful isHead fits.source_lt edge
          (fits.matching kept.splitting.intact.framed))
      · exact Or.inr (Or.inr
          (stocked.blank target inside free (same ▸ isHead) regional))
  · have moved := (chosen.fits fits ready.original).moved
    have blank : State.Blank _ := fun item core terminal has =>
      absurd has (kept.splitting.blank_clone wellFormed unused fits.target_lt
        moved item core terminal)
    have evident := (chosen.kept.good _ chosen.target_lt).1
    exact ⟨blank.grounded (Grammar.hereditary_rivals grammar) evident,
      Or.inr (Or.inr blank)⟩

/-- Once it has taken in what arrives, it has no overlap of rivals that no
single word brings. -/
theorem Stocked.grounded_taken
    (charts : region.Charts grammar automaton onLane)
    (regional : Regional region growing.splitting.automaton source) :
    ((splitting.automaton.absorb grammar first target
        ((growing.splitting.automaton.state source).successorCores grammar true
          symbol)).1.state target).Grounded grammar grammar.Rivals := by
  obtain ⟨grounded, takes⟩ := stocked.takes wellFormed unused exact traced
    faithful ready entry edge contained choice heads
  have kept := stocked.kept
  have framed := kept.splitting.intact.framed
  have fits := ready.fits symbol entry
  have sustains := (sustains_evident wellFormed unused exact False).unrolled
  have chosen := chosen_choose wellFormed unused exact sustains kept
    ready.inside ready.original fits choice
  have matching := chosen.matching fits ready.original
  cases covers : (splitting.automaton.state target).covers
      ((growing.splitting.automaton.state source).successorCores grammar true
        symbol) with
  | true => rwa [absorb_of_covers covers]
  | false =>
      have joined := chosen.kept.joined wellFormed unused exact sustains
        chosen.target_lt matching
      obtain ⟨-, -, all, -⟩ := chosen.take wellFormed unused exact sustains
        kept.splitting fits ready.original Prod.mk.eta.symm
      have evident := (all target (size_absorb.symm ▸ chosen.target_lt)).1
      rw [absorb_of_not_covers covers, state_modify_self chosen.target_lt]
        at evident ⊢
      have original := kept.splitting.enlarges.sameItems prototype ready.inside
      have encloses := traced.encloses wellFormed unused exact faithful
        ready.inside evident.attested
        (joined.sameItems.coreItems.trans (matching.items.trans
          ((fits.matching framed).items.symm.trans original.coreItems)))
      obtain ⟨word, leads⟩ := traced.exists_leads ready.inside
      refine joined.grounded_of_canJoin wellFormed unused
        (Grammar.hereditary_rivals grammar) matching
        (takes.resolve_left (by rw [covers]; exact Bool.false_ne_true))
        (chosen.fits fits ready.original).moved ?_
        (framed.regular source fits.source_lt)
        (framed.closed source fits.source_lt)
        (stocked.grounded heads source fits.source_lt regional)
        evident.attested grounded
      -- Whatever rivals share is on a lane.
      intro here there rivals terminal hasHere hasThere
      exact charts.terminals _ _ _ (charts.rivals here there terminal rivals
        word prototype leads (encloses here terminal hasHere)
        (encloses there terminal hasThere)).1

end Taking

/-- What is on the lanes along a transition goes to a claimed copy that has
it. -/
def Passes (grammar : Grammar) (onLane : Nat → Item → Nat → Prop)
    (growing : ClusterSplitting) (source : Nat) (symbol : Symbol)
    (target : Nat) : Prop :=
  ∀ item terminal, item.scanned grammar = some symbol →
    onLane (growing.splitting.automaton.prototype target) item.advance
        terminal →
      (growing.splitting.automaton.state source).HasContext item terminal →
        target ∈ growing.claimed ∧
          (growing.splitting.automaton.state target).HasContext item.advance
            terminal

/-- A claimed copy waits or passes on what is on the lanes, except that of the
state whose turn it is some lanes remain.  A head whose turn has not come need
not. -/
structure Tended (grammar : Grammar) (first : FirstSets) (region : Region)
    (automaton : Automaton) (onLane : Nat → Item → Nat → Prop) (number : Nat)
    (remaining : List Nat) (growing : ClusterSplitting) : Prop extends
    Stocked grammar first region automaton growing where
  waiting : ∀ copy ∈ growing.queue.waiting, copy ∈ growing.claimed
  processed : ∀ head ∈ region.heads, head ∈ growing.processed →
    head ∈ growing.claimed
  passes : ∀ source ∈ growing.claimed, source ∉ growing.queue.waiting →
    (growing.splitting.automaton.prototype source ∈ region.heads →
      growing.splitting.automaton.prototype source ∈ growing.processed) →
    ∀ symbol target,
      (growing.splitting.automaton.state source).successor? symbol =
          some target →
        (source = number →
          growing.splitting.automaton.prototype target ∉ remaining) →
          growing.Passes grammar onLane source symbol target

section Following

variable {source target prototype number : Nat} {remaining : List Nat}
  {symbol : Symbol} (wellFormed : grammar.WellFormed)
  (unused : grammar.GoalUnused) (exact : first.Exact grammar)
  (traced : TracedFrom grammar first base automaton)
  (faithful : automaton.Faithful grammar first)

include wellFormed unused exact traced faithful in
/-- Only the chosen copy changes. -/
theorem Stocked.follow
    (charts : region.Charts grammar automaton onLane)
    (stocked : Stocked grammar first region automaton growing)
    (follows : Follows grammar source symbol prototype target growing grown)
    (ready : Ready grammar automaton growing.splitting.automaton source
      prototype)
    (fits : growing.splitting.automaton.Fits grammar source symbol prototype)
    (contained : region.contains prototype = true)
    (kept : grown.Kept grammar first
      (fun state => state.Evident grammar ∧ state.Unrolled grammar) automaton)
    (localized : Localized region automaton grown.splitting)
    (grounded : region.Grounded grammar automaton →
      (grown.splitting.automaton.state target).Grounded grammar
        grammar.Rivals) :
    Stocked grammar first region automaton grown := by
  have prototypes := follows.enlarges.prototype
  have isRegional {copy : Nat}
      (inside : copy < growing.splitting.automaton.size) :
      Regional region grown.splitting.automaton copy ↔
        Regional region growing.splitting.automaton copy := by
    rw [Regional, Regional, prototypes copy inside]
  have old {copy : Nat} (inside : copy < grown.splitting.automaton.size)
      (different : copy ≠ target) :
      copy < growing.splitting.automaton.size :=
    (follows.known copy inside).resolve_right fun isNew => different isNew.1
  constructor
  · exact kept
  · exact localized
  · intro copy member
    rcases (follows.claimed copy).mp member with before | rfl
    · obtain ⟨inside, regional⟩ := stocked.claimed copy before
      exact ⟨Nat.lt_of_lt_of_le inside follows.enlarges.size_le,
        (isRegional inside).mpr regional⟩
    · refine ⟨follows.target_lt, ?_⟩
      rw [Regional, follows.isCopy]
      exact contained
  · intro head isHead item terminal has
    have inside := Nat.lt_of_lt_of_le (charts.heads head isHead).1
      stocked.kept.splitting.enlarges.size_le
    exact follows.grows head inside item terminal
      (stocked.full head isHead item terminal has)
  · intro copy inside isHead
    rcases follows.known copy inside with before | ⟨rfl, lacking⟩
    · rw [prototypes copy before] at isHead ⊢
      exact stocked.single copy before isHead
    · -- A new copy of a head would lack something that the head has.
      rw [follows.isCopy] at isHead
      have headInside := Nat.lt_of_lt_of_le ready.inside
        stocked.kept.splitting.enlarges.size_le
      have enlisted := stocked.localized.enlisted prototype headInside (by
        rw [Regional, ready.original]
        exact contained)
      rw [ready.original] at enlisted
      have covers := stocked.covers_head wellFormed unused exact traced faithful
        isHead fits.source_lt
        (stocked.edge_of_fits wellFormed unused exact traced ready.inside fits)
        (fits.matching stocked.kept.splitting.intact.framed)
      rw [lacking prototype enlisted] at covers
      cases covers
  · intro copy inside unclaimed notHead regional
    rw [follows.claimed, not_or] at unclaimed
    have before := old inside unclaimed.2
    rw [prototypes copy before] at notHead
    exact (stocked.blank copy before unclaimed.1 notHead
      ((isRegional before).mp regional)).alike
        (follows.others copy before unclaimed.2)
  · intro heads copy inside regional
    by_cases isTarget : copy = target
    · exact isTarget ▸ grounded heads
    · have before := old inside isTarget
      exact (stocked.grounded heads copy before
        ((isRegional before).mp regional)).alike
          (follows.others copy before isTarget)

include wellFormed unused exact traced faithful in
/-- A copy that has something of a lane is claimed, unless it is a head whose
turn has not come. -/
theorem Tended.mem_claimed (charts : region.Charts grammar automaton onLane)
    (tended : Tended grammar first region automaton onLane number remaining
      growing)
    (inside : source < growing.splitting.automaton.size)
    (regional : Regional region growing.splitting.automaton source)
    (begun : growing.splitting.automaton.prototype source ∈ region.heads →
      growing.splitting.automaton.prototype source ∈ growing.processed)
    {item : Item} {terminal : Nat}
    (has : (growing.splitting.automaton.state source).HasContext item terminal)
    (laned : onLane (growing.splitting.automaton.prototype source) item
      terminal) :
    source ∈ growing.claimed := by
  by_contra fresh
  have isHead : growing.splitting.automaton.prototype source ∈
      region.heads := by
    by_contra notHead
    exact notHead (tended.mem_heads_of_blank wellFormed unused exact traced
      faithful charts inside (tended.blank source inside fresh notHead regional)
      has laned)
  have same := tended.single source inside isHead
  exact fresh (same ▸ tended.processed _ isHead (begun isHead))

include wellFormed unused exact traced faithful in
/-- Once a lane has been followed, the chosen copy has what is on it and waits,
unless it was as it is before. -/
theorem Tended.follow
    (charts : region.Charts grammar automaton onLane)
    (tended : Tended grammar first region automaton onLane number
      (prototype :: remaining) growing)
    (follows : Follows grammar number symbol prototype target growing grown)
    (stocked : Stocked grammar first region automaton grown) :
    Tended grammar first region automaton onLane number remaining grown := by
  have prototypes := follows.enlarges.prototype
  constructor
  · exact stocked
  · intro copy waits
    apply (follows.claimed copy).mpr
    exact (follows.waited copy waits).imp_left (tended.waiting copy)
  · intro head isHead isProcessed
    rw [follows.processed] at isProcessed
    exact (follows.claimed head).mpr
      (Or.inl (tended.processed head isHead isProcessed))
  · intro source isClaimed rests begun scanned next edge followed item terminal
      scans laned has
    -- A state that does not wait has changed its transitions only.
    obtain ⟨before, alike⟩ : source < growing.splitting.automaton.size ∧
        (growing.splitting.automaton.state source).Alike
          (grown.splitting.automaton.state source) := by
      by_cases isTarget : source = target
      · exact isTarget ▸ follows.quiet (isTarget ▸ rests)
      · have old := ((follows.claimed source).mp isClaimed).resolve_right
          isTarget
        have inside := (tended.claimed source old).1
        exact ⟨inside, follows.others source inside isTarget⟩
    have had := alike.hasContext_iff.mp has
    have led := edge
    rw [follows.edges source before] at led
    split at led
    · rename_i own
      obtain ⟨rfl, rfl⟩ := own
      cases led
      exact ⟨(follows.claimed target).mpr (Or.inr rfl),
        follows.arrived item terminal had scans⟩
    · rename_i other
      have nextInside :=
        tended.kept.splitting.intact.framed.bounded _ _ _ led
      rw [prototypes next nextInside] at laned followed
      rw [prototypes source before, follows.processed] at begun
      have regional := (stocked.claimed source isClaimed).2
      rw [Regional, prototypes source before] at regional
      have old := tended.mem_claimed wellFormed unused exact traced faithful
        charts before regional begun had (tended.onward wellFormed unused exact
          traced faithful charts led scans had laned).1
      have another : source = number →
          growing.splitting.automaton.prototype next ≠ prototype := by
        rintro rfl isPrototype
        refine other ⟨rfl, ?_⟩
        have found := tended.localized.edge_prototype traced
          tended.kept.splitting.intact led
        have new := follows.edges source before symbol
        rw [if_pos ⟨rfl, rfl⟩] at new
        have chosen := stocked.localized.edge_prototype traced
          stocked.kept.splitting.intact new
        rw [prototypes source before, follows.isCopy, ← isPrototype] at chosen
        exact traced.framed.symbol_unique found chosen
      have passed := tended.passes source old
        (fun waits => rests (follows.waits source waits)) begun scanned next
        led (fun isNumber remains => (List.mem_cons.mp remains).elim
          (another isNumber) (followed isNumber))
        item terminal scans laned had
      exact ⟨(follows.claimed next).mpr (Or.inl passed.1),
        follows.grows next nextInside _ _ passed.2⟩

variable (charts : region.Charts grammar automaton onLane)

include wellFormed unused exact traced faithful charts in
theorem Tended.followLane
    (tended : Tended grammar first region automaton onLane number
      (prototype :: remaining) growing)
    (ready : Ready grammar automaton growing.splitting.automaton number
      prototype)
    (member : number ∈ growing.claimed) :
    Tended grammar first region automaton onLane number remaining
        (ClusterSplitting.followLane grammar first region number growing
          prototype) ∧
      number ∈ (ClusterSplitting.followLane grammar first region number growing
        prototype).claimed := by
  have sustains := (sustains_evident wellFormed unused exact False).unrolled
  have kept := tended.kept
  obtain ⟨followed, -⟩ := @kept_followLane grammar first automaton region
    growing _ wellFormed unused exact sustains number prototype kept ready
  have localized := (@steps_followLane grammar first automaton region growing
    _ wellFormed unused exact sustains number prototype kept
    ready).localized tended.localized
  rcases @followLane_cases grammar first region growing number prototype with
    ⟨same, missing⟩ | ⟨symbol, current, target, splitting, entry, edge,
      contained, choice, next⟩
  · rw [same]
    refine ⟨?_, member⟩
    constructor
    · exact tended.toStocked
    · exact tended.waiting
    · exact tended.processed
    · intro source isClaimed rests begun symbol target edge others item terminal
        scans laned
      refine tended.passes source isClaimed rests begun symbol target edge
        (fun isNumber remains => ?_) item terminal scans laned
      refine (List.mem_cons.mp remains).elim ?_ (others isNumber)
      -- There is a transition, so that the lane is not left out.
      intro isPrototype
      subst isNumber
      have found := tended.localized.edge_prototype traced
        kept.splitting.intact edge
      have entry := traced.framed.entry_eq traced.entered found
      rw [isPrototype] at laned entry
      rw [← (kept.splitting.enlarges.sameItems prototype ready.inside).entry]
        at entry
      have none := missing (charts.states _ _ _ laned) symbol entry
      rw [edge] at none
      cases none
  · have follows := follows_followLane wellFormed unused exact sustains kept
      ready entry edge choice next
    have fits := ready.fits symbol entry
    have grounded := fun heads => tended.grounded_taken wellFormed unused exact
      traced faithful ready entry
      (tended.edge_of_fits wellFormed unused exact traced ready.inside fits)
      contained choice heads charts (tended.claimed number member).2
    have alike := (rewired_led
      (taken grammar first splitting target
        ((growing.splitting.automaton.state number).successorCores grammar true
          symbol)) number symbol current target).alike target
    replace next := congrArg ClusterSplitting.splitting next
    dsimp only at next
    rw [← next] at alike
    have stocked := tended.toStocked.follow wellFormed unused exact traced
      faithful charts follows ready fits contained followed localized
      (fun heads => (grounded heads).alike alike)
    exact ⟨tended.follow wellFormed unused exact traced faithful charts follows
        stocked, (follows.claimed number).mpr (Or.inl member)⟩

include wellFormed unused exact traced faithful charts in
theorem Tended.followEach {prototypes : List Nat}
    (tended : Tended grammar first region automaton onLane number prototypes
      growing)
    (ready : ∀ prototype ∈ prototypes,
      Ready grammar automaton growing.splitting.automaton number prototype)
    (member : number ∈ growing.claimed) :
    Tended grammar first region automaton onLane number []
      (prototypes.foldl (ClusterSplitting.followLane grammar first region
        number) growing) := by
  induction prototypes generalizing growing with
  | nil => exact tended
  | cons prototype rest ih =>
      have sustains := (sustains_evident wellFormed unused exact False).unrolled
      have own := ready prototype List.mem_cons_self
      obtain ⟨-, enlarges⟩ := @kept_followLane grammar first automaton region
        growing _ wellFormed unused exact sustains number prototype tended.kept
        own
      obtain ⟨next, still⟩ := tended.followLane wellFormed unused exact traced
        faithful charts own member
      exact ih next (fun other later => (ready other (List.mem_cons_of_mem _
        later)).enlarge tended.kept.splitting.enlarges enlarges) still

end Following

section Turns

variable {number : Nat} (wellFormed : grammar.WellFormed)
  (unused : grammar.GoalUnused) (exact : first.Exact grammar)
  (traced : TracedFrom grammar first base automaton)
  (faithful : automaton.Faithful grammar first)
  (charts : region.Charts grammar automaton onLane)
  (genuine : region.Genuine grammar automaton)

theorem Tended.rest {other : Nat}
    (tended : Tended grammar first region automaton onLane number [] growing) :
    Tended grammar first region automaton onLane other [] growing := by
  refine ⟨tended.toStocked, tended.waiting, tended.processed, ?_⟩
  intro source isClaimed rests begun symbol target edge _
  exact tended.passes source isClaimed rests begun symbol target edge
    fun _ => List.not_mem_nil

include wellFormed unused exact traced faithful charts in
/-- The state whose turn it is has all its lanes before it. -/
theorem Tended.takeTurn {queue : WorkQueue Nat}
    (tended : Tended grammar first region automaton onLane number [] growing)
    (waiting : growing.queue.waiting = number :: queue.waiting) :
    Tended grammar first region automaton onLane number
      (region.onwardFrom (growing.splitting.automaton.prototype number))
      { growing with
        queue
        processed := Ordered.insert growing.processed
          (growing.splitting.automaton.prototype number) } := by
  have single {copy : Nat} (isClaimed : copy ∈ growing.claimed) :=
    tended.single copy (tended.claimed copy isClaimed).1
  have isClaimed : number ∈ growing.claimed :=
    tended.waiting number (waiting ▸ List.mem_cons_self)
  constructor
  · exact ⟨⟨tended.kept.splitting, tended.kept.cluster⟩, tended.localized,
      tended.claimed, tended.full, tended.single, tended.blank,
      tended.grounded⟩
  · intro copy waits
    exact tended.waiting copy (waiting ▸ List.mem_cons_of_mem _ waits)
  · intro head isHead isProcessed
    rcases Ordered.mem_insert.mp isProcessed with before | rfl
    · exact tended.processed head isHead before
    · exact (single isClaimed isHead).symm ▸ isClaimed
  · intro source sourceClaimed rests begun symbol target edge others item
      terminal scans laned has
    by_cases isNumber : source = number
    · subst isNumber
      exact absurd (tended.onward wellFormed unused exact traced faithful charts
        edge scans has laned).2 (others rfl)
    · refine tended.passes source sourceClaimed ?_ ?_ symbol target edge
        (fun _ => List.not_mem_nil) item terminal scans laned has
      · rw [waiting, List.mem_cons, not_or]
        exact ⟨isNumber, rests⟩
      · intro isHead
        rcases Ordered.mem_insert.mp (begun isHead) with before | same
        · exact before
        · have sourceSame := single sourceClaimed isHead
          have numberSame := single isClaimed (same ▸ isHead)
          exact absurd (sourceSame.symm.trans (same.trans numberSame)) isNumber

include wellFormed unused exact traced faithful charts genuine in
theorem Tended.turn
    (tended : Tended grammar first region automaton onLane number [] growing) :
    Tended grammar first region automaton onLane number []
      (ClusterSplitting.turn grammar first region growing) := by
  rw [ClusterSplitting.turn]
  split
  · exact tended
  · rename_i popped queue found
    have waiting := WorkQueue.waiting_of_pop found
    have isClaimed : popped ∈ growing.claimed :=
      tended.waiting popped (waiting ▸ List.mem_cons_self)
    obtain ⟨inside, regional⟩ := tended.claimed popped isClaimed
    have turned := tended.rest.takeTurn wellFormed unused exact traced faithful
      charts waiting
    rw [Regional] at regional
    rw [followLanes]
    dsimp only
    rw [if_pos regional]
    refine (turned.followEach wellFormed unused exact traced faithful charts ?_
      isClaimed).rest
    intro prototype onward
    exact ready_of_genuine genuine tended.kept inside onward

include traced charts genuine in
/-- A cluster grows from a head when nothing else waits. -/
theorem Tended.startAt {head : Nat}
    (tended : Tended grammar first region automaton onLane number [] growing)
    (served : growing.queue.waiting = []) (isHead : head ∈ region.heads) :
    Tended grammar first region automaton onLane number []
      { growing with
        claimed := Ordered.insert growing.claimed head
        cluster := [(head, head)]
        queue := WorkQueue.empty.push head } := by
  obtain ⟨original, contained⟩ := charts.heads head isHead
  have enlarges := tended.kept.splitting.enlarges
  have waits {copy : Nat} :
      copy ∈ (WorkQueue.empty.push head).waiting ↔ copy = head := by
    simp [WorkQueue.mem_push, WorkQueue.empty]
  constructor
  · refine ⟨tended.kept.startAt genuine head _ _, tended.localized, ?_,
      tended.full, tended.single, ?_, tended.grounded⟩
    · intro copy member
      rcases Ordered.mem_insert.mp member with before | rfl
      · exact tended.claimed copy before
      · refine ⟨Nat.lt_of_lt_of_le original enlarges.size_le, ?_⟩
        rw [Regional, enlarges.prototype copy original,
          traced.prototype_eq original]
        exact contained
    · intro copy inside unclaimed
      rw [Ordered.mem_insert, not_or] at unclaimed
      exact tended.blank copy inside unclaimed.1
  · intro copy isWaiting
    exact Ordered.mem_insert.mpr (Or.inr (waits.mp isWaiting))
  · intro other otherHead isProcessed
    exact Ordered.mem_insert.mpr
      (Or.inl (tended.processed other otherHead isProcessed))
  · intro source isClaimed rests begun symbol target edge others item terminal
      scans laned has
    rw [waits] at rests
    have before := (Ordered.mem_insert.mp isClaimed).resolve_right rests
    obtain ⟨member, passed⟩ := tended.passes source before
      (served ▸ List.not_mem_nil) begun symbol target edge others item terminal
      scans laned has
    exact ⟨Ordered.mem_insert.mpr (Or.inl member), passed⟩

end Turns

end ClusterSplitting

end LRTables
