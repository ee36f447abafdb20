import LRTables.Proofs.Traces
import Mathlib.Data.List.Chain

/-!
# Ambiguities found by tracing

A walk along lanes counts the transitions that it undoes.  When it comes back
to a configuration of the path from its root and the count has not grown since,
the cycle lies in one state, so a nonterminal derives itself there while all
else vanishes.
-/

namespace LRTables

namespace Grammar

variable {grammar : Grammar} {outer inner : Nat}

/-- A rule of the one nonterminal begins with the other one, and all that
follows it can vanish. -/
def Fronts (grammar : Grammar) (outer inner : Nat) : Prop :=
  ∃ rule ∈ grammar.rulesOf outer, ∃ rest,
    grammar.right rule = .nonterminal inner :: rest ∧ grammar.Vanishes rest

theorem Fronts.produces (fronts : grammar.Fronts outer inner) :
    Relation.TransGen grammar.Produces [.nonterminal outer]
      [.nonterminal inner] := by
  obtain ⟨rule, member, rest, right, vanishes⟩ := fronts
  obtain ⟨inside, rfl⟩ := mem_rulesOf.mp member
  have step : grammar.Produces [.nonterminal (grammar.left rule)]
      (.nonterminal inner :: rest) := by
    have step := Produces.replace [] [] inside
    rwa [right, List.nil_append, List.nil_append, List.append_nil] at step
  have drop := Derives.within vanishes [.nonterminal inner] []
  simp only [List.singleton_append, List.append_nil] at drop
  exact .head' step drop

theorem derives_of_fronts
    (fronts : Relation.ReflTransGen grammar.Fronts outer inner) :
    grammar.Derives [.nonterminal outer] [.nonterminal inner] := by
  induction fronts with
  | refl => exact Derives.refl _
  | tail _ step ih => exact ih.trans step.produces.to_reflTransGen

end Grammar

/-- The rule is one of the nonterminal and in the state, and begins with a
nonterminal that leads back to it from front to front while all that follows
vanishes. -/
structure Ambiguity.Genuine (grammar : Grammar) (automaton : Automaton)
    (ambiguity : Ambiguity) : Prop where
  rule : ambiguity.rule ∈ grammar.rulesOf ambiguity.nonterminal
  item : { rule := ambiguity.rule, dot := 0 } ∈
    (automaton.state ambiguity.state).items
  cycle : ∃ inner rest,
    grammar.right ambiguity.rule = .nonterminal inner :: rest ∧
      grammar.Vanishes rest ∧
      Relation.ReflTransGen grammar.Fronts inner ambiguity.nonterminal

/-- The nonterminal of a genuine ambiguity derives itself. -/
theorem Ambiguity.Genuine.derives_self {grammar : Grammar}
    {automaton : Automaton} {ambiguity : Ambiguity}
    (genuine : ambiguity.Genuine grammar automaton) :
    Relation.TransGen grammar.Produces
      [.nonterminal ambiguity.nonterminal]
      [.nonterminal ambiguity.nonterminal] := by
  obtain ⟨inner, rest, right, vanishes, back⟩ := genuine.cycle
  have step : grammar.Fronts ambiguity.nonterminal inner :=
    ⟨_, genuine.rule, rest, right, vanishes⟩
  exact step.produces.trans_left (Grammar.derives_of_fronts back)

namespace Automaton

variable {grammar : Grammar} {first : FirstSets} {base : Automaton}
  {count : Place → Nat} {place next source target : Place}

/-- The dot of the item at a place. -/
def dotAt (automaton : Automaton) (place : Place) : Nat :=
  (automaton.configuration place).item.dot

/-- The rule of the item at a place. -/
def leftAt (grammar : Grammar) (automaton : Automaton) (place : Place) : Nat :=
  grammar.left (automaton.configuration place).item.rule

/-- The ambiguity of the rule at a place. -/
def ambiguityAt (grammar : Grammar) (automaton : Automaton) (place : Place) :
    Ambiguity :=
  { state := place.state
    nonterminal := automaton.leftAt grammar place
    rule := (automaton.configuration place).item.rule }

/-- A lane leads from `next` back to `place`, and the count grows when it
undoes a transition. -/
structure StepsTo (grammar : Grammar) (first : FirstSets) (base : Automaton)
    (count : Place → Nat) (place next : Place) : Prop where
  holds : base.Holds next
  target : place ∈ base.laneTargets grammar first next
  count : count place = count next + if 0 < base.dotAt next then 1 else 0

theorem count_le_of_isChain {path : List Place}
    (chain : (place :: path).IsChain (StepsTo grammar first base count))
    (member : target ∈ place :: path) : count target ≤ count place := by
  induction path generalizing place with
  | nil => rw [List.mem_singleton.mp member]
  | cons next rest ih =>
      obtain ⟨step, later⟩ := List.isChain_cons_cons.mp chain
      rcases List.mem_cons.mp member with rfl | below
      · exact Nat.le_refl _
      · have least := ih later below
        have grows := step.count
        omega

section Laned

variable (wellFormed : grammar.WellFormed) (unused : grammar.GoalUnused)
  (exact : first.Exact grammar) (laned : base.Laned grammar)

include wellFormed exact laned

theorem Laned.scans_of_mem_laneTargets (holds : base.Holds place)
    (isStart : base.dotAt place = 0)
    (member : target ∈ base.laneTargets grammar first place) :
    target.state = place.state ∧
      (base.configuration target).item.scanned grammar =
        some (.nonterminal (base.leftAt grammar place)) ∧
      grammar.Vanishes ((base.configuration target).item.tail grammar) := by
  obtain ⟨-, ⟨moved, -⟩ | ⟨-, index, origin, rfl, tail⟩⟩ :=
    mem_laneTargets.mp member
  · rw [dotAt] at isStart
    omega
  · obtain ⟨-, scans⟩ := (laned.sourced place holds isStart index).mp origin
    exact ⟨rfl, scans,
      (exact.vanishes _ (Grammar.declares_tail wellFormed _)).mp tail⟩

include unused

/-- The right-hand side of the rule to which a lane inside a state leads, if
its dot is at the start too. -/
theorem Laned.right_of_mem_laneTargets (holds : base.Holds place)
    (isStart : base.dotAt place = 0)
    (member : target ∈ base.laneTargets grammar first place)
    (atStart : base.dotAt target = 0) :
    target.state = place.state ∧
      { rule := (base.configuration target).item.rule, dot := 0 } ∈
        (base.state target.state).items ∧
      (base.configuration target).item.rule ∈
        grammar.rulesOf (base.leftAt grammar target) ∧
      ∃ rest, grammar.right (base.configuration target).item.rule =
          .nonterminal (base.leftAt grammar place) :: rest ∧
        grammar.Vanishes rest := by
  obtain ⟨sameState, scans, vanishes⟩ :=
    laned.scans_of_mem_laneTargets wellFormed exact holds isStart member
  have targetHolds := laned.holds_target holds member
  obtain ⟨word, leads⟩ := laned.reached target.state targetHolds.1
  have valid := laned.valid wellFormed unused targetHolds leads
  have rest := Item.rest_of_scanned scans
  rw [Item.rest, show (base.configuration target).item.dot = 0 from atStart,
    List.drop_zero] at rest
  refine ⟨sameState, ?_, ?_, _, rest, vanishes⟩
  · rw [← isStart_of_dot atStart]
    exact State.mem_items.mpr ⟨target.index, targetHolds.2, rfl⟩
  · exact Grammar.mem_rulesOf.mpr ⟨valid.rule_lt wellFormed, rfl⟩

/-- A path on which the count stays the same lies in one state, and each of
its nonterminals is at the front of a rule of the one before. -/
theorem Laned.fronts_of_isChain {path : List Place}
    (chain : (source :: path).IsChain (StepsTo grammar first base count))
    (isStart : base.dotAt source = 0) (member : target ∈ source :: path)
    (same : count target = count source) :
    base.dotAt target = 0 ∧ target.state = source.state ∧
      Relation.ReflTransGen grammar.Fronts (base.leftAt grammar source)
        (base.leftAt grammar target) := by
  induction path generalizing source with
  | nil =>
      rw [List.mem_singleton.mp member]
      exact ⟨isStart, rfl, .refl⟩
  | cons next rest ih =>
      obtain ⟨step, later⟩ := List.isChain_cons_cons.mp chain
      rcases List.mem_cons.mp member with rfl | below
      · exact ⟨isStart, rfl, .refl⟩
      · have least := count_le_of_isChain later below
        have grows := step.count
        have nextStart : base.dotAt next = 0 := by
          by_contra moved
          rw [if_pos (Nat.pos_of_ne_zero moved)] at grows
          omega
        rw [nextStart, if_neg (Nat.lt_irrefl 0), Nat.add_zero] at grows
        obtain ⟨targetStart, targetState, fronts⟩ :=
          ih later nextStart below (same.trans grows)
        obtain ⟨sourceState, -, rule, right, begins⟩ :=
          laned.right_of_mem_laneTargets wellFormed unused exact step.holds
            nextStart step.target isStart
        exact ⟨targetStart, targetState.trans sourceState.symm,
          .head ⟨_, rule, right, begins⟩ fronts⟩

theorem Laned.genuine_of_isChain {path : List Place}
    (chain : (source :: path).IsChain (StepsTo grammar first base count))
    (holds : base.Holds source) (isStart : base.dotAt source = 0)
    (member : target ∈ source :: path) (same : count target = count source)
    (closes : target ∈ base.laneTargets grammar first source) :
    (base.ambiguityAt grammar target).Genuine grammar base := by
  obtain ⟨atStart, -, fronts⟩ := laned.fronts_of_isChain wellFormed unused
    exact chain isStart member same
  obtain ⟨-, item, rule, rest, right, vanishes⟩ :=
    laned.right_of_mem_laneTargets wellFormed unused exact holds isStart
      closes atStart
  exact ⟨rule, item, _, rest, right, vanishes, fronts⟩

end Laned

end Automaton

/-- The place that is left when the frame is worked off. -/
def Frame.place? : Frame → Option Place
  | .finish place _ => some place
  | .follow _ => none

/-- The step leads from the place along a lane, and is marked as a crossing if
it undoes a transition. -/
structure LaneEdge.LeadsFrom (grammar : Grammar) (first : FirstSets)
    (base : Automaton) (place : Place) (edge : LaneEdge) : Prop where
  source : edge.source = place
  target : edge.target ∈ base.laneTargets grammar first place
  crossing : edge.crossing = decide (0 < base.dotAt place)

namespace Tracing

variable {grammar : Grammar} {first : FirstSets} {base : Automaton}
  {tracing old new later : Tracing} {place : Place} {frames : List Frame}
  {count : Place → Nat}

/-- The number of transitions undone on the way from the root. -/
def crossingsOf (tracing : Tracing) (place : Place) : Nat :=
  (tracing.visitOf place).crossings

def isActive (tracing : Tracing) (place : Place) : Bool :=
  (tracing.visitOf place).active

/-- The places whose lanes are being followed, latest first. -/
def pathOf (frames : List Frame) : List Place :=
  frames.filterMap Frame.place?

/-- The path of the frames goes along lanes, and the steps that wait lead on
from its latest place. -/
inductive Linked (grammar : Grammar) (first : FirstSets) (base : Automaton)
    (count : Place → Nat) : List Frame → Prop where
  | nil : Linked grammar first base count []
  | finish {place : Place} {parent : Option Place} {frames : List Frame} :
      base.Holds place →
      (place :: pathOf frames).IsChain (base.StepsTo grammar first count) →
      Linked grammar first base count frames →
      Linked grammar first base count (.finish place parent :: frames)
  | follow {place : Place} {edge : LaneEdge} {frames : List Frame} :
      (pathOf frames).head? = some place →
      edge.LeadsFrom grammar first base place →
      Linked grammar first base count frames →
      Linked grammar first base count (.follow edge :: frames)

theorem pathOf_follow (edges : List LaneEdge) :
    pathOf (edges.map .follow ++ frames) = pathOf frames := by
  induction edges with
  | nil => rfl
  | cons edge rest ih => exact ih

namespace Linked

theorem holds (linked : Linked grammar first base count frames)
    (member : place ∈ pathOf frames) : base.Holds place := by
  induction linked with
  | nil => cases member
  | finish own _ _ ih =>
      rcases List.mem_cons.mp member with rfl | below
      · exact own
      · exact ih below
  | follow _ _ _ ih => exact ih member

theorem chain (linked : Linked grammar first base count frames) :
    (pathOf frames).IsChain (base.StepsTo grammar first count) := by
  induction linked with
  | nil => exact .nil
  | finish _ chain _ _ => exact chain
  | follow _ _ _ ih => exact ih

/-- Only the counts on the path matter. -/
theorem congr {other : Place → Nat}
    (linked : Linked grammar first base count frames)
    (same : ∀ place ∈ pathOf frames, other place = count place) :
    Linked grammar first base other frames := by
  have transfer (path : List Place)
      (same : ∀ place ∈ path, other place = count place)
      (chain : path.IsChain (base.StepsTo grammar first count)) :
      path.IsChain (base.StepsTo grammar first other) := by
    induction path with
    | nil => exact .nil
    | cons place rest ih =>
        cases rest with
        | nil => exact .singleton place
        | cons next rest =>
            obtain ⟨step, later⟩ := List.isChain_cons_cons.mp chain
            refine .cons_cons ⟨step.holds, step.target, ?_⟩ (ih
              (fun place member => same place (List.mem_cons_of_mem _ member))
              later)
            rw [same place List.mem_cons_self,
              same next (List.mem_cons_of_mem _ List.mem_cons_self)]
            exact step.count
  induction linked with
  | nil => exact .nil
  | finish holds chain _ ih =>
      exact .finish holds (transfer _ same chain)
        (ih fun place member => same place (List.mem_cons_of_mem _ member))
  | follow head leads _ ih => exact .follow head leads (ih same)

theorem pushAll {edges : List LaneEdge}
    (linked : Linked grammar first base count frames)
    (head : (pathOf frames).head? = some place)
    (lead : ∀ edge ∈ edges, edge.LeadsFrom grammar first base place) :
    Linked grammar first base count (edges.map .follow ++ frames) := by
  induction edges with
  | nil => exact linked
  | cons edge rest ih =>
      have same : (pathOf (rest.map .follow ++ frames)).head? = some place := by
        rw [pathOf_follow rest]
        exact head
      exact .follow same (lead edge List.mem_cons_self)
        (ih fun other later => lead other (List.mem_cons_of_mem _ later))

end Linked

/-- Neither the frames nor the ambiguities change, and all places stay visited,
active and counted as they are. -/
structure Quiet (old new : Tracing) : Prop where
  retraced : old.automaton.Retraced new.automaton
  frames : new.frames = old.frames
  ambiguities : new.ambiguities = old.ambiguities
  crossings : ∀ place, new.crossingsOf place = old.crossingsOf place
  active : ∀ place, new.isActive place = old.isActive place
  visited : ∀ place : Place,
    new.visits[place]?.isSome = old.visits[place]?.isSome

namespace Quiet

theorem trans (before : Quiet old new) (after : Quiet new later) :
    Quiet old later := by
  constructor
  · exact before.retraced.trans after.retraced
  · exact after.frames.trans before.frames
  · exact after.ambiguities.trans before.ambiguities
  · intro place
    exact (after.crossings place).trans (before.crossings place)
  · intro place
    exact (after.active place).trans (before.active place)
  · intro place
    exact (after.visited place).trans (before.visited place)

theorem of_visits_eq (retraced : old.automaton.Retraced new.automaton)
    (frames : new.frames = old.frames)
    (ambiguities : new.ambiguities = old.ambiguities)
    (visits : new.visits = old.visits) : Quiet old new := by
  have same (place : Place) : new.visitOf place = old.visitOf place := by
    rw [visitOf, visits]
    rfl
  constructor
  · exact retraced
  · exact frames
  · exact ambiguities
  · intro place
    rw [crossingsOf, same]
    rfl
  · intro place
    rw [isActive, same]
    rfl
  · intro place
    rw [visits]

theorem refl (tracing : Tracing) : Quiet tracing tracing :=
  .of_visits_eq (.refl _) rfl rfl rfl

end Quiet

theorem quiet_change {change : Configuration → Configuration}
    (relabels : ∀ configuration : Configuration,
      configuration.Relabels (change configuration)) :
    Quiet tracing (tracing.change place change) :=
  .of_visits_eq (change_retraced relabels) rfl rfl rfl

theorem quiet_inherit (place source : Place) :
    Quiet tracing (tracing.inherit place source) :=
  quiet_change fun _ => ⟨rfl, rfl, rfl⟩

theorem visitOf_modify {α : Type} (field : Visit → α)
    (change : Visit → Visit)
    (keeps : ∀ visit, field (change visit) = field visit)
    (place other : Place) :
    field ((tracing.visits.modify place change).getD other default) =
      field (tracing.visitOf other) := by
  rw [visitOf, Std.HashMap.getD_modify]
  by_cases same : place = other
  · subst same
    rw [if_pos (beq_self_eq_true place), Std.HashMap.getD_eq_getD_getElem?]
    cases tracing.visits[place]? with
    | none => rfl
    | some visit => exact keeps visit
  · rw [if_neg (by simpa using same)]

theorem quiet_lower (place : Place) (order : Nat) :
    Quiet tracing (tracing.lower place order) := by
  constructor
  · exact .refl _
  · rfl
  · rfl
  · intro other
    exact visitOf_modify Visit.crossings
      (fun visit => { visit with low := min visit.low order })
      (fun _ => rfl) place other
  · intro other
    exact visitOf_modify Visit.active
      (fun visit => { visit with low := min visit.low order })
      (fun _ => rfl) place other
  · exact fun other => visited_lower

theorem quiet_settle (context : TerminalSet) (member : Place) :
    Quiet tracing (tracing.settle grammar context member) := by
  obtain ⟨visits, frames, -⟩ :=
    @visits_settle grammar tracing context member
  refine .of_visits_eq (retraced_settle context member) frames ?_ visits
  unfold settle shareContext
  dsimp only
  split
  · rfl
  · rfl

theorem quiet_closeComponent (root : Place) (context : TerminalSet)
    (members : List Place) :
    Quiet tracing (tracing.closeComponent grammar root context members) := by
  induction members generalizing tracing with
  | nil => exact .of_visits_eq (.refl _) rfl rfl rfl
  | cons member rest ih =>
      have settled : Quiet tracing (tracing.settle grammar context member) :=
        quiet_settle context member
      rw [closeComponent_cons]
      split
      · exact settled.trans (.of_visits_eq (.refl _) rfl rfl rfl)
      · exact settled.trans ih

/-- The frames are linked, active places are on the path, and all ambiguities
found so far are genuine and different. -/
structure Routed (grammar : Grammar) (first : FirstSets) (base : Automaton)
    (tracing : Tracing) : Prop where
  retraced : base.Retraced tracing.automaton
  linked : Linked grammar first base tracing.crossingsOf tracing.frames
  active : ∀ place, tracing.isActive place = true →
    place ∈ pathOf tracing.frames
  visited : ∀ place ∈ pathOf tracing.frames,
    tracing.visits[place]?.isSome = true
  genuine : ∀ ambiguity ∈ tracing.ambiguities,
    ambiguity.Genuine grammar base
  distinct : tracing.ambiguities.toList.Nodup

theorem routed_begin (base : Automaton) :
    Routed grammar first base (begin base) := by
  constructor
  · exact .refl base
  · exact .nil
  · intro place active
    simp [isActive, visitOf, begin, default] at active
  · intro place none
    cases none
  · intro ambiguity none
    exact absurd none (Array.not_mem_empty ambiguity)
  · exact List.nodup_nil

theorem Routed.quiet (routed : Routed grammar first base old)
    (quiet : Quiet old new) : Routed grammar first base new := by
  constructor
  · exact routed.retraced.trans quiet.retraced
  · rw [quiet.frames]
    exact routed.linked.congr fun place _ => quiet.crossings place
  · intro place
    rw [quiet.frames, quiet.active]
    exact routed.active place
  · intro place member
    rw [quiet.frames] at member
    rw [quiet.visited]
    exact routed.visited place member
  · rw [quiet.ambiguities]
    exact routed.genuine
  · rw [quiet.ambiguities]
    exact routed.distinct

theorem Routed.takeStep (routed : Routed grammar first base tracing)
    {edge : LaneEdge} (waits : tracing.frames = .follow edge :: frames) :
    Routed grammar first base { tracing with frames } ∧
      ∃ place, (pathOf frames).head? = some place ∧
        edge.LeadsFrom grammar first base place := by
  have linked := routed.linked
  have active := routed.active
  have visited := routed.visited
  rw [waits] at linked active visited
  cases linked with
  | follow head leads linked =>
      exact ⟨⟨routed.retraced, linked, active, visited, routed.genuine,
        routed.distinct⟩, _, head, leads⟩

/-- The latest place of the path is left. -/
theorem Routed.leave (routed : Routed grammar first base tracing)
    {parent : Option Place}
    (waits : tracing.frames = .finish place parent :: frames) :
    Routed grammar first base
      (Tracing.leave { tracing with frames } place) := by
  have linked := routed.linked
  have active := routed.active
  have visited := routed.visited
  rw [waits] at linked active visited
  have crossings (other : Place) :
      (Tracing.leave { tracing with frames } place).crossingsOf other =
        tracing.crossingsOf other :=
    visitOf_modify Visit.crossings
      (fun visit => { visit with active := false }) (fun _ => rfl) place other
  constructor
  · exact routed.retraced
  · cases linked with
    | finish _ _ linked => exact linked.congr fun other _ => crossings other
  · intro other isActive
    rw [Tracing.isActive, visitOf, Tracing.leave,
      Std.HashMap.getD_modify] at isActive
    by_cases same : place = other
    · rw [if_pos (by simpa using same)] at isActive
      cases found : tracing.visits[place]? with
      | none => simp [found, default] at isActive
      | some visit => simp [found] at isActive
    · rw [if_neg (by simpa using same)] at isActive
      rcases List.mem_cons.mp (active other isActive) with here | below
      · exact absurd here.symm same
      · exact below
  · intro other member
    have before := visited other (List.mem_cons_of_mem _ member)
    show (tracing.visits.modify place _)[other]?.isSome = true
    rw [Std.HashMap.getElem?_modify]
    split
    · rename_i same
      cases eq_of_beq same
      simpa using before
    · exact before
  · exact routed.genuine
  · exact routed.distinct

theorem Routed.finish (routed : Routed grammar first base tracing)
    {parent : Option Place}
    (waits : tracing.frames = .finish place parent :: frames) :
    Routed grammar first base
      (Tracing.finish grammar { tracing with frames } place parent) := by
  have left := routed.leave waits
  rw [finish_eq]
  generalize Tracing.leave { tracing with frames } place = leaving at left ⊢
  have rested (members : List Place) : Routed grammar first base
      (if leaving.lowOf place = leaving.orderOf place then
        leaving.closeComponent grammar place (leaving.contextOf place) members
      else leaving) := by
    split
    · exact left.quiet (quiet_closeComponent _ _ _)
    · exact left
  cases parent with
  | none => exact rested _
  | some parent =>
      exact (rested _).quiet
        ((quiet_lower parent _).trans (quiet_inherit parent _))

/-- A place is put at the end of the path. -/
theorem Routed.enter (routed : Routed grammar first base tracing)
    (holds : base.Holds place) (fresh : place ∉ pathOf tracing.frames)
    (parent : Option Place) {crossings : Nat}
    (steps : ∀ next ∈ (pathOf tracing.frames).head?,
      place ∈ base.laneTargets grammar first next ∧
        crossings = tracing.crossingsOf next +
          if 0 < base.dotAt next then 1 else 0) :
    Routed grammar first base (tracing.enter place parent crossings) := by
  have visit (other : Place) :
      (tracing.enter place parent crossings).visitOf other =
        if other = place then
          { order := tracing.traced
            low := tracing.traced
            crossings
            active := true }
        else tracing.visitOf other := by
    show (tracing.visits.insert place _).getD other default = _
    rw [Std.HashMap.getD_insert]
    simp only [beq_iff_eq, eq_comm (a := place)]
    rfl
  have same : ∀ other ∈ pathOf tracing.frames,
      (tracing.enter place parent crossings).crossingsOf other =
        tracing.crossingsOf other := by
    intro other member
    have different : other ≠ place := fun equal => fresh (equal ▸ member)
    rw [crossingsOf, visit, if_neg different]
    rfl
  have linked := routed.linked.congr same
  constructor
  · exact routed.retraced.trans (change_retraced fun _ => ⟨rfl, rfl, rfl⟩)
  · refine .finish holds ?_ linked
    have chain := linked.chain
    cases path : pathOf tracing.frames with
    | nil => exact .singleton place
    | cons next rest =>
        rw [path] at chain steps same
        obtain ⟨target, count⟩ := steps next rfl
        refine .cons_cons ⟨?_, target, ?_⟩ chain
        · exact routed.linked.holds (path ▸ List.mem_cons_self)
        · rw [same next List.mem_cons_self, crossingsOf, visit, if_pos rfl]
          exact count
  · intro other active
    rw [isActive, visit] at active
    by_cases equal : other = place
    · exact equal ▸ List.mem_cons_self
    · rw [if_neg equal] at active
      exact List.mem_cons_of_mem _ (routed.active other active)
  · intro other member
    show (tracing.visits.insert place _)[other]?.isSome = true
    rw [Std.HashMap.getElem?_insert]
    split
    · rfl
    · rename_i different
      rcases List.mem_cons.mp member with here | below
      · exact absurd (by simpa using here.symm) different
      · exact routed.visited other below
  · exact routed.genuine
  · exact routed.distinct

theorem quiet_fromOriginators {edges : List LaneEdge} (indices : List Nat) :
    Quiet tracing (indices.foldl (fromOriginator grammar first place)
      (tracing, edges)).1 := by
  induction indices generalizing tracing edges with
  | nil => exact .refl _
  | cons index rest ih =>
      have here : Quiet tracing (fromOriginator grammar first place
          (tracing, edges) index).1 := by
        unfold fromOriginator
        dsimp only
        split
        · exact .refl _
        · exact quiet_change fun _ => ⟨rfl, rfl, rfl⟩
      exact here.trans ih

theorem quiet_lanesOn (place : Place) :
    Quiet tracing (lanesOn grammar first tracing place).1 := by
  unfold lanesOn
  dsimp only
  split
  · exact quiet_change fun _ => ⟨rfl, rfl, rfl⟩
  · split
    · exact .refl _
    · exact quiet_fromOriginators _

/-- The steps that a visit finds lead on along lanes. -/
theorem leadsFrom_lanesOn (retraced : base.Retraced tracing.automaton)
    (holds : base.Holds place) :
    ∀ edge ∈ (lanesOn grammar first tracing place).2,
      edge.LeadsFrom grammar first base place := by
  have held : tracing.automaton.Holds place := retraced.holds_iff.mpr holds
  obtain ⟨-, sources, targets⟩ :=
    @gains_lanesOn grammar first tracing place held
  intro edge member
  have target : edge.target ∈ base.laneTargets grammar first place := by
    rw [← retraced.laneTargets_eq, ← targets]
    exact List.mem_map_of_mem member
  refine ⟨sources edge member, target, ?_⟩
  rw [Automaton.dotAt, ← retraced.item]
  unfold lanesOn at member
  dsimp only at member
  split at member
  · cases member
  · split at member
    · rename_i moved
      obtain ⟨transitor, -, rfl⟩ := List.mem_map.mp member
      exact (decide_eq_true moved).symm
    · rename_i start
      rw [(foldl_fromOriginator held).2, List.nil_append] at member
      obtain ⟨index, -, rfl⟩ := List.mem_map.mp member
      exact (decide_eq_false start).symm

theorem Routed.visit (routed : Routed grammar first base tracing)
    (holds : base.Holds place) (fresh : place ∉ pathOf tracing.frames)
    (parent : Option Place) {crossings : Nat}
    (steps : ∀ next ∈ (pathOf tracing.frames).head?,
      place ∈ base.laneTargets grammar first next ∧
        crossings = tracing.crossingsOf next +
          if 0 < base.dotAt next then 1 else 0) :
    Routed grammar first base
      (tracing.visit grammar first place parent crossings) := by
  have entered := routed.enter holds fresh parent steps
  have onward := @leadsFrom_lanesOn grammar first base _ _ entered.retraced
    holds
  have quiet := @quiet_lanesOn grammar first
    (tracing.enter place parent crossings) place
  have routed := entered.quiet quiet
  rw [visit_eq]
  generalize lanesOn grammar first (tracing.enter place parent crossings)
    place = lanes at onward quiet routed ⊢
  have head : (pathOf lanes.1.frames).head? = some place := by
    rw [quiet.frames]
    rfl
  constructor
  · exact routed.retraced
  · exact routed.linked.pushAll head onward
  · intro other active
    show other ∈ pathOf (lanes.2.map .follow ++ lanes.1.frames)
    rw [pathOf_follow]
    exact routed.active other active
  · intro other member
    change other ∈ pathOf (lanes.2.map .follow ++ lanes.1.frames) at member
    rw [pathOf_follow] at member
    exact routed.visited other member
  · exact routed.genuine
  · exact routed.distinct

theorem Routed.record (routed : Routed grammar first base tracing)
    (genuine : (base.ambiguityAt grammar place).Genuine grammar base) :
    Routed grammar first base (tracing.recordAmbiguity grammar place) := by
  rw [Automaton.ambiguityAt, Automaton.leftAt, ← routed.retraced.item]
    at genuine
  unfold recordAmbiguity
  dsimp only
  split
  · exact routed
  · rename_i new
    obtain ⟨retraced, linked, active, visited, others, distinct⟩ := routed
    refine ⟨retraced, linked, active, visited, ?_, ?_⟩
    · intro ambiguity member
      rcases Array.mem_push.mp member with old | rfl
      · exact others ambiguity old
      · exact genuine
    · show (tracing.ambiguities.push _).toList.Nodup
      rw [Array.toList_push, List.nodup_append]
      refine ⟨distinct, List.nodup_singleton _, ?_⟩
      intro old oldMember other otherMember same
      rw [List.mem_singleton] at otherMember
      subst same otherMember
      exact new (by simpa using oldMember)

section Laned

variable (wellFormed : grammar.WellFormed) (unused : grammar.GoalUnused)
  (exact : first.Exact grammar) (laned : base.Laned grammar)

include wellFormed unused exact laned

/-- A step along a lane keeps the ambiguities genuine. -/
theorem Routed.follow (routed : Routed grammar first base tracing)
    (head : (pathOf tracing.frames).head? = some place) {edge : LaneEdge}
    (leads : edge.LeadsFrom grammar first base place) :
    Routed grammar first base (tracing.follow grammar first edge) := by
  obtain ⟨path, isPath⟩ : ∃ path, pathOf tracing.frames = place :: path :=
    ⟨_, List.eq_cons_of_mem_head? head⟩
  have holds : base.Holds place :=
    routed.linked.holds (isPath ▸ List.mem_cons_self)
  have targetHolds := laned.holds_target holds leads.target
  unfold Tracing.follow
  split
  · exact routed.quiet (quiet_inherit _ _)
  · dsimp only
    rw [leads.source]
    split
    · rename_i unvisited
      apply routed.visit targetHolds
      · intro onPath
        have visited := routed.visited _ onPath
        rw [unvisited] at visited
        cases visited
      · intro next isHead
        rw [head] at isHead
        cases isHead
        refine ⟨leads.target, ?_⟩
        rw [leads.crossing]
        by_cases moved : 0 < base.dotAt place
        · rw [if_pos moved, if_pos (decide_eq_true moved)]
          rfl
        · rw [if_neg moved, if_neg (by simpa using moved)]
          rfl
    · rename_i target found
      have isTarget : tracing.visitOf edge.target = target := by
        rw [visitOf, Std.HashMap.getD_eq_getD_getElem?, found]
        rfl
      refine Routed.quiet ?_ ((quiet_lower _ _).trans (quiet_inherit _ _))
      split
      · rename_i closes
        simp only [Bool.and_eq_true, Bool.not_eq_true', beq_iff_eq] at closes
        obtain ⟨⟨inside, active⟩, same⟩ := closes
        rw [leads.crossing, decide_eq_false_iff_not] at inside
        have onPath := routed.active edge.target (by
          rw [isActive, isTarget, active])
        have chain := routed.linked.chain
        rw [isPath] at chain onPath
        apply routed.record
        apply laned.genuine_of_isChain wellFormed unused exact chain holds
          (Nat.eq_zero_of_not_pos inside) onPath _ leads.target
        rw [crossingsOf, isTarget]
        exact same
      · exact routed

theorem upholds_routed :
    Upholds grammar first base (Routed grammar first base) := by
  constructor
  · intro tracing root idle holds _ routed
    apply routed.visit holds
    · rw [idle.frames]
      exact List.not_mem_nil
    · intro next isHead
      rw [idle.frames] at isHead
      cases isHead
  · intro tracing level rest edge pending walking isFirst routed
    obtain ⟨taken, place, head, leads⟩ :=
      routed.takeStep (walking.frames_follow isFirst)
    exact taken.follow wellFormed unused exact laned head leads
  · intro tracing level rest walking idle routed
    exact routed.finish (walking.frames_finish idle)

end Laned

end Tracing

end LRTables
