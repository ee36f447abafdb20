import LRTables.Automaton.Links
import LRTables.Automaton.Text
import LRTables.FirstSets
import Std.Data.HashMap

/-!
# Tracing lanes

The context of a configuration is the union of

* the contexts of its transitors, when its dot is past the start, or
* for each originator, the terminals that can begin the tail after the scanned
  nonterminal, and the context of the originator when that tail can vanish.

The lanes that lead backward from a configuration may form cycles.  Tracing
walks them depth first: `lane` holds the configurations whose context is not
final yet and `frames` the work that is left.  A configuration that reaches no
earlier one of the lane closes a component, and all its members share one
context.
-/

namespace LRTables

open Std

/-- A nonterminal of a state that derives itself while all else vanishes. -/
structure Ambiguity where
  state : Nat
  nonterminal : Nat
  rule : Nat
  deriving DecidableEq

namespace Ambiguity

def text (grammar : Grammar) (ambiguity : Ambiguity) : String :=
  "state " ++ twoDigits ambiguity.state ++ ": " ++
    grammar.nonterminalText ambiguity.nonterminal ++
    " derives itself through (" ++ grammar.ruleText ambiguity.rule ++ ")"

end Ambiguity

/-- A step backward along a lane. -/
structure LaneEdge where
  source : Place
  target : Place
  /-- Whether the step undoes a transition and so leaves the state. -/
  crossing : Bool
  deriving DecidableEq

inductive Frame where
  /-- All lanes from the configuration have been followed. -/
  | finish (place : Place) (parent : Option Place)
  | follow (edge : LaneEdge)
  deriving DecidableEq

/-- What the walk knows about a configuration that it has visited. -/
structure Visit where
  /-- The number of configurations visited before. -/
  order : Nat
  /-- The least order known to be reachable. -/
  low : Nat
  /-- The number of crossing steps from the root. -/
  crossings : Nat
  /-- Whether the lanes from here are still being followed. -/
  active : Bool
  deriving DecidableEq

instance : Inhabited Visit :=
  ⟨{ order := 0
     low := 0
     crossings := 0
     active := false }⟩

/-- The state of the walk. -/
structure Tracing where
  automaton : Automaton
  /-- Configurations without a final context, latest first. -/
  lane : List Place
  /-- Work that is left, next first. -/
  frames : List Frame
  visits : HashMap Place Visit
  ambiguities : Array Ambiguity
  /-- The number of configurations visited. -/
  traced : Nat

namespace Tracing

def begin (automaton : Automaton) : Tracing :=
  { automaton
    lane := []
    frames := []
    visits := ∅
    ambiguities := #[]
    traced := 0 }

def visitOf (tracing : Tracing) (place : Place) : Visit :=
  tracing.visits.getD place default

def isComplete (tracing : Tracing) (place : Place) : Bool :=
  (tracing.automaton.configuration place).marks.complete

def change (tracing : Tracing) (place : Place)
    (change : Configuration → Configuration) : Tracing :=
  { tracing with
    automaton := tracing.automaton.modifyConfiguration place change }

/-- Add lookaheads that are generated at a configuration. -/
def generate (tracing : Tracing) (place : Place) (heads : TerminalSet) :
    Tracing :=
  tracing.change place fun configuration =>
    { configuration with
      context := configuration.context ∪ heads
      marks := { configuration.marks with laneEnd := true } }

/-- Add the context of `source` to that of `place`. -/
def inherit (tracing : Tracing) (place source : Place) : Tracing :=
  let context := tracing.automaton.context source
  tracing.change place fun configuration =>
    { configuration with context := configuration.context ∪ context }

/-- Note that `place` reaches a configuration of the given order. -/
def lower (tracing : Tracing) (place : Place) (order : Nat) : Tracing :=
  { tracing with
    visits := tracing.visits.modify place fun visit =>
      { visit with low := min visit.low order } }

/-- Generate the lookaheads that an originator brings, and tell whether its
context is inherited. -/
def fromOriginator (grammar : Grammar) (first : FirstSets) (place : Place) :
    Tracing × List LaneEdge → Nat → Tracing × List LaneEdge
  | (tracing, edges), index =>
    let target : Place :=
      { state := place.state
        index }
    let item := (tracing.automaton.configuration target).item
    let (heads, vanishes) := first.heads (item.tail grammar)
    (if heads.isEmpty then tracing else tracing.generate place heads,
      if vanishes then
        edges ++ [{ source := place, target, crossing := false }]
      else edges)

/-- Put a configuration on the lane and find the lanes that lead on. -/
def visit (grammar : Grammar) (first : FirstSets) (tracing : Tracing)
    (place : Place) (parent : Option Place) (crossings : Nat) : Tracing :=
  let order := tracing.traced
  let entered :=
    { tracing with
      lane := place :: tracing.lane
      frames := .finish place parent :: tracing.frames
      visits := tracing.visits.insert place
        { order, low := order, crossings, active := true }
      traced := order + 1 }
  let entered := entered.change place fun configuration =>
    { configuration with
      marks := { configuration.marks with inLane := true } }
  let configuration := entered.automaton.configuration place
  let (generated, edges) :=
    if configuration.item = .goal then
      (entered.generate place (.singleton Terminal.endOfInput), [])
    else if configuration.item.dot > 0 then
      (entered, configuration.transitors.map fun target =>
        { source := place, target, crossing := true })
    else
      configuration.originators.foldl
        (fromOriginator grammar first place) (entered, [])
  { generated with frames := edges.map .follow ++ generated.frames }

/-- Record an ambiguity once. -/
def recordAmbiguity (grammar : Grammar) (tracing : Tracing) (place : Place) :
    Tracing :=
  let rule := (tracing.automaton.configuration place).item.rule
  let ambiguity : Ambiguity :=
    { state := place.state
      nonterminal := grammar.left rule
      rule }
  if tracing.ambiguities.contains ambiguity then tracing
  else { tracing with ambiguities := tracing.ambiguities.push ambiguity }

/-- Follow one step of a lane.  A step to a configuration that is on the lane
already closes a cycle; the cycle is an ambiguity when it never leaves its
state. -/
def follow (grammar : Grammar) (first : FirstSets) (tracing : Tracing)
    (edge : LaneEdge) : Tracing :=
  if tracing.isComplete edge.target then
    tracing.inherit edge.source edge.target
  else
    let source := tracing.visitOf edge.source
    match tracing.visits[edge.target]? with
    | none =>
      tracing.visit grammar first edge.target (some edge.source)
        (if edge.crossing then source.crossings + 1 else source.crossings)
    | some target =>
      let noted :=
        if !edge.crossing && target.active &&
            target.crossings == source.crossings then
          tracing.recordAmbiguity grammar edge.target
        else tracing
      (noted.lower edge.source target.order).inherit edge.source edge.target

/-- Configurations added by closure for the same nonterminal of a state have
the same originators, hence the same context: those not visited receive it. -/
def shareContext (grammar : Grammar) (tracing : Tracing) (place : Place) :
    Tracing :=
  let configuration := tracing.automaton.configuration place
  let left := grammar.left configuration.item.rule
  if configuration.item.dot > 0 || configuration.item == .goal then tracing
  else
    { tracing with
      automaton := tracing.automaton.modify place.state fun state =>
        state.mapConfigurations fun other =>
          if other.item.dot = 0 ∧ grammar.left other.item.rule = left ∧
              !other.marks.inLane ∧ !other.marks.complete then
            { other with
              context := configuration.context
              marks := { other.marks with complete := true } }
          else other }

/-- Take the members of a component off the lane, down to its root, and give
them their final context. -/
def closeComponent (grammar : Grammar) (root : Place)
    (context : TerminalSet) : List Place → Tracing → Tracing
  | [], tracing => { tracing with lane := [] }
  | member :: rest, tracing =>
    let settled := tracing.change member fun configuration =>
      { configuration with
        context := configuration.context ∪ context
        marks :=
          { configuration.marks with
            inLane := false
            complete := true } }
    let shared := settled.shareContext grammar member
    if member = root then { shared with lane := rest }
    else closeComponent grammar root context rest shared

/-- Leave a configuration whose lanes have all been followed. -/
def finish (grammar : Grammar) (tracing : Tracing) (place : Place)
    (parent : Option Place) : Tracing :=
  let left :=
    { tracing with
      visits := tracing.visits.modify place fun visit =>
        { visit with active := false } }
  let visit := left.visitOf place
  let closed :=
    if visit.low = visit.order then
      left.closeComponent grammar place (left.automaton.context place)
        left.lane
    else left
  match parent with
  | none => closed
  | some parent => (closed.lower parent visit.low).inherit parent place

/-- Work off the frames, at most `limit` of them. -/
def run (grammar : Grammar) (first : FirstSets) :
    (limit : Nat) → Tracing → Tracing
  | 0, tracing => tracing
  | limit + 1, tracing =>
    match tracing.frames with
    | [] => tracing
    | .follow edge :: rest =>
      run grammar first limit
        ({ tracing with frames := rest }.follow grammar first edge)
    | .finish place parent :: rest =>
      run grammar first limit
        ({ tracing with frames := rest }.finish grammar place parent)

/-- Every visited configuration has one frame of its own and one for each of
its links. -/
def frameBound (automaton : Automaton) : Nat :=
  automaton.states.foldl
    (fun count state =>
      state.configurations.foldl
        (fun count configuration =>
          count + 1 + configuration.originators.length +
            configuration.transitors.length) count) 0

/-- Find the final contexts of a configuration and of all on its lanes. -/
def trace (grammar : Grammar) (first : FirstSets) (limit : Nat)
    (tracing : Tracing) (root : Place) : Tracing :=
  if tracing.isComplete root then tracing
  else
    (tracing.visit grammar first root none 0).run grammar first limit

end Tracing

namespace State

/-- Whether a reduction of the state competes with another action when
lookaheads are ignored. -/
def isInadequate (grammar : Grammar) (state : State) : Bool :=
  let items := state.configurations.toList.map Configuration.item
  let reductions := items.filter fun item =>
    item.isFinal grammar && item.rule != goalRule
  let shifts := items.any fun item =>
    match item.scanned grammar with
    | some (.terminal _) => true
    | _ => false
  decide (reductions.length > 1) || reductions.length == 1 && shifts

end State

namespace Automaton

/-- The places of the final configurations of a state. -/
def finalPlaces (grammar : Grammar) (automaton : Automaton) (number : Nat) :
    List Place :=
  ((automaton.state number).finals grammar).map fun index =>
    { state := number
      index }

/-- The order of tracing: final configurations of inadequate states, then the
other final configurations, then all configurations. -/
def traceRoots (grammar : Grammar) (automaton : Automaton) : List Place :=
  let reachable := automaton.reachableStates
  let (inadequate, adequate) := reachable.partition fun number =>
    (automaton.state number).isInadequate grammar
  inadequate.flatMap (automaton.finalPlaces grammar) ++
    adequate.flatMap (automaton.finalPlaces grammar) ++
    reachable.flatMap automaton.placesOf

/-- Trace every configuration of every reachable state of an automaton whose
contexts are empty. -/
def traceLanes (grammar : Grammar) (first : FirstSets)
    (automaton : Automaton) : Tracing :=
  (automaton.traceRoots grammar).foldl
    (Tracing.trace grammar first (Tracing.frameBound automaton))
    (Tracing.begin automaton)

end Automaton

end LRTables
