import LRTables.Automaton.Collection
import LRTables.Lane.ClusterSplit
import LRTables.Lane.PagerSplit
import LRTables.Lane.Tracing
import LRTables.Table.Filling

/-!
# From grammars to tables

The ways to construct a table, and what a construction yields.
-/

namespace LRTables

/-- How the states on the lanes of conflicts are split. -/
inductive SplitStrategy where
  /-- By weak compatibility. -/
  | pager
  /-- By growing clusters along the lanes. -/
  | clusters
  deriving DecidableEq

inductive Mode where
  /-- Without lookaheads: reductions are entered under every terminal. -/
  | lr0
  /-- With lookaheads found by tracing lanes. -/
  | lalr
  /-- With states told apart by lookaheads. -/
  | lr1
  /-- As `lalr`, and then the lanes of reduce/reduce conflicts are split. -/
  | laneTracing (strategy : SplitStrategy)
  deriving DecidableEq

structure Options where
  mode : Mode
  /-- In mode `lr1`, whether weakly compatible states are merged. -/
  mergeCompatible : Bool
  /-- Whether conflicts other than the expected ones are a failure. -/
  strict : Bool
  deriving DecidableEq

namespace Options

def standard : Options :=
  { mode := .lr1
    mergeCompatible := true
    strict := false }

def withMode (options : Options) (mode : Mode) : Options :=
  { options with mode }

/-- States are never merged. -/
def canonical (options : Options) : Options :=
  { options with
    mode := .lr1
    mergeCompatible := false }

/-- Weakly compatible states are merged. -/
def pager (options : Options) : Options :=
  { options with
    mode := .lr1
    mergeCompatible := true }

def withStrict (options : Options) (strict : Bool) : Options :=
  { options with strict }

/-- The precision of mode `lr1`. -/
def precision (options : Options) : Precision :=
  if options.mergeCompatible then .pager else .canonical

end Options

structure Stats where
  /-- Reachable states without lookaheads, if such an automaton was built. -/
  lr0States : Nat
  /-- Reachable states. -/
  states : Nat
  finalStates : Nat
  clones : Nat
  merges : Nat
  tracedConfigurations : Nat
  deriving DecidableEq

namespace Stats

def none : Stats :=
  { lr0States := 0
    states := 0
    finalStates := 0
    clones := 0
    merges := 0
    tracedConfigurations := 0 }

end Stats

structure Output where
  automaton : Automaton
  table : Table
  ambiguities : Array Ambiguity
  stats : Stats

namespace Output

/-- An output, with the numbers of its states filled in. -/
def ofTable (automaton : Automaton) (table : Table)
    (ambiguities : Array Ambiguity) (stats : Stats) : Output :=
  { automaton
    table
    ambiguities
    stats :=
      { stats with
        states := automaton.reachableStates.length
        finalStates := table.finals.size } }

end Output

/-- The course of a construction: the ambiguities found on the way, and what
was built in the end. -/
structure Construction where
  ambiguities : Array Ambiguity
  built : Except ConstructionError Output

namespace Construction

/-- The automaton at a given precision, or a failure. -/
def collect (grammar : Grammar) (first : FirstSets) (precision : Precision) :
    Except ConstructionError Automaton :=
  match Automaton.collect? grammar first precision with
  | some automaton => .ok automaton
  | none => .error .unfinished

/-- A table without lookaheads. -/
def plain (grammar : Grammar) (first : FirstSets) :
    Except ConstructionError Output := do
  let automaton ← collect grammar first .lr0
  let table ← Table.ofAutomaton grammar automaton true
  return .ofTable automaton table #[]
    { Stats.none with lr0States := automaton.reachableStates.length }

/-- A table whose states are told apart by lookaheads. -/
def withLookaheads (grammar : Grammar) (first : FirstSets)
    (precision : Precision) : Except ConstructionError Output := do
  let automaton ← collect grammar first precision
  let table ← Table.ofAutomaton grammar automaton false
  return .ofTable automaton table #[] Stats.none

/-- Split a region by the given strategy and compute its contexts anew. -/
def split (clusterLimit : Nat) (grammar : Grammar) (first : FirstSets)
    (strategy : SplitStrategy) (automaton : Automaton) (region : Region) :
    Except ConstructionError Splitting := do
  let splitting ←
    match strategy with
    | .pager => region.splitByPager grammar first automaton
    | .clusters => region.splitByClusters clusterLimit grammar first automaton
  splitting.regenerate grammar first

/-- The table of a traced automaton, after the lanes of its reduce/reduce
conflicts are split if a strategy is given. -/
def ofTraced (clusterLimit : Nat) (grammar : Grammar) (first : FirstSets)
    (strategy : Option SplitStrategy) (lr0States : Nat) (tracing : Tracing) :
    Except ConstructionError Output := do
  let stats :=
    { Stats.none with
      lr0States
      tracedConfigurations := tracing.traced }
  let table ← Table.ofAutomaton grammar tracing.automaton false
  let unsplit :=
    Output.ofTable tracing.automaton table tracing.ambiguities stats
  match strategy with
  | none => return unsplit
  | some strategy =>
    if table.log.reduceReduce = 0 then return unsplit
    let (marked, region) :=
      tracing.automaton.markConflictLanes grammar first table.log
    if region.isEmpty then return { unsplit with automaton := marked }
    let splitting ← split clusterLimit grammar first strategy marked region
    let table ← Table.ofAutomaton grammar splitting.automaton false
    return .ofTable splitting.automaton table tracing.ambiguities
      { stats with
        clones := splitting.counts.clones
        merges := splitting.counts.merges }

/-- A table with lookaheads found by tracing lanes. -/
def byLanes (clusterLimit : Nat) (grammar : Grammar) (first : FirstSets)
    (strategy : Option SplitStrategy) : Construction :=
  match collect grammar first .lr0 with
  | .error error =>
    { ambiguities := #[]
      built := .error error }
  | .ok automaton =>
    let tracing := automaton.traceLanes grammar first
    { ambiguities := tracing.ambiguities
      built := ofTraced clusterLimit grammar first strategy
        automaton.reachableStates.length tracing }

end Construction

namespace Grammar

/-- Construct a table.  `clusterLimit` bounds the steps of splitting by
clusters; the other searches have limits of their own. -/
def constructWithin (clusterLimit : Nat) (grammar : Grammar)
    (options : Options) : Construction :=
  let first := FirstSets.ofGrammar grammar
  match options.mode with
  | .lr0 =>
    { ambiguities := #[]
      built := Construction.plain grammar first }
  | .lr1 =>
    { ambiguities := #[]
      built := Construction.withLookaheads grammar first options.precision }
  | .lalr => Construction.byLanes clusterLimit grammar first none
  | .laneTracing strategy =>
    Construction.byLanes clusterLimit grammar first (some strategy)

/-- A generous number of steps for splitting by clusters. -/
def clusterLimit (grammar : Grammar) : Nat :=
  64 * (grammar.itemCount + 1) * (grammar.terminals.size + 1) *
    (grammar.columnCount + 1)

def construct (grammar : Grammar) (options : Options) : Construction :=
  grammar.constructWithin grammar.clusterLimit options

/-- Under strict options, the conflicts have to be those expected. -/
def checkExpected (grammar : Grammar) (options : Options) (output : Output) :
    Except ConstructionError Output :=
  let expected := grammar.expect.getD 0
  let log := output.table.log
  if options.strict &&
      (log.shiftReduce != expected || log.reduceReduce != 0) then
    .error (.expectMismatch expected log.shiftReduce log.reduceReduce)
  else .ok output

/-- Construct a table and check its conflicts. -/
def generateWithin (clusterLimit : Nat) (grammar : Grammar)
    (options : Options) : Except ConstructionError Output := do
  let output ← (grammar.constructWithin clusterLimit options).built
  grammar.checkExpected options output

def generate (grammar : Grammar) (options : Options) :
    Except ConstructionError Output :=
  grammar.generateWithin grammar.clusterLimit options

end Grammar

end LRTables
