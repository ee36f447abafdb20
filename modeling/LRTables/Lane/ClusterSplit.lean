import LRTables.Lane.Family

/-!
# Splitting by clusters

From each head of a conflict lane a cluster of states is grown along the
lanes.  A state of the cluster takes in what arrives as long as no two of its
core contexts come to overlap on the conflicting terminals; otherwise the
transition goes to another copy.
-/

namespace LRTables

/-- Whether joining two pairs of contexts brings no new overlap on the given
terminals. -/
def joinsApart (terminals : TerminalSet)
    (here there : TerminalSet × TerminalSet) : Bool :=
  let overlap := (here.1 ∪ here.2) ∩ (there.1 ∪ there.2) ∩ terminals
  overlap.isSubset ((here.1 ∩ there.1) ∪ (here.2 ∩ there.2))

/-- Whether two lists of contexts, given entry by entry, can be joined without
a new overlap on the given terminals. -/
def joinable (terminals : TerminalSet) :
    List (TerminalSet × TerminalSet) → Bool
  | [] => true
  | entry :: rest =>
    rest.all (joinsApart terminals entry) && joinable terminals rest

namespace State

/-- Whether arriving contexts can join a state without a new overlap on the
given terminals. -/
def canJoin (state : State) (terminals : TerminalSet)
    (incoming : List Configuration) : Bool :=
  joinable terminals
    (state.coreContexts.zip (incoming.map Configuration.context))

end State

/-- A split whose clusters are being grown. -/
structure ClusterSplitting where
  splitting : Splitting
  /-- States that belong to some cluster. -/
  claimed : List Nat
  /-- States of the region whose lanes have been followed. -/
  processed : List Nat
  /-- For each state of the region, its copy in the current cluster. -/
  cluster : List (Nat × Nat)
  /-- States of the current cluster whose lanes are to be followed. -/
  queue : WorkQueue Nat

namespace ClusterSplitting

/-- Reset a state of the region.  A head keeps the core contexts that it had
before. -/
def resetState (grammar : Grammar) (first : FirstSets) (region : Region)
    (splitting : Splitting) (number : Nat) : Splitting :=
  let contexts := (splitting.automaton.state number).coreContexts
  let cleared := splitting.reset grammar first number
  if region.heads.contains number then
    { cleared with
      automaton := cleared.automaton.modify number fun state =>
        ((state.joinContexts contexts).close grammar first true).1 }
  else cleared

def begin (grammar : Grammar) (first : FirstSets) (automaton : Automaton)
    (region : Region) : ClusterSplitting :=
  { splitting := region.states.foldl (resetState grammar first region)
      (Splitting.begin automaton region)
    claimed := []
    processed := []
    cluster := []
    queue := .empty }

/-- The copy to which a transition goes: the one in the cluster if it can take
in what arrives, else one that has it all, else one that is not claimed or can
take it in, else a new one. -/
def choose (grammar : Grammar) (first : FirstSets) (region : Region)
    (growing : ClusterSplitting) (prototype : Nat)
    (incoming : List Configuration) : Nat × Splitting :=
  let splitting := growing.splitting
  let terminals := region.terminalsAt prototype
  let takesIn (copy : Nat) :=
    (splitting.automaton.state copy).canJoin terminals incoming
  let inCluster :=
    (Ordered.find? growing.cluster prototype).filter takesIn
  let free := (splitting.families.copiesOf prototype).find? fun copy =>
    !growing.claimed.contains copy || takesIn copy
  match inCluster <|> splitting.covering? prototype incoming <|> free with
  | some target => (target, splitting)
  | none =>
    (splitting.automaton.size, splitting.clone grammar first prototype)

/-- Follow the lanes from a state of the cluster to one state of the
region. -/
def followLane (grammar : Grammar) (first : FirstSets) (region : Region)
    (source : Nat) (growing : ClusterSplitting) (prototype : Nat) :
    ClusterSplitting :=
  let automaton := growing.splitting.automaton
  let transition := do
    let symbol ← (automaton.state prototype).entry
    let current ← (automaton.state source).successor? symbol
    return (symbol, current)
  match transition with
  | none => growing
  | some (symbol, current) =>
    if !region.contains prototype then growing
    else
      let incoming :=
        (automaton.state source).successorCores grammar true symbol
      let (target, splitting) :=
        choose grammar first region growing prototype incoming
      let (merged, grown) :=
        splitting.automaton.absorb grammar first target incoming
      let counted := if grown then splitting.countMerge else splitting
      let queue :=
        if grown then growing.queue.push target else growing.queue
      { growing with
        splitting :=
          { counted with
            automaton :=
              if target = current then merged
              else merged.relink source symbol target }
        claimed := Ordered.insert growing.claimed target
        cluster := Ordered.put growing.cluster prototype target
        queue := if target = current then queue else queue.push target }

/-- Follow all lanes from a state of the cluster. -/
def followLanes (grammar : Grammar) (first : FirstSets) (region : Region)
    (growing : ClusterSplitting) (number : Nat) : ClusterSplitting :=
  let prototype := growing.splitting.automaton.prototype number
  if region.contains prototype then
    (region.onwardFrom prototype).foldl
      (followLane grammar first region number)
      { growing with
        processed := Ordered.insert growing.processed prototype }
  else growing

/-- Grow the current cluster until nothing waits.  `limit` counts the steps
left for this cluster and all later ones. -/
def run (grammar : Grammar) (first : FirstSets) (region : Region) :
    (limit : Nat) → ClusterSplitting →
      Except ConstructionError (ClusterSplitting × Nat)
  | 0, _ => .error .unfinished
  | limit + 1, growing =>
    match growing.queue.pop with
    | none => .ok (growing, limit)
    | some (number, queue) =>
      run grammar first region limit
        (followLanes grammar first region { growing with queue } number)

/-- Grow a cluster from a head, unless its lanes have been followed. -/
def growFrom (grammar : Grammar) (first : FirstSets) (region : Region) :
    ClusterSplitting × Nat → Nat →
      Except ConstructionError (ClusterSplitting × Nat)
  | (growing, limit), head =>
    if growing.processed.contains head || !region.contains head then
      .ok (growing, limit)
    else
      run grammar first region limit
        { growing with
          claimed := Ordered.insert growing.claimed head
          cluster := [(head, head)]
          queue := WorkQueue.empty.push head }

end ClusterSplitting

namespace Region

/-- Split a region by clusters, in at most `limit` steps. -/
def splitByClusters (limit : Nat) (grammar : Grammar) (first : FirstSets)
    (automaton : Automaton) (region : Region) :
    Except ConstructionError Splitting := do
  let begun := ClusterSplitting.begin grammar first automaton region
  let (grown, _) ← region.heads.foldlM
    (ClusterSplitting.growFrom grammar first region) (begun, limit)
  return grown.splitting

end Region

end LRTables
