import LRTables.Proofs.ComponentSearches

/-!
# Steps of the component search

What the search from a node has gathered while it follows the edges of the node,
and what it leaves behind when it ends: a complete component, or nodes on the
stack whose values its first node has gathered.
-/

namespace LRTables.Digraph

variable {α : Type} {size : Nat}

/-- Nodes that have been seen stay as they are. -/
def Kept (before after : Search α size) : Prop :=
  ∀ node, before.mark node ≠ .unseen →
    after.mark node = before.mark node ∧ after.value node = before.value node

theorem Kept.trans {first second third : Search α size}
    (one : Kept first second) (two : Kept second third) :
    Kept first third := by
  intro node seen
  obtain ⟨mark, value⟩ := one node seen
  obtain ⟨mark', value'⟩ := two node (mark ▸ seen)
  exact ⟨mark'.trans mark, value'.trans value⟩

section Steps

variable [SemilatticeSup α] {edges : Fin size → List (Fin size)}
  {initial : Fin size → α} {before search next : Search α size}
  {root target : Fin size}

/-- The target of an edge is accounted for: it is finished and its value is in
`total`, or it waits, and not below `low`. -/
structure Settled (below : List (Fin size)) (low : Nat) (total : α)
    (search : Search α size) (target : Fin size) : Prop where
  seen : search.mark target ≠ .unseen
  included : search.mark target = .finished → search.value target ≤ total
  above : ∀ height, StandsAt below target height → low ≤ height

/-- The search from `root` has left the nodes `fresh` above it on the stack,
and the edges to the `pending` targets are still to be followed. -/
structure Gathered (edges : Fin size → List (Fin size))
    (initial : Fin size → α) (before : Search α size) (root : Fin size)
    (pending fresh : List (Fin size)) (low : Nat) (total : α)
    (search : Search α size) : Prop where
  kept : Kept before search
  stack : search.stack = fresh ++ root :: before.stack
  unseen : ∀ node ∈ root :: fresh, before.mark node = .unseen
  follows : ∀ target ∈ pending, target ∈ edges root
  included : ∀ node ∈ fresh, initial node ≤ total
  returns : ∀ node ∈ fresh, ∃ other ∈ root :: before.stack,
    Reaches edges node other
  settled : ∀ node ∈ root :: fresh, ∀ target ∈ edges node,
    Settled before.stack low total search target ∨
      node = root ∧ target ∈ pending

structure Following (edges : Fin size → List (Fin size))
    (initial : Fin size → α) (before : Search α size) (root : Fin size)
    (pending fresh : List (Fin size)) (low : Nat)
    (search : Search α size) : Prop where
  consistent : Consistent edges initial search
  waiting : search.mark root = .waiting low
  gathered : Gathered edges initial before root pending fresh low
    (search.value root) search

structure Complete (edges : Fin size → List (Fin size))
    (initial : Fin size → α) (before : Search α size) (root : Fin size)
    (search : Search α size) : Prop where
  consistent : Consistent edges initial search
  kept : Kept before search
  stack : search.stack = before.stack
  finished : search.mark root = .finished

/-- The search from a node ends with its component, or leaves it to a node that
was on the stack before. -/
def Visited (edges : Fin size → List (Fin size))
    (initial : Fin size → α) (before : Search α size) (root : Fin size)
    (search : Search α size) : Prop :=
  Complete edges initial before root search ∨
    ∃ fresh low, Following edges initial before root [] fresh low search ∧
      low ≤ before.stack.length

theorem Settled.mono {below : List (Fin size)} {low lower : Nat}
    {total more : α} (settled : Settled below low total search target)
    (le : lower ≤ low) (grows : total ≤ more) :
    Settled below lower more search target where
  seen := settled.seen
  included finished := (settled.included finished).trans grows
  above height stands := le.trans (settled.above height stands)

theorem Settled.drop {above below : List (Fin size)} {low : Nat} {total : α}
    (settled : Settled (above ++ below) low total search target) :
    Settled below low total search target where
  seen := settled.seen
  included := settled.included
  above height stands := settled.above height (stands.append above)

theorem Settled.keep {below : List (Fin size)} {low : Nat} {total : α}
    (settled : Settled below low total search target)
    (kept : Kept search next) : Settled below low total next target := by
  obtain ⟨mark, value⟩ := kept target settled.seen
  constructor
  · rw [mark]
    exact settled.seen
  · rw [mark, value]
    exact settled.included
  · exact settled.above

theorem Gathered.mono {pending fresh : List (Fin size)} {low lower : Nat}
    {total more : α}
    (gathered : Gathered edges initial before root pending fresh low total
      search)
    (le : lower ≤ low) (grows : total ≤ more) :
    Gathered edges initial before root pending fresh lower more search :=
  { gathered with
    included := fun node member =>
      (gathered.included node member).trans grows
    settled := by
      intro node member other edge
      apply (gathered.settled node member other edge).imp_left
      intro settled
      exact settled.mono le grows }

theorem Visited.consistent (visited : Visited edges initial before root search) :
    Consistent edges initial search := by
  rcases visited with done | ⟨_, _, following, -⟩
  · exact done.consistent
  · exact following.consistent

theorem Visited.kept (visited : Visited edges initial before root search) :
    Kept before search := by
  rcases visited with done | ⟨_, _, following, -⟩
  · exact done.kept
  · exact following.gathered.kept

theorem Visited.seen (visited : Visited edges initial before root search) :
    search.mark root ≠ .unseen := by
  rcases visited with done | ⟨_, _, following, -⟩
  · rw [done.finished]
    exact nofun
  · rw [following.waiting]
    exact nofun

theorem following_enter (consistent : Consistent edges initial search)
    (unseen : search.mark root = .unseen) :
    Following edges initial search root (edges root) []
      (search.stack.length + 1) (search.enter root) where
  consistent := consistent.enter unseen
  waiting := by simp
  gathered :=
    { kept := by
        intro node seen
        have different : node ≠ root := by
          intro same
          exact seen (same ▸ unseen)
        simp [different]
      stack := rfl
      unseen := by simpa using unseen
      follows := fun _ member => member
      included := by simp
      returns := by simp
      settled := by
        intro node member other edge
        rw [List.mem_singleton] at member
        subst member
        exact Or.inr ⟨rfl, edge⟩ }

/-- With an edge further down, all nodes left on the stack reach what was there
before. -/
theorem Following.leaves {fresh : List (Fin size)} {low : Nat}
    (following : Following edges initial before root [] fresh low search)
    (le : low ≤ before.stack.length) :
    ∀ node ∈ root :: fresh, ∃ other ∈ before.stack,
      Reaches edges node other := by
  have fromRoot : ∃ other ∈ before.stack, Reaches edges root other := by
    obtain ⟨lowest, rank, stands, rankLe, reaches⟩ :=
      following.consistent.exists_lowest following.waiting
    rw [following.gathered.stack, List.append_cons] at stands
    have inner := stands.of_append (rankLe.trans le)
    exact ⟨lowest, inner.mem, reaches⟩
  intro node member
  rcases List.mem_cons.mp member with rfl | inFresh
  · exact fromRoot
  · obtain ⟨other, otherMember, reaches⟩ :=
      following.gathered.returns node inFresh
    rcases List.mem_cons.mp otherMember with rfl | onStack
    · obtain ⟨last, lastMember, onward⟩ := fromRoot
      exact ⟨last, lastMember, reaches.trans onward⟩
    · exact ⟨other, onStack, reaches⟩

section Edge

variable {pending fresh : List (Fin size)} {low lower : Nat} {total : α}

theorem Gathered.keep
    (gathered : Gathered edges initial before root pending fresh low total
      search)
    (kept : Kept search next) (stack : next.stack = search.stack) :
    Gathered edges initial before root pending fresh low total next :=
  { gathered with
    kept := gathered.kept.trans kept
    stack := stack.trans gathered.stack
    settled := by
      intro node member other edge
      apply (gathered.settled node member other edge).imp_left
      intro settled
      exact settled.keep kept }

/-- A search that leaves nodes on the stack adds what it has gathered
itself. -/
theorem Gathered.extend {inner : List (Fin size)} {reached : Nat}
    (gathered : Gathered edges initial before root pending fresh low total
      search)
    (following : Following edges initial search target [] inner reached next)
    (le : reached ≤ search.stack.length) :
    Gathered edges initial before root pending (inner ++ target :: fresh)
      (min low reached) (total ⊔ next.value target) next := by
  have own := following.gathered
  have fresh_or {node : Fin size} (member : node ∈ inner ++ target :: fresh) :
      node ∈ target :: inner ∨ node ∈ fresh := by
    simp only [List.mem_append, List.mem_cons] at member ⊢
    tauto
  have old {node other : Fin size} (member : node ∈ root :: fresh)
      (edge : other ∈ edges node) :
      Settled before.stack (min low reached) (total ⊔ next.value target)
          next other ∨
        node = root ∧ other ∈ pending := by
    apply (gathered.settled node member other edge).imp_left
    intro settled
    exact (settled.keep own.kept).mono (Nat.min_le_left low reached)
      le_sup_left
  constructor
  · exact gathered.kept.trans own.kept
  · rw [own.stack, gathered.stack]
    simp
  · intro node member
    rcases List.mem_cons.mp member with rfl | member
    · exact gathered.unseen node List.mem_cons_self
    · rcases fresh_or member with new | old
      · by_contra seen
        have unseen := own.unseen node new
        rw [(gathered.kept node seen).1] at unseen
        exact seen unseen
      · exact gathered.unseen node (List.mem_cons_of_mem _ old)
  · exact gathered.follows
  · intro node member
    rcases fresh_or member with new | old
    · apply le_trans _ le_sup_right
      rcases List.mem_cons.mp new with rfl | new
      · exact following.consistent.own node
      · exact own.included node new
    · exact (gathered.included node old).trans le_sup_left
  · intro node member
    rcases fresh_or member with new | old
    · obtain ⟨other, otherMember, reaches⟩ := following.leaves le node new
      rw [gathered.stack, List.mem_append] at otherMember
      rcases otherMember with inFresh | below
      · obtain ⟨last, lastMember, onward⟩ := gathered.returns other inFresh
        exact ⟨last, lastMember, reaches.trans onward⟩
      · exact ⟨other, below, reaches⟩
    · exact gathered.returns node old
  · intro node member other edge
    rcases List.mem_cons.mp member with rfl | member
    · exact old List.mem_cons_self edge
    · rcases fresh_or member with new | inFresh
      · have settled := (own.settled node new other edge).resolve_right
          (by simp)
        rw [gathered.stack, List.append_cons] at settled
        exact Or.inl
          (settled.drop.mono (Nat.min_le_right low reached) le_sup_right)
      · exact old (List.mem_cons_of_mem _ inFresh) edge

theorem Gathered.lowered
    (gathered : Gathered edges initial before root pending fresh low total
      search) (target : Fin size) :
    ∃ lower,
      Mark.lower (.waiting low) (search.mark target) = .waiting lower ∧
        Gathered edges initial before root pending fresh lower
          (total ⊔ search.value target) search := by
  cases search.mark target with
  | unseen => exact ⟨low, rfl, gathered.mono (le_refl low) le_sup_left⟩
  | waiting other =>
      exact ⟨min low other, rfl,
        gathered.mono (Nat.min_le_left low other) le_sup_left⟩
  | finished => exact ⟨low, rfl, gathered.mono (le_refl low) le_sup_left⟩

theorem Gathered.visited
    (gathered : Gathered edges initial before root pending fresh low total
      search)
    (visited : Visited edges initial search target next) :
    ∃ more lower,
      Mark.lower (.waiting low) (next.mark target) = .waiting lower ∧
        Gathered edges initial before root pending more lower
          (total ⊔ next.value target) next := by
  rcases visited with done | ⟨inner, reached, following, le⟩
  · exact ⟨fresh, (gathered.keep done.kept done.stack).lowered target⟩
  · rw [following.waiting]
    exact ⟨_, min low reached, rfl, gathered.extend following le⟩

/-- A target that has been seen is settled once the mark and the value of the
source account for it. -/
theorem Consistent.settled {above below : List (Fin size)}
    (consistent : Consistent edges initial search) (source : Fin size)
    (stack : search.stack = above ++ below)
    (seen : search.mark target ≠ .unseen)
    (lowers : Mark.lower (.waiting low) (search.mark target) =
      .waiting lower) :
    Settled below lower (search.value source ⊔ search.value target) search
      target := by
  constructor
  · exact seen
  · exact fun _ => le_sup_right
  · intro height stands
    have onStack := stands.append above
    rw [← stack] at onStack
    obtain ⟨own, isOwn, le, -⟩ := consistent.lows target height onStack
    rw [isOwn, Mark.lower, Mark.waiting.injEq] at lowers
    exact lowers ▸ (Nat.min_le_right low own).trans le

/-- Taking account of an edge leaves settled what is settled with it. -/
theorem Settled.meet {below : List (Fin size)} {node : Fin size}
    (waiting : search.mark root = .waiting low)
    (lowers : Mark.lower (.waiting low) (search.mark target) =
      .waiting lower)
    (settled : Settled below lower (search.value root ⊔ search.value target)
      search node) :
    Settled below lower ((search.meet (· ⊔ ·) root target).value root)
      (search.meet (· ⊔ ·) root target) node := by
  constructor
  · rw [Search.mark_meet]
    split
    · rw [waiting, lowers]
      exact nofun
    · exact settled.seen
  · intro finished
    rw [Search.mark_meet] at finished
    split at finished
    · rw [waiting, lowers] at finished
      cases finished
    · rename_i different
      simpa [different] using settled.included finished
  · exact settled.above

/-- The edge to a target that has been seen is settled by `meet`. -/
theorem Gathered.meet
    (consistent : Consistent edges initial search)
    (waiting : search.mark root = .waiting low)
    (seen : search.mark target ≠ .unseen)
    (lowers : Mark.lower (.waiting low) (search.mark target) = .waiting lower)
    (gathered : Gathered edges initial before root (target :: pending) fresh
      lower (search.value root ⊔ search.value target) search) :
    Following edges initial before root pending fresh lower
      (search.meet (· ⊔ ·) root target) := by
  have edge := gathered.follows target List.mem_cons_self
  have targetSettled := consistent.settled root
    (gathered.stack.trans (List.append_cons _ _ _)) seen lowers
  refine ⟨consistent.meet waiting edge, by simp [waiting, lowers], ?_⟩
  constructor
  · intro node nodeSeen
    have different : node ≠ root := by
      intro same
      exact nodeSeen (gathered.unseen node (by simp [same]))
    simpa [different] using gathered.kept node nodeSeen
  · rw [Search.stack_meet]
    exact gathered.stack
  · exact gathered.unseen
  · exact fun other member =>
      gathered.follows other (List.mem_cons_of_mem _ member)
  · simpa using gathered.included
  · exact gathered.returns
  · intro node member other edge
    rcases gathered.settled node member other edge with
      settled | ⟨same, unsettled⟩
    · exact Or.inl (settled.meet waiting lowers)
    · rcases List.mem_cons.mp unsettled with rfl | later
      · exact Or.inl (targetSettled.meet waiting lowers)
      · exact Or.inr ⟨same, later⟩

end Edge

section Complete

variable {fresh : List (Fin size)}

theorem Following.outside {low : Nat}
    (following : Following edges initial before root [] fresh low search)
    {node : Fin size} (below : node ∈ before.stack) : node ∉ root :: fresh := by
  have distinct := following.consistent.distinct
  rw [following.gathered.stack, List.append_cons] at distinct
  intro inside
  have apart := (List.nodup_append.mp distinct).2.2 node
    (by simpa [or_comm] using inside) node below
  exact apart rfl

/-- No edge leads out of the nodes left on the stack but to finished nodes. -/
theorem Following.covers
    (following : Following edges initial before root [] fresh
      (before.stack.length + 1) search) {node other : Fin size}
    (member : node ∈ root :: fresh) (reaches : Reaches edges node other) :
    (other ∈ root :: fresh ∨ search.mark other = .finished) ∧
      initial other ≤ search.value root := by
  have consistent := following.consistent
  have gathered := following.gathered
  induction reaches using Relation.ReflTransGen.head_induction_on with
  | refl =>
      refine ⟨Or.inl member, ?_⟩
      rcases List.mem_cons.mp member with rfl | inFresh
      · exact consistent.own other
      · exact gathered.included other inFresh
  | @head node next edge rest ih =>
      have settled := (gathered.settled node member next edge).resolve_right
        (by simp)
      rcases consistent.mem_or_finished settled.seen with onStack | finished
      · rw [gathered.stack, List.append_cons, List.mem_append] at onStack
        rcases onStack with inside | below
        · apply ih
          simpa [or_comm] using inside
        · obtain ⟨height, stands⟩ := exists_standsAt below
          have high := settled.above height stands
          have low := stands.le_length
          omega
      · obtain ⟨otherFinished, covered⟩ :=
          consistent.complete next finished other rest
        exact ⟨Or.inr otherFinished,
          covered.trans (settled.included finished)⟩

theorem Following.reaches_root
    (following : Following edges initial before root [] fresh
      (before.stack.length + 1) search) {node : Fin size}
    (member : node ∈ root :: fresh) : Reaches edges node root := by
  have consistent := following.consistent
  have gathered := following.gathered
  rcases List.mem_cons.mp member with rfl | inFresh
  · exact .refl
  · obtain ⟨other, otherMember, reaches⟩ := gathered.returns node inFresh
    rcases List.mem_cons.mp otherMember with rfl | below
    · exact reaches
    · exfalso
      have onStack : other ∈ search.stack := by
        rw [gathered.stack, List.append_cons]
        exact List.mem_append_right _ below
      rcases (following.covers member reaches).1 with inside | finished
      · exact following.outside below inside
      · obtain ⟨low, waiting⟩ := (consistent.waits other).mp onStack
        rw [waiting] at finished
        cases finished

section Release

variable {released : Search α size}
  (following : Following edges initial before root [] fresh
    (before.stack.length + 1) search)
  (release : search.Released root fresh before.stack released)

include release

theorem Search.Released.grows (node : Fin size) :
    search.value node ≤ released.value node := by
  by_cases member : node ∈ fresh
  · rw [release.shared node member]
    exact le_sup_left
  · rw [release.values node member]

theorem Search.Released.covers {node : Fin size} (inside : node ∈ root :: fresh) :
    search.value root ≤ released.value node := by
  by_cases member : node ∈ fresh
  · rw [release.shared node member]
    exact le_sup_right
  · have same := (List.mem_cons.mp inside).resolve_right member
    rw [same]
    exact release.grows root

theorem Search.Released.stays {node : Fin size}
    (finished : search.mark node = .finished) :
    released.mark node = .finished := by
  by_cases inside : node ∈ root :: fresh
  · exact release.finished node inside
  · exact (release.marks node inside).trans finished

include following

theorem Following.kept_released : Kept before released := by
  have gathered := following.gathered
  intro node seen
  have inside : node ∉ root :: fresh := fun member =>
    seen (gathered.unseen node member)
  have notFresh : node ∉ fresh := fun member =>
    inside (List.mem_cons_of_mem _ member)
  rw [release.marks node inside, release.values node notFresh]
  exact gathered.kept node seen

theorem Following.consistent_released :
    Consistent edges initial released := by
  have consistent := following.consistent
  have gathered := following.gathered
  have distinct := consistent.distinct
  rw [gathered.stack] at distinct
  constructor
  · rw [release.stack]
    exact (List.nodup_cons.mp distinct.of_append_right).2
  · intro node
    rw [release.stack]
    by_cases inside : node ∈ root :: fresh
    · rw [release.finished node inside]
      simp only [reduceCtorEq, exists_false, iff_false]
      exact fun below => following.outside below inside
    · rw [release.marks node inside, ← consistent.waits, gathered.stack]
      simp only [List.mem_cons, not_or] at inside
      simp [inside]
  · exact fun node =>
      (consistent.own node).trans (release.grows node)
  · intro node bound bounded
    have old := consistent.sound node bound bounded
    by_cases member : node ∈ fresh
    · rw [release.shared node member]
      have back := following.reaches_root (List.mem_cons_of_mem _ member)
      apply sup_le old (consistent.sound root bound ?_)
      exact fun other reaches => bounded other (back.trans reaches)
    · rwa [release.values node member]
  · intro node finished other reaches
    by_cases inside : node ∈ root :: fresh
    · obtain ⟨place, included⟩ := following.covers inside reaches
      refine ⟨?_, included.trans (release.covers inside)⟩
      rcases place with inside | finished
      · exact release.finished other inside
      · exact release.stays finished
    · rw [release.marks node inside] at finished
      obtain ⟨otherFinished, included⟩ :=
        consistent.complete node finished other reaches
      exact ⟨release.stays otherFinished,
        included.trans (release.grows node)⟩
  · intro node height stands
    rw [release.stack] at stands ⊢
    have onStack : StandsAt search.stack node height := by
      rw [gathered.stack, List.append_cons]
      exact stands.append _
    obtain ⟨low, waiting, le, lowest, rank, lowestStands, rankLe, reaches⟩ :=
      consistent.lows node height onStack
    refine ⟨low, ?_, le, lowest, rank, ?_, rankLe, reaches⟩
    · rw [release.marks node (following.outside stands.mem)]
      exact waiting
    · rw [gathered.stack, List.append_cons] at lowestStands
      exact lowestStands.of_append
        ((rankLe.trans le).trans stands.le_length)

theorem Following.complete :
    Complete edges initial before root released where
  consistent := following.consistent_released release
  kept := following.kept_released release
  stack := release.stack
  finished := release.finished root List.mem_cons_self

end Release

/-- The search from a node is over once all its edges have been followed. -/
theorem Following.close {low : Nat}
    (following : Following edges initial before root [] fresh low search) :
    Visited edges initial before root
      (search.close (· ⊔ ·) root (before.stack.length + 1)) := by
  have stands : StandsAt search.stack root (before.stack.length + 1) := by
    rw [following.gathered.stack]
    exact (standsAt_head root before.stack).append fresh
  have le := following.consistent.low_le following.waiting stands
  unfold Search.close
  split
  · rename_i whole
    rw [following.waiting, Mark.waiting.injEq] at whole
    subst whole
    have distinct := following.consistent.distinct
    rw [following.gathered.stack] at distinct ⊢
    exact Or.inl (following.complete (search.released_release distinct))
  · rename_i linked
    refine Or.inr ⟨fresh, low, following, ?_⟩
    have different : low ≠ before.stack.length + 1 := by
      intro same
      exact linked (same ▸ following.waiting)
    omega

end Complete

end Steps

end LRTables.Digraph
