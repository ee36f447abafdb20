import LRTables.Proofs.ComponentSteps
import LRTables.TerminalSet

/-!
# Unions over components

By induction on the nodes that are still unseen every search does what it
should.  In the end the value of each node is the union over the nodes that it
reaches, in whatever order nodes and edges are taken.
-/

namespace LRTables.Digraph

variable {α : Type} {size : Nat}

section Equations

variable (union : α → α → α) (edges : Fin size → List (Fin size))

@[simp] theorem follow_nil (node : Fin size) (search : Search α size) :
    (follow union edges node [] search).1 = search := by
  rw [follow]

@[simp] theorem follow_cons (node target : Fin size) (rest : List (Fin size))
    (search : Search α size) :
    (follow union edges node (target :: rest) search).1 =
      (follow union edges node rest
        ((visit union edges search target).meet union node target)).1 := by
  rw [follow]
  apply congrArg fun visited : Search α size =>
    (follow union edges node rest (visited.meet union node target)).1
  unfold visit
  split
  · rfl
  · rfl

theorem traverse_eq {search : Search α size} {node : Fin size}
    (unseen : search.mark node = .unseen) :
    (traverse union edges search node unseen).1 =
      (follow union edges node (edges node) (search.enter node)).1.close union
        node (search.stack.length + 1) := by
  rw [traverse]

theorem unseenCount_visit (search : Search α size) (node : Fin size) :
    (visit union edges search node).unseenCount ≤ search.unseenCount := by
  unfold visit
  split
  · rename_i unseen
    exact Nat.le_of_lt (traverse union edges search node unseen).2
  · exact Nat.le_refl _

end Equations

section Searches

variable [SemilatticeSup α] {edges : Fin size → List (Fin size)}
  {initial : Fin size → α} {before search : Search α size}
  {root target : Fin size}

/-- A search from any unseen node does what it should, as long as fewer nodes
than `count` are unseen. -/
def Searches (edges : Fin size → List (Fin size)) (initial : Fin size → α)
    (count : Nat) : Prop :=
  ∀ (search : Search α size) (node : Fin size)
    (unseen : search.mark node = .unseen),
      search.unseenCount < count → Consistent edges initial search →
        Visited edges initial search node
          (traverse (· ⊔ ·) edges search node unseen).1

/-- One edge is followed. -/
theorem Following.step {count low : Nat}
    (searches : Searches (α := α) edges initial count)
    {pending fresh : List (Fin size)} (few : search.unseenCount < count)
    (following : Following edges initial before root (target :: pending) fresh
      low search) :
    ∃ more lower, Following edges initial before root pending more lower
      ((visit (· ⊔ ·) edges search target).meet (· ⊔ ·) root target) := by
  unfold visit
  split
  · rename_i unseen
    have visited := searches search target unseen few following.consistent
    have different : search.mark root ≠ .unseen := by
      rw [following.waiting]
      exact nofun
    obtain ⟨more, lower, lowers, gathered⟩ :=
      following.gathered.visited visited
    generalize (traverse (· ⊔ ·) edges search target unseen).1 = next
      at visited lowers gathered
    have kept : Kept search next := visited.kept
    obtain ⟨mark, value⟩ := kept root different
    rw [← value] at gathered
    exact ⟨more, lower, gathered.meet visited.consistent
      (mark.trans following.waiting) visited.seen lowers⟩
  · rename_i seen
    obtain ⟨lower, lowers, gathered⟩ := following.gathered.lowered target
    exact ⟨fresh, lower, gathered.meet following.consistent following.waiting
      seen lowers⟩

theorem Following.follow {count low : Nat}
    (searches : Searches (α := α) edges initial count)
    {pending fresh : List (Fin size)} (few : search.unseenCount < count)
    (following : Following edges initial before root pending fresh low
      search) :
    ∃ more lower, Following edges initial before root [] more lower
      (Digraph.follow (· ⊔ ·) edges root pending search).1 := by
  induction pending generalizing search fresh low with
  | nil =>
      rw [follow_nil]
      exact ⟨fresh, low, following⟩
  | cons target rest ih =>
      rw [follow_cons]
      obtain ⟨more, lower, next⟩ := following.step searches few
      apply ih _ next
      have met := Search.unseenCount_meet (· ⊔ ·)
        (visit (· ⊔ ·) edges search target) root target
      have visited := unseenCount_visit (· ⊔ ·) edges search target
      omega

theorem searches (count : Nat) : Searches (α := α) edges initial count := by
  induction count with
  | zero =>
      intro search node unseen few
      exact absurd few (Nat.not_lt_zero _)
  | succ count ih =>
      intro search node unseen few consistent
      rw [traverse_eq]
      have fewer := Search.unseenCount_enter unseen
      obtain ⟨fresh, low, following⟩ :=
        (following_enter consistent unseen).follow ih (by omega)
      exact following.close

/-- Between the searches of the outer loop nothing waits. -/
structure Idle (edges : Fin size → List (Fin size)) (initial : Fin size → α)
    (search : Search α size) : Prop where
  consistent : Consistent edges initial search
  stack : search.stack = []

theorem Idle.visit (idle : Idle edges initial search) (node : Fin size) :
    Idle edges initial (visit (· ⊔ ·) edges search node) ∧
      Kept search (visit (· ⊔ ·) edges search node) ∧
        (visit (· ⊔ ·) edges search node).mark node = .finished := by
  unfold Digraph.visit
  split
  · rename_i unseen
    have visited := searches (search.unseenCount + 1) search node unseen
      (Nat.lt_succ_self _) idle.consistent
    rcases visited with done | ⟨fresh, low, following, le⟩
    · exact ⟨⟨done.consistent, done.stack.trans idle.stack⟩, done.kept,
        done.finished⟩
    · obtain ⟨other, member, -⟩ := following.leaves le node List.mem_cons_self
      rw [idle.stack] at member
      cases member
  · rename_i seen
    refine ⟨idle, fun _ _ => ⟨rfl, rfl⟩, ?_⟩
    apply (idle.consistent.mem_or_finished seen).resolve_left
    rw [idle.stack]
    exact List.not_mem_nil

theorem Idle.visitAll (order : List (Fin size))
    (idle : Idle edges initial search) :
    Idle edges initial (order.foldl (Digraph.visit (· ⊔ ·) edges) search) ∧
      Kept search (order.foldl (Digraph.visit (· ⊔ ·) edges) search) ∧
        ∀ node ∈ order,
          (order.foldl (Digraph.visit (· ⊔ ·) edges) search).mark node =
            .finished := by
  induction order generalizing search with
  | nil => exact ⟨idle, fun _ _ => ⟨rfl, rfl⟩, nofun⟩
  | cons first rest ih =>
      obtain ⟨next, kept, finished⟩ := idle.visit first
      obtain ⟨last, restKept, restFinished⟩ := ih next
      refine ⟨last, kept.trans restKept, ?_⟩
      intro node member
      rcases List.mem_cons.mp member with rfl | later
      · have same := (restKept node (by rw [finished]; exact nofun)).1
        exact same.trans finished
      · exact restFinished node later

/-- The value of each node is the least that includes the values of all nodes
reached from it. -/
theorem unionsIn_le_iff {values : Vector α size} {order : List (Fin size)}
    (all : ∀ node, node ∈ order) {node : Fin size} {bound : α} :
    (unionsIn (· ⊔ ·) edges order values).get node ≤ bound ↔
      ∀ other, Reaches edges node other → values.get other ≤ bound := by
  have start : Idle edges (fun node => values.get node) (.start values) :=
    ⟨consistent_start values, rfl⟩
  obtain ⟨idle, -, finished⟩ := start.visitAll order
  constructor
  · intro le other reaches
    exact (idle.consistent.complete node (finished node (all node)) other
      reaches).2.trans le
  · exact idle.consistent.sound node bound

end Searches

theorem exists_reached (edges : Fin size → List (Fin size))
    (node : Fin size) :
    ∃ nodes : List (Fin size),
      ∀ other, other ∈ nodes ↔ Reaches edges node other := by
  classical
  refine ⟨(List.finRange size).filter fun other =>
    decide (Reaches edges node other), ?_⟩
  intro other
  simp

theorem foldl_sup_le_iff [SemilatticeSup α] {values : Vector α size}
    {nodes : List (Fin size)} {first bound : α} :
    nodes.foldl (fun total node => total ⊔ values.get node) first ≤ bound ↔
      first ≤ bound ∧ ∀ node ∈ nodes, values.get node ≤ bound := by
  induction nodes generalizing first with
  | nil => simp
  | cons node rest ih =>
      rw [List.foldl_cons, ih]
      simp [and_assoc]

section Unions

variable (union : α → α → α) [Std.Associative union] [Std.Commutative union]
  [Std.IdempotentOp union]

/-- The order in which a union is the least upper bound. -/
@[reducible] def inclusion : SemilatticeSup α :=
  let _ : Max α := ⟨union⟩
  SemilatticeSup.mk'
    (show ∀ left right, union left right = union right left from
      Std.Commutative.comm)
    (show ∀ first second third,
        union (union first second) third =
          union first (union second third) from
      Std.Associative.assoc)
    (show ∀ one, union one one = one from Std.IdempotentOp.idempotent)

theorem get_unionsIn {edges : Fin size → List (Fin size)}
    (values : Vector α size) {order : List (Fin size)}
    (all : ∀ node, node ∈ order) {node : Fin size} {nodes : List (Fin size)}
    (reached : ∀ other, other ∈ nodes ↔ Reaches edges node other) :
    (unionsIn union edges order values).get node =
      nodes.foldl (fun total other => union total (values.get other))
        (values.get node) := by
  let _ := inclusion union
  apply eq_of_forall_ge_iff
  intro bound
  refine (unionsIn_le_iff all).trans (Iff.trans ?_ foldl_sup_le_iff.symm)
  constructor
  · intro bounded
    exact ⟨bounded node .refl,
      fun other member => bounded other ((reached other).mp member)⟩
  · intro bounded other reaches
    exact bounded.2 other ((reached other).mpr reaches)

/-- Every node gets the union of its own value and of the values of all nodes
that it reaches, taken in any order; neither the order of the nodes nor the
order and number of equal edges makes a difference. -/
theorem unionsIn_exact (edges : Fin size → List (Fin size))
    (values : Vector α size) (order : List (Fin size))
    (all : ∀ node, node ∈ order) :
    (∀ node (nodes : List (Fin size)),
      (∀ other, other ∈ nodes ↔ Reaches edges node other) →
      (unionsIn union edges order values).get node =
        nodes.foldl (fun total other => union total (values.get other))
          (values.get node)) ∧
      ∀ others : Fin size → List (Fin size),
        (∀ source target : Fin size,
          target ∈ others source ↔ target ∈ edges source) →
        unionsIn union others order values = unions union edges values := by
  constructor
  · intro node nodes reached
    exact get_unionsIn union values all reached
  · intro others same
    have paths : Reaches others = Reaches edges := by
      unfold Reaches
      congr 1
      funext source target
      exact propext (same source target)
    apply Vector.ext
    intro node inside
    obtain ⟨nodes, reached⟩ := exists_reached edges ⟨node, inside⟩
    have again : ∀ other, other ∈ nodes ↔ Reaches others ⟨node, inside⟩ other :=
      paths ▸ reached
    exact (get_unionsIn union values all again).trans
      (get_unionsIn union values List.mem_finRange reached).symm

end Unions

instance associative_union : Std.Associative TerminalSet.union where
  assoc first second third := TerminalSet.ext fun terminal => by
    show terminal ∈ (first ∪ second) ∪ third ↔
      terminal ∈ first ∪ (second ∪ third)
    simp [or_assoc]

instance commutative_union : Std.Commutative TerminalSet.union where
  comm left right := TerminalSet.ext fun terminal => by
    show terminal ∈ left ∪ right ↔ terminal ∈ right ∪ left
    simp [or_comm]

instance idempotent_union : Std.IdempotentOp TerminalSet.union where
  idempotent set := TerminalSet.ext fun terminal => by
    show terminal ∈ set ∪ set ↔ terminal ∈ set
    simp

theorem reaches_iff_mem {edges : Fin size → List (Fin size)}
    {node : Fin size} {nodes : List (Fin size)} (own : node ∈ nodes)
    (closed : ∀ source ∈ nodes, ∀ target ∈ edges source, target ∈ nodes)
    (paths : ∀ other ∈ nodes, Reaches edges node other) (other : Fin size) :
    other ∈ nodes ↔ Reaches edges node other := by
  constructor
  · exact paths other
  · intro reaches
    induction reaches with
    | refl => exact own
    | tail _ edge ih => exact closed _ ih _ edge

/-- A cycle with a loop and a double edge, two nodes that lead to it by way of
each other, and a node apart. -/
def knotted : Fin 6 → List (Fin 6)
  | 0 => [1, 1]
  | 1 => [2]
  | 2 => [0, 2]
  | 3 => [4, 0]
  | 4 => [3]
  | 5 => []

/-- The same edges, listed otherwise. -/
def reknotted : Fin 6 → List (Fin 6)
  | 0 => [1]
  | 1 => [2, 2]
  | 2 => [2, 0]
  | 3 => [0, 4]
  | 4 => [3]
  | 5 => []

/-- Each node carries its own number. -/
def numbers : Vector TerminalSet 6 :=
  #v[⟨1⟩, ⟨2⟩, ⟨4⟩, ⟨8⟩, ⟨16⟩, ⟨32⟩]

/-- Node `3` and those that it reaches, taken from the last node on. -/
theorem unionsIn_exact_knotted :
    (unionsIn TerminalSet.union knotted [5, 4, 3, 2, 1, 0] numbers).get 3 =
        ⟨0b011111⟩ ∧
      unionsIn TerminalSet.union reknotted [5, 4, 3, 2, 1, 0] numbers =
        unions TerminalSet.union knotted numbers := by
  have exact := unionsIn_exact TerminalSet.union knotted numbers
    [5, 4, 3, 2, 1, 0] (by decide)
  have edge {source target : Fin 6} (member : target ∈ knotted source) :
      Reaches knotted source target := .single member
  have toZero : Reaches knotted 3 0 := edge (by decide)
  have toOne : Reaches knotted 3 1 := toZero.trans (edge (by decide))
  have toTwo : Reaches knotted 3 2 := toOne.trans (edge (by decide))
  have reached : ∀ other,
      other ∈ [3, 4, 0, 1, 2] ↔ Reaches knotted 3 other := by
    apply reaches_iff_mem
    · decide
    · decide
    · intro other member
      simp only [List.mem_cons, List.not_mem_nil, or_false] at member
      rcases member with rfl | rfl | rfl | rfl | rfl
      · exact .refl
      · exact edge (by decide)
      · exact toZero
      · exact toOne
      · exact toTwo
  constructor
  · have folded := exact.1 3 [3, 4, 0, 1, 2] reached
    exact folded.trans (by decide)
  · exact exact.2 _ (by decide)

end LRTables.Digraph
