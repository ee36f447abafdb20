/-!
# Unions along the edges of a graph

Each node carries a value.  `unions` gives every node the union of its own
value and of the values of all nodes that it reaches.  One depth-first search
is enough: the nodes of a component wait on a stack until the search returns to
the first of them, and then share its value.
-/

namespace LRTables.Digraph

/-- How far the search is with a node. -/
inductive Mark where
  | unseen
  /-- The node is on the stack, and it reaches the one at height `low`. -/
  | waiting (low : Nat)
  | finished
deriving DecidableEq, Repr

/-- A waiting node reaches what the target of its edge reaches. -/
def Mark.lower : Mark → Mark → Mark
  | .waiting own, .waiting other => .waiting (min own other)
  | own, _ => own

theorem Mark.eq_unseen_of_lower {own other : Mark}
    (lowered : own.lower other = .unseen) : own = .unseen := by
  cases own with
  | unseen => rfl
  | waiting low => cases other <;> cases lowered
  | finished => cases lowered

structure Search (α : Type) (size : Nat) where
  values : Vector α size
  marks : Vector Mark size
  /-- The waiting nodes, the last one first. -/
  stack : List (Fin size)

namespace Search

variable {α : Type} {size : Nat}

/-- No node has been seen. -/
def start (values : Vector α size) : Search α size :=
  { values
    marks := .replicate size .unseen
    stack := [] }

def value (search : Search α size) (node : Fin size) : α :=
  have inside : node.val < search.values.toArray.size :=
    Nat.lt_of_lt_of_eq node.isLt search.values.size_toArray.symm
  search.values.toArray[node.val]

def mark (search : Search α size) (node : Fin size) : Mark :=
  have inside : node.val < search.marks.toArray.size :=
    Nat.lt_of_lt_of_eq node.isLt search.marks.size_toArray.symm
  search.marks.toArray[node.val]

def setValue (search : Search α size) (node : Fin size) (value : α) :
    Search α size :=
  { search with values := search.values.set node value node.isLt }

def setMark (search : Search α size) (node : Fin size) (mark : Mark) :
    Search α size :=
  { search with marks := search.marks.set node mark node.isLt }

def setStack (search : Search α size) (stack : List (Fin size)) :
    Search α size :=
  { search with stack }

/-- A node goes on top of the stack.  So far it reaches itself only. -/
def enter (search : Search α size) (node : Fin size) : Search α size :=
  let height := search.stack.length + 1
  (search.setMark node (.waiting height)).setStack (node :: search.stack)

variable (union : α → α → α)

/-- The value of another node goes into that of `node`. -/
def absorb (search : Search α size) (node other : Fin size) : Search α size :=
  search.setValue node (union (search.value node) (search.value other))

/-- Take account of an edge whose target has been seen. -/
def meet (search : Search α size) (node target : Fin size) : Search α size :=
  let lowered :=
    search.setMark node ((search.mark node).lower (search.mark target))
  if node = target then lowered else lowered.absorb union node target

/-- The nodes on a stack down to `root` are finished and share its value. -/
def release (root : Fin size) :
    List (Fin size) → Search α size → Search α size
  | [], search => search.setStack []
  | node :: rest, search =>
    let popped := (search.setMark node .finished).setStack rest
    if node = root then popped
    else release root rest (popped.absorb union node root)

/-- The edges of `node`, which stands at `height`, have been followed.  Unless
one of them leads further down, its component is complete. -/
def close (search : Search α size) (node : Fin size) (height : Nat) :
    Search α size :=
  if search.mark node = .waiting height then
    release union node search.stack search
  else search

def unseenCount (search : Search α size) : Nat :=
  search.marks.count .unseen

theorem unseenCount_setMark_lt {search : Search α size} {node : Fin size}
    {mark : Mark} (unseen : search.mark node = .unseen)
    (seen : mark ≠ .unseen) :
    (search.setMark node mark).unseenCount < search.unseenCount := by
  have old : search.marks[node.val] = .unseen := unseen
  have counted : 0 < search.marks.count .unseen :=
    Vector.count_pos_iff.mpr (old ▸ Vector.getElem_mem node.isLt)
  simp only [unseenCount, setMark, Vector.count_set, old, beq_self_eq_true,
    if_true, beq_iff_eq, if_neg seen]
  omega

theorem unseenCount_setMark_le (search : Search α size) (node : Fin size)
    (mark : Mark) (seen : mark = .unseen → search.mark node = .unseen) :
    (search.setMark node mark).unseenCount ≤ search.unseenCount := by
  by_cases unseen : mark = .unseen
  · have same : search.marks.set node mark = search.marks := by
      rw [unseen, ← seen unseen]
      exact Vector.set_getElem_self node.isLt
    have count : (search.setMark node mark).unseenCount =
        search.unseenCount := by
      rw [unseenCount, setMark, same, unseenCount]
    exact Nat.le_of_eq count
  · simp only [unseenCount, setMark, Vector.count_set, beq_iff_eq,
      if_neg unseen]
    omega

theorem unseenCount_enter {search : Search α size} {node : Fin size}
    (unseen : search.mark node = .unseen) :
    (search.enter node).unseenCount < search.unseenCount :=
  unseenCount_setMark_lt unseen nofun

theorem unseenCount_meet (search : Search α size) (node target : Fin size) :
    (search.meet union node target).unseenCount ≤ search.unseenCount := by
  have lowered := unseenCount_setMark_le search node
    ((search.mark node).lower (search.mark target))
    Mark.eq_unseen_of_lower
  unfold meet
  split
  · exact lowered
  · exact lowered

theorem unseenCount_release (root : Fin size) (stack : List (Fin size))
    (search : Search α size) :
    (release union root stack search).unseenCount ≤ search.unseenCount := by
  induction stack generalizing search with
  | nil => exact Nat.le_refl _
  | cons node rest ih =>
      have popped := unseenCount_setMark_le search node .finished nofun
      unfold release
      split
      · exact popped
      · exact Nat.le_trans (ih _) popped

theorem unseenCount_close (search : Search α size) (node : Fin size)
    (height : Nat) :
    (search.close union node height).unseenCount ≤ search.unseenCount := by
  unfold close
  split
  · exact unseenCount_release union node search.stack search
  · exact Nat.le_refl _

end Search

section Traversal

variable {α : Type} {size : Nat} (union : α → α → α)
  (edges : Fin size → List (Fin size))

-- The loop over the edges goes on with what the inner searches leave, so every
-- result carries the proof that no node has become unseen again.
mutual

/-- Search from a node that has not been seen. -/
def traverse (search : Search α size) (node : Fin size)
    (unseen : search.mark node = .unseen) :
    { next : Search α size // next.unseenCount < search.unseenCount } :=
  let followed := follow node (edges node) (search.enter node)
  ⟨followed.1.close union node (search.stack.length + 1),
    Nat.lt_of_le_of_lt (Search.unseenCount_close union _ _ _)
      (Nat.lt_of_le_of_lt followed.2 (Search.unseenCount_enter unseen))⟩
termination_by (search.unseenCount, 0)
decreasing_by exact .left _ _ (Search.unseenCount_enter unseen)

/-- Follow the edges of a node to these targets. -/
def follow (node : Fin size) (targets : List (Fin size))
    (search : Search α size) :
    { next : Search α size // next.unseenCount ≤ search.unseenCount } :=
  match targets with
  | [] => ⟨search, Nat.le_refl _⟩
  | target :: rest =>
    let visited :
        { next : Search α size // next.unseenCount ≤ search.unseenCount } :=
      if unseen : search.mark target = .unseen then
        let next := traverse search target unseen
        ⟨next.1, Nat.le_of_lt next.2⟩
      else ⟨search, Nat.le_refl _⟩
    have fewer := Nat.le_trans
      (Search.unseenCount_meet union visited.1 node target) visited.2
    let next := follow node rest (visited.1.meet union node target)
    ⟨next.1, Nat.le_trans next.2 fewer⟩
termination_by (search.unseenCount, targets.length + 1)
decreasing_by
  · exact .right _ (Nat.succ_pos _)
  · rcases Nat.lt_or_eq_of_le fewer with less | same
    · exact .left _ _ less
    · rw [same]
      exact .right _ (Nat.lt_succ_self _)

end

/-- Search from a node unless it has been seen. -/
def visit (search : Search α size) (node : Fin size) : Search α size :=
  if unseen : search.mark node = .unseen then
    (traverse union edges search node unseen).1
  else search

/-- The unions, with the nodes taken in the given order. -/
def unionsIn (order : List (Fin size)) (values : Vector α size) :
    Vector α size :=
  (order.foldl (visit union edges) (.start values)).values

def unions (values : Vector α size) : Vector α size :=
  unionsIn union edges (List.finRange size) values

end Traversal

end LRTables.Digraph
