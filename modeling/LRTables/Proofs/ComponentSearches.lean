import LRTables.Digraph
import Mathlib.Data.List.Nodup
import Mathlib.Logic.Relation
import Mathlib.Order.Lattice

/-!
# States of the component search

What holds between any two steps of the search: which nodes wait on the stack,
what their marks say about the nodes that they reach, and how far their values
have got.
-/

namespace LRTables.Digraph

variable {α : Type} {size : Nat}

theorem get_set {items : Vector α size} {node other : Fin size} {item : α} :
    (items.set node item node.isLt).get other =
      if other = node then item else items.get other := by
  show (items.set node item node.isLt)[other.val] = _
  rw [Vector.getElem_set]
  simp only [Fin.val_inj, eq_comm]
  rfl

namespace Search

variable {search : Search α size} {node other : Fin size}

@[simp] theorem value_setValue {value : α} :
    (search.setValue node value).value other =
      if other = node then value else search.value other :=
  get_set

@[simp] theorem value_setMark {mark : Mark} :
    (search.setMark node mark).value other = search.value other :=
  rfl

@[simp] theorem value_setStack {stack : List (Fin size)} :
    (search.setStack stack).value other = search.value other :=
  rfl

@[simp] theorem mark_setValue {value : α} :
    (search.setValue node value).mark other = search.mark other :=
  rfl

@[simp] theorem mark_setMark {mark : Mark} :
    (search.setMark node mark).mark other =
      if other = node then mark else search.mark other :=
  get_set

@[simp] theorem mark_setStack {stack : List (Fin size)} :
    (search.setStack stack).mark other = search.mark other :=
  rfl

@[simp] theorem stack_setValue {value : α} :
    (search.setValue node value).stack = search.stack :=
  rfl

@[simp] theorem stack_setMark {mark : Mark} :
    (search.setMark node mark).stack = search.stack :=
  rfl

@[simp] theorem stack_setStack {stack : List (Fin size)} :
    (search.setStack stack).stack = stack :=
  rfl

@[simp] theorem value_enter :
    (search.enter node).value other = search.value other :=
  rfl

@[simp] theorem mark_enter :
    (search.enter node).mark other =
      if other = node then .waiting (search.stack.length + 1)
      else search.mark other := by
  simp [enter]

@[simp] theorem stack_enter :
    (search.enter node).stack = node :: search.stack :=
  rfl

variable {union : α → α → α}

@[simp] theorem mark_meet {target : Fin size} :
    (search.meet union node target).mark other =
      if other = node then (search.mark node).lower (search.mark target)
      else search.mark other := by
  unfold meet
  split
  · simp
  · simp [absorb]

@[simp] theorem stack_meet {target : Fin size} :
    (search.meet union node target).stack = search.stack := by
  unfold meet
  split
  · rfl
  · rfl

variable [SemilatticeSup α]

@[simp] theorem value_meet {target : Fin size} :
    (search.meet (· ⊔ ·) node target).value other =
      if other = node then search.value node ⊔ search.value target
      else search.value other := by
  unfold meet
  split
  · rename_i same
    subst same
    simp only [value_setMark, sup_idem]
    split
    · rename_i same
      rw [same]
    · rfl
  · simp [absorb]

/-- A component has left the stack, and all its nodes have got the value of the
first. -/
structure Released (search : Search α size) (root : Fin size)
    (fresh below : List (Fin size)) (released : Search α size) : Prop where
  stack : released.stack = below
  finished : ∀ node ∈ root :: fresh, released.mark node = .finished
  marks : ∀ node ∉ root :: fresh, released.mark node = search.mark node
  shared : ∀ node ∈ fresh,
    released.value node = search.value node ⊔ search.value root
  values : ∀ node ∉ fresh, released.value node = search.value node

theorem released_release (search : Search α size) {root : Fin size}
    {fresh below : List (Fin size)}
    (distinct : (fresh ++ root :: below).Nodup) :
    search.Released root fresh below
      (release (· ⊔ ·) root (fresh ++ root :: below) search) := by
  induction fresh generalizing search with
  | nil =>
      rw [List.nil_append, release, if_pos rfl]
      constructor <;> simp +contextual
  | cons head rest ih =>
      simp only [List.cons_append, List.nodup_cons, List.mem_append,
        List.mem_cons, not_or] at distinct
      obtain ⟨⟨notRest, notRoot, -⟩, distinct⟩ := distinct
      have rootKept : root ≠ head := Ne.symm notRoot
      rw [List.cons_append, release, if_neg notRoot]
      have inner := ih
        (((search.setMark head .finished).setStack
          (rest ++ root :: below)).absorb (· ⊔ ·) head root) distinct
      have headMark : head ∉ root :: rest := by simp [notRoot, notRest]
      constructor
      · exact inner.stack
      · intro node member
        by_cases same : node = head
        · subst same
          rw [inner.marks node headMark]
          simp [absorb]
        · apply inner.finished
          simpa [same] using member
      · intro node member
        simp only [List.mem_cons, not_or] at member
        obtain ⟨notRoot, different, outside⟩ := member
        rw [inner.marks node (by simp [notRoot, outside])]
        simp [absorb, different]
      · intro node member
        by_cases same : node = head
        · subst same
          rw [inner.values node notRest]
          simp [absorb]
        · have inRest : node ∈ rest := by simpa [same] using member
          rw [inner.shared node inRest]
          simp [absorb, same, rootKept]
      · intro node member
        simp only [List.mem_cons, not_or] at member
        rw [inner.values node member.2]
        simp [absorb, member.1]

end Search

/-- A node of a stack with so many nodes up to and with it. -/
def StandsAt (stack : List (Fin size)) (node : Fin size) (height : Nat) :
    Prop :=
  ∃ below, (node :: below) <:+ stack ∧ below.length + 1 = height

theorem standsAt_head (node : Fin size) (stack : List (Fin size)) :
    StandsAt (node :: stack) node (stack.length + 1) :=
  ⟨stack, List.suffix_refl _, rfl⟩

theorem exists_standsAt {stack : List (Fin size)} {node : Fin size}
    (member : node ∈ stack) : ∃ height, StandsAt stack node height := by
  obtain ⟨above, below, split⟩ := List.append_of_mem member
  exact ⟨_, below, ⟨above, split.symm⟩, rfl⟩

namespace StandsAt

variable {stack : List (Fin size)} {node : Fin size} {height : Nat}

theorem mem (stands : StandsAt stack node height) : node ∈ stack := by
  obtain ⟨below, suffix, -⟩ := stands
  exact suffix.subset List.mem_cons_self

theorem le_length (stands : StandsAt stack node height) :
    height ≤ stack.length := by
  obtain ⟨below, suffix, rfl⟩ := stands
  exact suffix.length_le

theorem append (stands : StandsAt stack node height)
    (above : List (Fin size)) : StandsAt (above ++ stack) node height := by
  obtain ⟨below, suffix, counted⟩ := stands
  exact ⟨below, suffix.trans (List.suffix_append above stack), counted⟩

theorem of_append {above : List (Fin size)}
    (stands : StandsAt (above ++ stack) node height)
    (low : height ≤ stack.length) : StandsAt stack node height := by
  obtain ⟨below, suffix, rfl⟩ := stands
  have shorter : (node :: below) <:+ stack :=
    List.suffix_of_suffix_length_le suffix (List.suffix_append above stack)
      low
  exact ⟨below, shorter, rfl⟩

theorem cons_cases {head : Fin size}
    (stands : StandsAt (head :: stack) node height) :
    node = head ∧ height = stack.length + 1 ∨
      StandsAt stack node height := by
  obtain ⟨below, suffix, rfl⟩ := stands
  rcases List.suffix_cons_iff.mp suffix with whole | inner
  · simp only [List.cons.injEq] at whole
    obtain ⟨rfl, rfl⟩ := whole
    exact Or.inl ⟨rfl, rfl⟩
  · exact Or.inr ⟨below, inner, rfl⟩

end StandsAt

/-- Some path leads from the first node to the second. -/
def Reaches (edges : Fin size → List (Fin size)) :
    Fin size → Fin size → Prop :=
  Relation.ReflTransGen fun source target => target ∈ edges source

section Invariants

variable [SemilatticeSup α] {edges : Fin size → List (Fin size)}
  {initial : Fin size → α} {search : Search α size}
  {root target : Fin size}

/-- What holds between any two steps of the search. -/
structure Consistent (edges : Fin size → List (Fin size))
    (initial : Fin size → α) (search : Search α size) : Prop where
  distinct : search.stack.Nodup
  waits : ∀ node, node ∈ search.stack ↔
    ∃ low, search.mark node = .waiting low
  own : ∀ node, initial node ≤ search.value node
  /-- No value has more than it should have in the end. -/
  sound : ∀ node bound,
    (∀ other, Reaches edges node other → initial other ≤ bound) →
      search.value node ≤ bound
  /-- The value of a finished node has all that it should have. -/
  complete : ∀ node, search.mark node = .finished →
    ∀ other, Reaches edges node other →
      search.mark other = .finished ∧ initial other ≤ search.value node
  /-- A waiting node reaches one that stands at the height of its mark or
  below. -/
  lows : ∀ node height, StandsAt search.stack node height →
    ∃ low, search.mark node = .waiting low ∧ low ≤ height ∧
      ∃ lowest rank, StandsAt search.stack lowest rank ∧ rank ≤ low ∧
        Reaches edges node lowest

theorem consistent_start (values : Vector α size) :
    Consistent edges (fun node => values.get node) (.start values) := by
  have unseen (node : Fin size) :
      (Search.start values).mark node = .unseen :=
    Vector.getElem_replicate node.isLt
  constructor
  · exact List.nodup_nil
  · intro node
    rw [unseen]
    simp [Search.start]
  · exact fun node => le_refl _
  · exact fun node bound bounded => bounded node .refl
  · intro node finished
    rw [unseen] at finished
    cases finished
  · intro node height stands
    cases stands.mem

namespace Consistent

theorem ne_unseen_of_mem (consistent : Consistent edges initial search)
    {node : Fin size} (member : node ∈ search.stack) :
    search.mark node ≠ .unseen := by
  obtain ⟨low, waiting⟩ := (consistent.waits node).mp member
  rw [waiting]
  exact nofun

theorem mem_or_finished (consistent : Consistent edges initial search)
    {node : Fin size} (seen : search.mark node ≠ .unseen) :
    node ∈ search.stack ∨ search.mark node = .finished := by
  cases mark : search.mark node with
  | unseen => exact absurd mark seen
  | waiting low => exact Or.inl ((consistent.waits node).mpr ⟨low, mark⟩)
  | finished => exact Or.inr rfl

theorem low_le (consistent : Consistent edges initial search)
    {node : Fin size} {low height : Nat}
    (waiting : search.mark node = .waiting low)
    (stands : StandsAt search.stack node height) : low ≤ height := by
  obtain ⟨other, same, le, -⟩ := consistent.lows node height stands
  rw [waiting] at same
  cases same
  exact le

theorem exists_lowest (consistent : Consistent edges initial search)
    {node : Fin size} {low : Nat}
    (waiting : search.mark node = .waiting low) :
    ∃ lowest rank, StandsAt search.stack lowest rank ∧ rank ≤ low ∧
      Reaches edges node lowest := by
  obtain ⟨height, stands⟩ :=
    exists_standsAt ((consistent.waits node).mpr ⟨low, waiting⟩)
  obtain ⟨other, same, -, lowest⟩ := consistent.lows node height stands
  rw [waiting] at same
  cases same
  exact lowest

theorem enter (consistent : Consistent edges initial search)
    (unseen : search.mark root = .unseen) :
    Consistent edges initial (search.enter root) := by
  have fresh : root ∉ search.stack := fun member =>
    consistent.ne_unseen_of_mem member unseen
  constructor
  · exact List.nodup_cons.mpr ⟨fresh, consistent.distinct⟩
  · intro node
    by_cases same : node = root
    · simp [same]
    · simp [same, consistent.waits]
  · exact consistent.own
  · exact consistent.sound
  · intro node finished other reaches
    rw [Search.mark_enter] at finished
    split at finished
    · cases finished
    · obtain ⟨otherFinished, covered⟩ :=
        consistent.complete node finished other reaches
      have different : other ≠ root := by
        intro same
        rw [same, unseen] at otherFinished
        cases otherFinished
      simp [different, otherFinished, covered]
  · intro node height stands
    rw [Search.stack_enter] at stands ⊢
    rcases stands.cons_cases with ⟨rfl, rfl⟩ | inner
    · exact ⟨_, by simp, le_refl _, node, _, standsAt_head node _, le_refl _,
        .refl⟩
    · obtain ⟨low, waiting, le, lowest, rank, lowestStands, rankLe, reaches⟩ :=
        consistent.lows node height inner
      have different : node ≠ root := fun same => fresh (same ▸ inner.mem)
      exact ⟨low, by simp [different, waiting], le, lowest, rank,
        lowestStands.append [root], rankLe, reaches⟩

theorem meet (consistent : Consistent edges initial search)
    {low : Nat} (waiting : search.mark root = .waiting low)
    (edge : target ∈ edges root) :
    Consistent edges initial (search.meet (· ⊔ ·) root target) := by
  have leads : Reaches edges root target := .single edge
  have lowered : ∃ other,
      (search.mark root).lower (search.mark target) = .waiting other ∧
        other ≤ low ∧
        ∃ lowest rank, StandsAt search.stack lowest rank ∧ rank ≤ other ∧
          Reaches edges root lowest := by
    have own := consistent.exists_lowest waiting
    rw [waiting]
    cases mark : search.mark target with
    | unseen => exact ⟨low, rfl, le_refl _, own⟩
    | finished => exact ⟨low, rfl, le_refl _, own⟩
    | waiting other =>
        refine ⟨min low other, rfl, Nat.min_le_left _ _, ?_⟩
        rcases Nat.le_total low other with le | le
        · rwa [Nat.min_eq_left le]
        · rw [Nat.min_eq_right le]
          obtain ⟨lowest, rank, stands, rankLe, reaches⟩ :=
            consistent.exists_lowest mark
          exact ⟨lowest, rank, stands, rankLe, leads.trans reaches⟩
  constructor
  · simpa using consistent.distinct
  · intro node
    by_cases same : node = root
    · obtain ⟨other, isOther, -⟩ := lowered
      simp [same, isOther, (consistent.waits root).mpr ⟨low, waiting⟩]
    · simp [same, consistent.waits]
  · intro node
    rw [Search.value_meet]
    split
    · rename_i same
      subst same
      exact (consistent.own node).trans le_sup_left
    · exact consistent.own node
  · intro node bound bounded
    rw [Search.value_meet]
    split
    · rename_i same
      subst same
      apply sup_le (consistent.sound node bound bounded)
      apply consistent.sound target bound
      exact fun other reaches => bounded other (leads.trans reaches)
    · exact consistent.sound node bound bounded
  · intro node finished other reaches
    rw [Search.mark_meet] at finished
    split at finished
    · obtain ⟨still, isStill, -⟩ := lowered
      rw [isStill] at finished
      cases finished
    · rename_i different
      obtain ⟨otherFinished, covered⟩ :=
        consistent.complete node finished other reaches
      have otherDifferent : other ≠ root := by
        intro same
        rw [same, waiting] at otherFinished
        cases otherFinished
      simp [different, otherDifferent, otherFinished, covered]
  · intro node height stands
    rw [Search.stack_meet] at stands ⊢
    by_cases same : node = root
    · subst same
      obtain ⟨other, isOther, le, lowest⟩ := lowered
      exact ⟨other, by simp [isOther],
        le.trans (consistent.low_le waiting stands), lowest⟩
    · obtain ⟨own, isOwn, rest⟩ := consistent.lows node height stands
      exact ⟨own, by simp [same, isOwn], rest⟩

end Consistent

end Invariants

end LRTables.Digraph
