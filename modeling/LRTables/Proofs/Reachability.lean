import LRTables.Discovery
import Mathlib.Algebra.Group.Nat.Defs
import Mathlib.Data.List.Nodup
import Mathlib.Data.List.Perm.Subperm
import Mathlib.Logic.Relation

/-!
# What a breadth-first search finds

`discover` lists exactly the nodes that the roots reach, each node once, as
soon as its number of bits is large enough for a list that holds them all.
-/

namespace LRTables

open Std

variable {α : Type}

/-- Some root leads to the node in zero or more steps. -/
def ReachedFrom (next : α → List α) (roots : List α) (node : α) : Prop :=
  ∃ root ∈ roots,
    Relation.ReflTransGen (fun source target => target ∈ next source)
      root node

theorem ReachedFrom.step {next : α → List α} {roots : List α}
    {source target : α} (reached : ReachedFrom next roots source)
    (edge : target ∈ next source) : ReachedFrom next roots target := by
  obtain ⟨root, rootMember, path⟩ := reached
  exact ⟨root, rootMember, path.tail edge⟩

namespace Discovered

variable [BEq α] [Hashable α]

/-- The set agrees with the list, and the list has no repetitions. -/
structure Consistent (discovered : Discovered α) : Prop where
  agree : ∀ node, discovered.seen.contains node = true ↔
    node ∈ discovered.nodes
  distinct : discovered.nodes.toList.Nodup

theorem consistent_empty : (empty : Discovered α).Consistent := by
  constructor
  · intro node
    simp [empty]
  · exact List.nodup_nil

theorem mem_add {discovered : Discovered α} (consistent : discovered.Consistent)
    {node other : α} :
    other ∈ (discovered.add node).nodes ↔
      other ∈ discovered.nodes ∨ other = node := by
  unfold add
  split
  · rename_i present
    have member := (consistent.agree node).mp present
    constructor
    · exact Or.inl
    · rintro (old | rfl) <;> assumption
  · simp

theorem add_extends (discovered : Discovered α) (node : α) :
    discovered.nodes.toList <+: (discovered.add node).nodes.toList := by
  unfold add
  split
  · exact List.prefix_refl _
  · simp

theorem addAll_extends (discovered : Discovered α) (nodes : List α) :
    discovered.nodes.toList <+: (discovered.addAll nodes).nodes.toList := by
  unfold addAll
  induction nodes generalizing discovered with
  | nil => exact List.prefix_refl _
  | cons node rest ih => exact (add_extends discovered node).trans (ih _)

variable [LawfulBEq α]

theorem Consistent.add {discovered : Discovered α}
    (consistent : discovered.Consistent) (node : α) :
    (discovered.add node).Consistent := by
  unfold Discovered.add
  split
  · exact consistent
  · rename_i absent
    have fresh : node ∉ discovered.nodes := fun member =>
      absent ((consistent.agree node).mpr member)
    constructor
    · intro other
      have old := consistent.agree other
      simp only [HashSet.contains_insert, Bool.or_eq_true, beq_iff_eq,
        Array.mem_push, old]
      tauto
    · simp only [Array.toList_push, List.nodup_append]
      refine ⟨consistent.distinct, by simp, ?_⟩
      intro old oldMember new newMember equal
      rw [List.mem_singleton] at newMember
      exact fresh (newMember ▸ equal ▸ Array.mem_toList_iff.mp oldMember)

theorem addAll_spec {discovered : Discovered α}
    (consistent : discovered.Consistent) (nodes : List α) :
    (discovered.addAll nodes).Consistent ∧
      ∀ other, other ∈ (discovered.addAll nodes).nodes ↔
        other ∈ discovered.nodes ∨ other ∈ nodes := by
  unfold addAll
  induction nodes generalizing discovered with
  | nil => exact ⟨consistent, by simp⟩
  | cons node rest ih =>
      obtain ⟨restConsistent, restMembers⟩ := ih (consistent.add node)
      refine ⟨restConsistent, ?_⟩
      intro other
      rw [List.foldl_cons, restMembers, mem_add consistent, List.mem_cons,
        or_assoc]

/-- The first `position` nodes have been expanded. -/
def ExpandedBefore (next : α → List α) (position : Nat)
    (discovered : Discovered α) : Prop :=
  ∀ index node, index < position → discovered.nodes[index]? = some node →
    ∀ target ∈ next node, target ∈ discovered.nodes

theorem expandedBefore_addAll {next : α → List α} {position : Nat}
    {discovered : Discovered α} (consistent : discovered.Consistent)
    (expanded : ExpandedBefore next position discovered) {node : α}
    (found : discovered.nodes[position]? = some node) :
    ExpandedBefore next (position + 1) (discovered.addAll (next node)) := by
  obtain ⟨_, members⟩ := addAll_spec consistent (next node)
  intro index other before otherFound target edge
  rw [members]
  have inside : position < discovered.nodes.size :=
    (Array.getElem?_eq_some_iff.mp found).1
  have same : discovered.nodes[index]? = some other := by
    obtain ⟨suffix, extension⟩ := addAll_extends discovered (next node)
    have indexInside : index < discovered.nodes.toList.length := by
      rw [Array.length_toList]
      omega
    rw [← Array.getElem?_toList] at otherFound ⊢
    rwa [← extension, List.getElem?_append_left indexInside] at otherFound
  rcases Nat.lt_succ_iff_lt_or_eq.mp before with earlier | rfl
  · exact Or.inl (expanded index other earlier same target edge)
  · rw [found] at same
    cases same
    exact Or.inr edge

/-- The search stays among the nodes that the roots reach, keeps what it has,
and ends with a list that is closed under `next`. -/
theorem expand_spec {next : α → List α} {roots domain : List α}
    {bits position : Nat} {discovered result : Discovered α}
    (inDomain : ∀ node, ReachedFrom next roots node → node ∈ domain)
    (small : domain.length < 2 ^ bits)
    (consistent : discovered.Consistent)
    (sound : ∀ node ∈ discovered.nodes, ReachedFrom next roots node)
    (expanded : ExpandedBefore next position discovered)
    (outcome : expand next bits position discovered = result) :
    result.Consistent ∧
      (∀ node ∈ discovered.nodes, node ∈ result.nodes) ∧
      (∀ node ∈ result.nodes, ReachedFrom next roots node) ∧
      ∀ node ∈ result.nodes, ∀ target ∈ next node, target ∈ result.nodes := by
  have bounded : discovered.nodes.size ≤ domain.length := by
    have subset : discovered.nodes.toList ⊆ domain := fun node member =>
      inDomain node (sound node (Array.mem_toList_iff.mp member))
    simpa using (List.subperm_of_subset consistent.distinct subset).length_le
  have finished (past : discovered.nodes.size ≤ position) :
      ∀ node ∈ discovered.nodes, ∀ target ∈ next node,
        target ∈ discovered.nodes := by
    intro node member target edge
    obtain ⟨index, inside, found⟩ := Array.getElem_of_mem member
    exact expanded index node (by omega)
      (Array.getElem?_eq_some_iff.mpr ⟨inside, found⟩) target edge
  rw [expand] at outcome
  split at outcome
  · rename_i inside
    split at outcome
    · rename_i absent
      subst outcome
      have past : discovered.nodes.size ≤ position :=
        Array.getElem?_eq_none_iff.mp absent
      exact ⟨consistent, fun _ member => member, sound, finished past⟩
    · rename_i node found
      obtain ⟨addedConsistent, members⟩ := addAll_spec consistent (next node)
      have nodeMember : node ∈ discovered.nodes :=
        Array.mem_of_getElem? found
      have addedSound : ∀ other ∈ (discovered.addAll (next node)).nodes,
          ReachedFrom next roots other := by
        intro other member
        rcases (members other).mp member with old | new
        · exact sound other old
        · exact (sound node nodeMember).step new
      obtain ⟨resultConsistent, kept, resultSound, closed⟩ :=
        expand_spec inDomain small addedConsistent addedSound
          (expandedBefore_addAll consistent expanded found) outcome
      refine ⟨resultConsistent, ?_, resultSound, closed⟩
      intro other member
      exact kept other ((members other).mpr (Or.inl member))
  · rename_i outside
    subst outcome
    have past : discovered.nodes.size ≤ position := by
      rcases Nat.eq_zero_or_pos position with rfl | positive
      · have noBits : bits = 0 := by
          simp at outside
          exact outside
        subst noBits
        rw [Nat.pow_zero] at small
        omega
      · have large : 2 ^ bits ≤ position :=
          (Nat.le_log2 (by omega)).mp (Nat.le_of_not_lt outside)
        omega
    exact ⟨consistent, fun _ member => member, sound, finished past⟩
termination_by (1 <<< bits) - position
decreasing_by
  have below : position < 1 <<< bits := by
    rw [Nat.one_shiftLeft]
    exact Nat.lt_of_lt_of_le Nat.lt_log2_self
      (Nat.pow_le_pow_right (by decide) (by assumption))
  omega

theorem Consistent.expand {next : α → List α}
    {bits position : Nat} {discovered : Discovered α}
    (consistent : discovered.Consistent) :
    (discovered.expand next bits position).Consistent := by
  fun_induction Discovered.expand next bits position discovered with
  | case1 => exact consistent
  | case2 position discovered _ node _ ih =>
      exact ih (addAll_spec consistent (next node)).1
  | case3 => exact consistent

end Discovered

theorem nodup_discover [BEq α] [Hashable α] [LawfulBEq α]
    (next : α → List α) (bits : Nat) (roots : List α) :
    (discover next bits roots).toList.Nodup :=
  (Discovered.addAll_spec Discovered.consistent_empty
    roots).1.expand.distinct

/-- The search finds exactly the nodes that the roots reach. -/
theorem mem_discover [BEq α] [Hashable α] [LawfulBEq α]
    {next : α → List α} {roots domain : List α} {bits : Nat}
    (inDomain : ∀ node, ReachedFrom next roots node → node ∈ domain)
    (small : domain.length < 2 ^ bits) {node : α} :
    node ∈ discover next bits roots ↔ ReachedFrom next roots node := by
  obtain ⟨consistent, members⟩ :=
    Discovered.addAll_spec Discovered.consistent_empty roots
  have rootMembers : ∀ other,
      other ∈ (Discovered.empty.addAll roots).nodes ↔ other ∈ roots := by
    intro other
    rw [members]
    simp [Discovered.empty]
  obtain ⟨_, kept, sound, closed⟩ :=
    Discovered.expand_spec inDomain small consistent
      (fun other member =>
        ⟨other, (rootMembers other).mp member, .refl⟩)
      (fun index _ before => absurd before (Nat.not_lt_zero index)) rfl
  constructor
  · exact sound node
  · rintro ⟨root, rootMember, path⟩
    induction path with
    | refl => exact kept root ((rootMembers root).mpr rootMember)
    | tail _ edge ih => exact closed _ ih _ edge

end LRTables
