/-!
# Sets and maps in order of insertion

Lists used as sets, and lists of pairs used as maps.  A new entry goes to the
end, and an old one keeps its place.
-/

namespace LRTables.Ordered

variable {α β : Type} [DecidableEq α]

/-- Append a member unless it is present. -/
def insert (members : List α) (member : α) : List α :=
  if member ∈ members then members else members ++ [member]

/-- The value under a key. -/
def find? (entries : List (α × β)) (key : α) : Option β :=
  (entries.find? fun entry => entry.1 == key).map Prod.snd

/-- Replace the value under a key, or append an entry made from `initial`. -/
def update (entries : List (α × β)) (key : α) (initial : β) (change : β → β) :
    List (α × β) :=
  match entries with
  | [] => [(key, change initial)]
  | (first, value) :: rest =>
    if first = key then (first, change value) :: rest
    else (first, value) :: update rest key initial change

/-- Put a value under a key. -/
def put (entries : List (α × β)) (key : α) (value : β) : List (α × β) :=
  update entries key value fun _ => value

theorem mem_insert {members : List α} {member other : α} :
    other ∈ insert members member ↔ other ∈ members ∨ other = member := by
  unfold insert
  split
  · constructor
    · exact Or.inl
    · rintro (present | rfl) <;> assumption
  · simp

theorem nodup_insert {members : List α} (distinct : members.Nodup)
    (member : α) : (insert members member).Nodup := by
  unfold insert
  split
  · exact distinct
  · rename_i absent
    rw [List.nodup_append]
    refine ⟨distinct, by simp, ?_⟩
    intro old oldMember new newMember equal
    rw [List.mem_singleton] at newMember
    exact absent (newMember ▸ equal ▸ oldMember)

section Folds

variable {front members : List α} {member : α}

theorem mem_foldl_insert :
    member ∈ members.foldl insert front ↔
      member ∈ front ∨ member ∈ members := by
  induction members generalizing front with
  | nil => simp
  | cons first rest ih =>
      rw [List.foldl_cons, ih, mem_insert, List.mem_cons, or_assoc]

theorem nodup_foldl_insert (distinct : front.Nodup) :
    (members.foldl insert front).Nodup := by
  induction members generalizing front with
  | nil => exact distinct
  | cons first rest ih => exact ih (nodup_insert distinct first)

theorem length_foldl_insert_le :
    (members.foldl insert front).length ≤ front.length + members.length := by
  induction members generalizing front with
  | nil => exact Nat.le_refl _
  | cons first rest ih =>
      have grown : (insert front first).length ≤ front.length + 1 := by
        unfold insert
        split <;> simp
      have later := @ih (insert front first)
      rw [List.foldl_cons, List.length_cons]
      omega

theorem foldl_insert_of_subset (present : ∀ member ∈ members, member ∈ front) :
    members.foldl insert front = front := by
  induction members with
  | nil => rfl
  | cons first rest ih =>
      rw [List.foldl_cons, insert, if_pos (present first List.mem_cons_self)]
      exact ih fun other later => present other (List.mem_cons_of_mem _ later)

theorem foldl_insert (distinct : (front ++ members).Nodup) :
    members.foldl insert front = front ++ members := by
  induction members generalizing front with
  | nil => rw [List.foldl_nil, List.append_nil]
  | cons first rest ih =>
      have absent : first ∉ front := by
        intro present
        exact (List.nodup_append.mp distinct).2.2 first present first
          List.mem_cons_self rfl
      rw [List.foldl_cons, insert, if_neg absent]
      rw [ih (by rwa [List.append_assoc]), List.append_assoc]
      rfl

end Folds

end LRTables.Ordered
