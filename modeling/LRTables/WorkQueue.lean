/-!
# Work queues

A first-in first-out queue that holds each waiting value once.  Pushing a
value that is already waiting leaves the queue as it is.
-/

namespace LRTables

/-- The waiting values, oldest first. -/
structure WorkQueue (α : Type) where
  waiting : List α
  nodup : waiting.Nodup

namespace WorkQueue

variable {α : Type}

def empty : WorkQueue α :=
  { waiting := []
    nodup := List.nodup_nil }

def isEmpty (queue : WorkQueue α) : Bool :=
  queue.waiting.isEmpty

/-- Remove the oldest value. -/
def pop (queue : WorkQueue α) : Option (α × WorkQueue α) :=
  match queue with
  | ⟨[], _⟩ => none
  | ⟨value :: rest, nodup⟩ => some (value, ⟨rest, (List.nodup_cons.mp nodup).2⟩)

theorem pop_eq_none {queue : WorkQueue α} :
    queue.pop = none ↔ queue.waiting = [] := by
  cases queue with
  | mk waiting nodup => cases waiting <;> simp [pop]

theorem waiting_of_pop {queue rest : WorkQueue α} {value : α}
    (popped : queue.pop = some (value, rest)) :
    queue.waiting = value :: rest.waiting := by
  cases queue with
  | mk waiting nodup =>
    cases waiting with
    | nil => simp [pop] at popped
    | cons first others =>
      simp only [pop, Option.some.injEq, Prod.mk.injEq] at popped
      obtain ⟨rfl, rfl⟩ := popped
      rfl

variable [DecidableEq α]

/-- Append a value unless it is already waiting. -/
def push (queue : WorkQueue α) (value : α) : WorkQueue α :=
  if member : value ∈ queue.waiting then queue
  else
    { waiting := queue.waiting ++ [value]
      nodup := by
        rw [List.nodup_append]
        refine ⟨queue.nodup, by simp, ?_⟩
        intro old oldMember new newMember equal
        rw [List.mem_singleton] at newMember
        exact member (newMember ▸ equal ▸ oldMember) }

/-- Push every value of a list, first to last. -/
def pushAll (queue : WorkQueue α) (values : List α) : WorkQueue α :=
  values.foldl push queue

def ofList (values : List α) : WorkQueue α :=
  empty.pushAll values

theorem waiting_push (queue : WorkQueue α) (value : α) :
    (queue.push value).waiting =
      if value ∈ queue.waiting then queue.waiting
      else queue.waiting ++ [value] := by
  unfold push
  split <;> rfl

theorem mem_push {queue : WorkQueue α} {value other : α} :
    other ∈ (queue.push value).waiting ↔
      other ∈ queue.waiting ∨ other = value := by
  rw [waiting_push]
  split
  · constructor
    · exact Or.inl
    · rintro (member | rfl) <;> assumption
  · simp

theorem length_push_le (queue : WorkQueue α) (value : α) :
    (queue.push value).waiting.length ≤ queue.waiting.length + 1 := by
  rw [waiting_push]
  split
  · exact Nat.le_succ _
  · simp

theorem mem_pushAll {queue : WorkQueue α} {values : List α} {other : α} :
    other ∈ (queue.pushAll values).waiting ↔
      other ∈ queue.waiting ∨ other ∈ values := by
  unfold pushAll
  induction values generalizing queue with
  | nil => simp
  | cons value rest ih =>
      rw [List.foldl_cons, ih, mem_push, List.mem_cons, or_assoc]

theorem length_pushAll_le (queue : WorkQueue α) (values : List α) :
    (queue.pushAll values).waiting.length ≤
      queue.waiting.length + values.length := by
  unfold pushAll
  induction values generalizing queue with
  | nil => simp
  | cons value rest ih =>
      have bound := ih (queue.push value)
      have step := queue.length_push_le value
      rw [List.foldl_cons, List.length_cons]
      omega

theorem mem_ofList {values : List α} {other : α} :
    other ∈ (ofList values).waiting ↔ other ∈ values := by
  rw [ofList, mem_pushAll]
  simp [empty]

theorem waiting_pushAll {queue : WorkQueue α} {values : List α}
    (distinct : (queue.waiting ++ values).Nodup) :
    (queue.pushAll values).waiting = queue.waiting ++ values := by
  induction values generalizing queue with
  | nil => simp [pushAll]
  | cons value rest ih =>
      have fresh : value ∉ queue.waiting := by
        intro member
        exact (List.nodup_append.mp distinct).2.2 value member value
          List.mem_cons_self rfl
      have pushed : (queue.push value).waiting = queue.waiting ++ [value] := by
        rw [waiting_push, if_neg fresh]
      have split : queue.waiting ++ value :: rest =
          (queue.push value).waiting ++ rest := by
        rw [pushed, List.append_assoc, List.singleton_append]
      rw [split] at distinct ⊢
      exact ih distinct

theorem waiting_ofList {values : List α} (distinct : values.Nodup) :
    (ofList values).waiting = values :=
  waiting_pushAll distinct

theorem length_ofList_le (values : List α) :
    (ofList values).waiting.length ≤ values.length := by
  have bound := length_pushAll_le empty values
  simpa [ofList, empty] using bound

end WorkQueue

end LRTables
