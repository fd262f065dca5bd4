/-!
# First-in first-out queues

The worklist of every solver in this library. A queue is a growing buffer with a read position; the
view `toList` is what is still waiting. The cells before the read position are cleared.

* `toList_push` — pushing appends at the back of the view;
* `pop?_eq_none_iff`, `toList_pop?` — popping takes the front of the view, and fails only on an
  empty queue.
-/

namespace WholeProgram

/-- A queue holds the elements of `buffer` from position `head` on. -/
structure Queue (α : Type) where
  buffer : Array α
  head : Nat
  head_le : head ≤ buffer.size

namespace Queue

variable {α : Type}

/-- The queue without elements. -/
def empty : Queue α := { buffer := #[], head := 0, head_le := Nat.zero_le _ }

instance : Inhabited (Queue α) := ⟨empty⟩

/-- The waiting elements, the next one first. -/
def toList (q : Queue α) : List α := q.buffer.toList.drop q.head

/-- Number of waiting elements. -/
def size (q : Queue α) : Nat := q.buffer.size - q.head

/-- No element is waiting. -/
def isEmpty (q : Queue α) : Bool := q.size == 0

/-- Adds an element at the back. -/
def push (q : Queue α) (a : α) : Queue α where
  buffer := q.buffer.push a
  head := q.head
  head_le := by
    have := q.head_le
    simp only [Array.size_push]
    omega

/-- Adds the elements of a list at the back, in order. -/
def pushAll (q : Queue α) (as : List α) : Queue α := as.foldl push q

/-- How far the read position may advance before the buffer is cut. -/
def slack : Nat := 1024

/-- The queue of a buffer that was read up to `head`. A buffer that was read to its end is dropped, and
one that was read for more than half (and more than `slack` elements) is cut to what is still waiting. -/
def readTo (buffer : Array α) (head : Nat) (head_le : head ≤ buffer.size) : Queue α :=
  if head = buffer.size then
    empty
  else if slack < head ∧ buffer.size < head * 2 then
    { buffer := buffer.extract head buffer.size, head := 0, head_le := Nat.zero_le _ }
  else
    { buffer, head, head_le }

/-- Takes the front element, and clears its cell. -/
def pop? [Inhabited α] (q : Queue α) : Option (α × Queue α) :=
  if h : q.head < q.buffer.size then
    some (q.buffer[q.head], readTo (q.buffer.set q.head default) (q.head + 1) (by rwa [Array.size_set]))
  else
    none

/-- The queue of the elements of a list. -/
def ofList (as : List α) : Queue α := { buffer := as.toArray, head := 0, head_le := by omega }

@[simp]
theorem toList_empty : (empty : Queue α).toList = [] := rfl

@[simp]
theorem toList_ofList (as : List α) : (ofList as).toList = as := by
  simp [ofList, toList]

@[simp]
theorem length_toList (q : Queue α) : q.toList.length = q.size := by
  simp [toList, size]

@[simp]
theorem toList_push (q : Queue α) (a : α) : (q.push a).toList = q.toList ++ [a] := by
  have := q.head_le
  simp only [toList, push, Array.toList_push]
  rw [List.drop_append_of_le_length (by simpa using this)]

@[simp]
theorem toList_pushAll (q : Queue α) (as : List α) : (q.pushAll as).toList = q.toList ++ as := by
  induction as generalizing q with
  | nil => simp [pushAll]
  | cons a as ih =>
    have := ih (q.push a)
    simp only [pushAll, List.foldl_cons] at this ⊢
    rw [this]
    simp

/-- Dropping or cutting the buffer leaves what is waiting. -/
theorem toList_readTo (buffer : Array α) (head : Nat) (h : head ≤ buffer.size) :
    (readTo buffer head h).toList = buffer.toList.drop head := by
  unfold readTo
  split
  · rename_i hend
    simp [hend]
  · split
    · simp only [toList, Array.toList_extract, List.extract_eq_take_drop, List.drop_zero]
      rw [List.take_of_length_le (by simp)]
    · rfl

section

variable [Inhabited α]

/-- Popping fails exactly on an empty queue. -/
theorem pop?_eq_none_iff (q : Queue α) : q.pop? = none ↔ q.toList = [] := by
  simp [pop?, toList, List.drop_eq_nil_iff]

/-- Popping takes the front of the view and leaves the rest. -/
theorem toList_pop? (q r : Queue α) (a : α) (h : q.pop? = some (a, r)) : q.toList = a :: r.toList := by
  unfold pop? at h
  split at h
  · rename_i hlt
    obtain ⟨rfl, rfl⟩ := Prod.mk.inj (Option.some.inj h)
    -- clearing the cell of the front leaves those behind it
    rw [toList_readTo, Array.toList_set, List.drop_set_of_lt (Nat.lt_succ_self _), toList,
      List.drop_eq_getElem_cons (by simpa using hlt), Array.getElem_toList]
  · cases h

end

end Queue

end WholeProgram
