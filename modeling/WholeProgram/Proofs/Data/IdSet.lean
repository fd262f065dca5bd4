import Mathlib.Data.Finset.Card
import WholeProgram.Data.IdSet

/-!
# Members of sets of numbers

The members of a set are listed in increasing order, so each of them once. The set of the numbers in a
list has these as its members (`mem_ofList`). As a finite set it has fewer members than another when one
that the other has is missing (`card_toFinset_lt`).
-/

namespace WholeProgram.IdSet

variable {s t : IdSet} {i : Nat}

theorem nodup_toList (s : IdSet) : s.toList.Nodup := (pairwise_toList s).imp Nat.ne_of_lt

@[simp]
theorem mem_foldl_insert (is : List Nat) (s : IdSet) (i : Nat) :
    i ∈ is.foldl insert s ↔ i ∈ is ∨ i ∈ s := by
  induction is generalizing s with
  | nil => simp
  | cons j is ih =>
    rw [List.foldl_cons, ih, mem_insert, List.mem_cons]
    tauto

theorem mem_ofList {is : List Nat} : i ∈ ofList is ↔ i ∈ is :=
  (mem_foldl_insert is ∅ i).trans (or_iff_left (not_mem_empty i))

/-- The members as a finite set. -/
def toFinset (s : IdSet) : Finset Nat := s.toList.toFinset

@[simp]
theorem mem_toFinset : i ∈ s.toFinset ↔ i ∈ s := by simp [toFinset]

theorem card_toFinset_lt (hsub : ∀ j ∈ s, j ∈ t) (ht : i ∈ t) (hs : ¬ i ∈ s) :
    s.toFinset.card < t.toFinset.card := by
  refine Finset.card_lt_card ⟨fun j hj => ?_, fun h => hs ?_⟩
  · exact mem_toFinset.mpr (hsub j (mem_toFinset.mp hj))
  · exact mem_toFinset.mp (h (mem_toFinset.mpr ht))

end WholeProgram.IdSet
