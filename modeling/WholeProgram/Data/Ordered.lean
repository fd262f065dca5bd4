/-!
# Sorted lists

Stable sorting by a numeric key, and sets as sorted lists.
-/

namespace WholeProgram.Ordered

variable {α : Type}

/-- Sorts by a key; elements with the same key stay in their order. -/
def sortBy (key : α → Int) (xs : List α) : List α := xs.mergeSort fun a b => decide (key a ≤ key b)

/-- Sorts by a key that may fail. A list of at most one element needs no keys. -/
def sortBy? (key? : α → Option Int) (xs : List α) : Option (List α) :=
  match xs with
  | [] | [_] => some xs
  | _ => do
    let keyed ← xs.mapM fun x => (key? x).map fun k => (k, x)
    return (sortBy (·.1) keyed).map (·.2)

/-- The distinct elements by a key that tells them apart. -/
def distinctBy [BEq α] (key : α → Int) (xs : List α) : List α := sortBy key xs.eraseDups

/-- Lists of numbers, by the first place at which they differ; a beginning of a list comes before it. -/
def lexLe : List Nat → List Nat → Bool
  | [], _ => true
  | _ :: _, [] => false
  | a :: as, b :: bs => decide (a < b) || (a == b && lexLe as bs)

/-- Sorting keeps the elements. -/
theorem perm_sortBy (key : α → Int) (xs : List α) : (sortBy key xs).Perm xs := List.mergeSort_perm _ _

/-- The keys of a sorted list do not decrease. -/
theorem pairwise_sortBy (key : α → Int) (xs : List α) :
    (sortBy key xs).Pairwise fun a b => key a ≤ key b := by
  have h : (sortBy key xs).Pairwise fun a b => decide (key a ≤ key b) = true := by
    apply List.pairwise_mergeSort
    · intro a b c hab hbc
      exact decide_eq_true (Int.le_trans (of_decide_eq_true hab) (of_decide_eq_true hbc))
    · intro a b
      rcases Int.le_total (key a) (key b) with hle | hle
      · simp [hle]
      · simp [hle]
  exact h.imp fun hab => of_decide_eq_true hab

end WholeProgram.Ordered
