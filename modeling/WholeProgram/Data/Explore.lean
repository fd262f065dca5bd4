import WholeProgram.Data.IdSet

/-!
# Breadth-first exploration

`explore n next start` lists what can be reached from `start` along `next` among the numbers below
`n`, in breadth-first order and each once. A number is marked when it is first met, so that it waits
at most once and `n` visits are enough.
-/

namespace WholeProgram.Explore

/-- Appends the numbers of `found` below `n` that are not yet marked. -/
def meet (n : Nat) (found : List Nat) (order : Array Nat) (seen : IdSet) : Array Nat × IdSet :=
  found.foldl
    (fun (acc : Array Nat × IdSet) w =>
      if w < n ∧ acc.2.contains w = false then (acc.1.push w, acc.2.insert w) else acc)
    (order, seen)

/-- Visits the numbers of `order` from position `i` on. -/
def visit (n : Nat) (next : Nat → List Nat) : Nat → Nat → Array Nat → IdSet → Array Nat × IdSet
  | 0, _, order, seen => (order, seen)
  | fuel + 1, i, order, seen =>
    match order[i]? with
    | none => (order, seen)
    | some v =>
      let r := meet n (next v) order seen
      visit n next fuel (i + 1) r.1 r.2

/-- What is reached from `start`, in breadth-first order, and the set of it. -/
def explore (n : Nat) (next : Nat → List Nat) (start : List Nat) : Array Nat × IdSet :=
  let r := meet n start #[] ∅
  visit n next n 0 r.1 r.2

/-- The numbers reached from `start`. -/
def reached (n : Nat) (next : Nat → List Nat) (start : List Nat) : IdSet := (explore n next start).2

/-- The numbers reached from `start` in breadth-first order. -/
def order (n : Nat) (next : Nat → List Nat) (start : List Nat) : List Nat := (explore n next start).1.toList

end WholeProgram.Explore
