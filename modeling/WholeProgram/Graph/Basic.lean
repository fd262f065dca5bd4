import WholeProgram.Data.Explore

/-!
# Labelled directed graphs

The nodes of a graph are numbers below its order; a subgraph keeps the numbering and leaves nodes
out, so `keys` says which nodes are there. Adjacency is kept in both directions. An edge may be listed
at its start although it leads to no node: its target is then a number that was left out, or a *stray*,
a number that the graph does not have at all.
-/

namespace WholeProgram

/-- A directed graph. `succs` and `preds` have one entry per number below the order; it is `none` for
the numbers that are not nodes. `strays` are the edges to numbers that are not below the order. -/
structure Graph where
  labels : Array String
  succs : Array (Option IdSet)
  preds : Array (Option IdSet)
  keys : List Nat
  strays : List (Nat × Int) := []

namespace Graph

/-- The graph without edges whose node `i` has the `i`-th label. -/
def ofLabels (labels : Array String) : Graph where
  labels := labels
  succs := labels.map fun _ => some ∅
  preds := labels.map fun _ => some ∅
  keys := List.range labels.size

/-- Number of node numbers, those that a subgraph left out included. -/
def order (g : Graph) : Nat := g.labels.size

/-- The node with this number, if the graph has it. -/
def node? (g : Graph) (v : Int) : Option Nat :=
  match v with
  | .ofNat n => if (g.succs[n]?.join).isSome then some n else none
  | .negSucc _ => none

/-- The label of a node number, also of one that a subgraph left out. -/
def label? (g : Graph) (v : Int) : Option String :=
  match v with
  | .ofNat n => g.labels[n]?
  | .negSucc _ => none

def label (g : Graph) (v : Nat) : String := g.labels.getD v ""

/-- The successors of `v`. -/
def succsOf (g : Graph) (v : Nat) : IdSet := (g.succs[v]?.join).getD ∅

def predsOf (g : Graph) (v : Nat) : IdSet := (g.preds[v]?.join).getD ∅

def hasEdge (g : Graph) (u v : Nat) : Bool := (g.succsOf u).contains v

/-- Adds the edge from `u` to `v`. Both are nodes of the graph. -/
def addEdge (g : Graph) (u v : Nat) : Graph :=
  { g with
    succs := g.succs.modify u (·.map (·.insert v))
    preds := g.preds.modify v (·.map (·.insert u)) }

/-- Adds an edge between numbers that may be no nodes, and says whether both are. From a node the edge
is listed even if it leads nowhere. -/
def link (g : Graph) (u v : Int) : Graph × Bool :=
  match g.node? u with
  | some u =>
    if v.toNat < g.order ∧ 0 ≤ v then
      (g.addEdge u v.toNat, (g.node? v).isSome)
    else
      ({ g with strays := if g.strays.contains (u, v) then g.strays else (u, v) :: g.strays }, false)
  | none => (g, false)

/-- The numbers that the edges of `u` lead to, in increasing order, strays included. -/
def targets (g : Graph) (u : Int) : List Int :=
  match g.node? u with
  | some u =>
    let astray := (g.strays.filterMap fun e => if e.1 = u then some e.2 else none).mergeSort fun a b => a ≤ b
    astray.filter (· < 0) ++ (g.succsOf u).toList.map Int.ofNat ++ astray.filter (0 ≤ ·)
  | none => []

/-- The labels of the targets of `u` can be read: none of them is a stray. -/
def leadsInside (g : Graph) (u : Int) : Bool :=
  g.strays.all fun e => (e.1 : Int) != u

/-- The graph with the nodes of `wanted` only, listed in that order, and the edges between them. -/
def subgraph (g : Graph) (wanted : List Nat) : Graph :=
  let keep := IdSet.ofList wanted
  let cut (adj : Nat → IdSet) : Array (Option IdSet) :=
    (Array.range g.order).map fun v => if keep.contains v then some ((adj v).inter keep) else none
  { labels := g.labels, succs := cut g.succsOf, preds := cut g.predsOf, keys := wanted }

end Graph

end WholeProgram
