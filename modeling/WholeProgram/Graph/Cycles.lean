import Std.Data.HashMap
import WholeProgram.Data.Ordered
import WholeProgram.Graph.Basic

/-!
# Components and elementary cycles

Two numbers are in one strongly connected component when each reaches the other. A search for components
may find them, and the members of each, in any order; `componentsBy` lists every component in increasing
order, and the components by their least members. The searches of this library close a table of what every
number reaches, and differ in the numbers that they look at.

The enumeration of cycles takes the least node that lies on a cycle of what is left of the graph, lists the
cycles through it by a depth-first walk in increasing order of the successors, and goes on with the
nodes after it.

A node is blocked while it is on the path of the walk. If the walk leaves it without having closed a
cycle, it stays blocked and waits for its successors: each way from it to the start crosses the path.
When the walk leaves a node with a cycle, that node is released, and so are those that wait for it,
because the way that was shut may be open again.
-/

namespace WholeProgram.Graph

/-! ## Components -/

/-- The nodes and the numbers that their edges lead to. -/
def listed (g : Graph) : IdSet :=
  g.keys.foldl (fun found v => found.union (g.succsOf v)) (IdSet.ofList g.keys)

/-- One round of the closure of a relation: what reaches `k` also reaches what `k` reaches. -/
def passThrough (table : Array IdSet) (k : Nat) : Array IdSet :=
  let beyond := table.getD k ∅
  table.map fun s => if s.contains k then s.union beyond else s

/-- For each number, what it reaches, itself included: the direct successors, closed by passing through
one node after the other. -/
def reachTable (g : Graph) : Array IdSet :=
  g.keys.foldl passThrough ((Array.range g.order).map fun v => (g.succsOf v).insert v)

/-- Each of the two numbers reaches the other, by a table of what each number reaches. -/
def linked (table : Array IdSet) (u v : Nat) : Bool :=
  (table.getD u ∅).contains v && (table.getD v ∅).contains u

/-- The numbers of a list that are linked to `v`. -/
def membersOf (table : Array IdSet) (nodes : List Nat) (v : Nat) : List Nat := nodes.filter (linked table v)

/-- The classes of the given numbers that reach each other, by the first member of each. -/
def classes (g : Graph) (nodes : List Nat) : List (List Nat) :=
  let table := g.reachTable
  (nodes.filter fun v => (membersOf table nodes v).head? = some v).map (membersOf table nodes)

/-- A search for the strongly connected components of graphs. -/
abbrev ComponentSearch := Graph → List (List Nat)

/-- The search that starts from the nodes. A number that an edge leads to without being a node is a
component of its own. -/
def searchNodes : ComponentSearch := fun g => g.classes g.listed.toList

/-- The search that looks at all numbers below the order. Those that are not nodes are components of
their own. -/
def searchNumbers : ComponentSearch := fun g => g.classes (List.range g.order)

/-- Node numbers in increasing order. -/
def sorted (nodes : List Nat) : List Nat := Ordered.sortBy (fun v : Nat => (v : Int)) nodes

/-- The components that a search finds, each in increasing order, by their least members. -/
def componentsBy (search : ComponentSearch) (g : Graph) : List (List Nat) :=
  Ordered.sortBy (fun c : List Nat => (c.headD 0 : Int)) ((search g).map sorted)

/-- The strongly connected components. -/
def components (g : Graph) : List (List Nat) := g.componentsBy searchNodes

/-- A component is a cycle of the graph: it has several nodes, or its only node has a self-loop. -/
def isRecursive (g : Graph) : List Nat → Bool
  | [] => false
  | [v] => g.hasEdge v v
  | _ :: _ :: _ => true

/-! ## Cycles -/

/-- What a walk remembers. -/
structure CycleWalk where
  /-- The nodes that are not to be entered. -/
  blocked : IdSet := ∅
  /-- For each node those that wait for its release. -/
  waits : Std.HashMap Nat IdSet := {}
  /-- The cycles found so far. -/
  found : Array (List Nat) := #[]

namespace CycleWalk

/-- The nodes that wait for the release of `u`. -/
def waitersOf (s : CycleWalk) (u : Nat) : IdSet := (s.waits[u]?).getD ∅

def setWaiters (s : CycleWalk) (u : Nat) (nodes : IdSet) : CycleWalk :=
  { s with waits := s.waits.insert u nodes }

def block (s : CycleWalk) (v : Nat) : CycleWalk := { s with blocked := s.blocked.insert v }

def unblock (s : CycleWalk) (v : Nat) : CycleWalk := { s with blocked := s.blocked.erase v }

/-- Releases a node and, one after another, the blocked nodes that wait for it. -/
def release (s : CycleWalk) (u : Nat) : Option CycleWalk :=
  (s.waitersOf u).toList.foldlM
    (fun s w =>
      let s := s.setWaiters u ((s.waitersOf u).erase w)
      if s.blocked.contains w then by
        apply release
        · exact s
        · exact w
      else some s)
    (s.unblock u)
partial_fixpoint

/-- Makes `v` wait for the nodes of a list. -/
def await (s : CycleWalk) (v : Nat) (nodes : List Nat) : CycleWalk :=
  nodes.foldl (fun s u => s.setWaiters u ((s.waitersOf u).insert v)) s

end CycleWalk

/-- Goes on to `v` from a path, listed from its end to its start, in search of cycles that close at
`start`, and says whether it closed one. -/
def walk (g : Graph) (start : Nat) (path : List Nat) (v : Nat) (s : CycleWalk) : Option (Bool × CycleWalk) := do
  let (closed, s) ← (g.succsOf v).toList.foldlM
    (fun (closed, s) w =>
      if w = start then
        some (true, { s with found := s.found.push (start :: v :: path).reverse })
      else if s.blocked.contains w then
        some (closed, s)
      else do
        let next : Bool × CycleWalk ← by
          apply walk
          · exact g
          · exact start
          · exact v :: path
          · exact w
          · exact s
        return (closed || next.1, next.2))
    (false, s.block v)
  if closed then
    return (true, ← s.release v)
  else
    return (false, s.await v (g.succsOf v).toList)
partial_fixpoint

/-- The lesser of a node and the least node of a component, if that is recursive. -/
def leastOf (g : Graph) (least : Option Nat) (c : List Nat) : Option Nat :=
  match sorted c with
  | [] => least
  | v :: _ => if g.isRecursive c ∧ (g.node? v).isSome then some (least.elim v (min v)) else least

/-- The least node of the recursive components. -/
def leastOnCycle (g : Graph) (components : List (List Nat)) : Option Nat := components.foldl g.leastOf none

/-- The rounds of the enumeration over the nodes that are left. A round whose least node comes later
in the list than a greater one does not get past it and would be repeated forever: then there is no
answer. -/
def cyclesOver (search : ComponentSearch) (g : Graph) (nodes : List Nat) (found : Array (List Nat)) :
    Option (Array (List Nat)) :=
  match nodes with
  | [] => some found
  | k :: keys =>
    let rest := g.subgraph (k :: keys)
    match rest.leastOnCycle (search rest) with
    | none => some found
    | some least =>
      (rest.walk least [] least { found }).bind fun r =>
        let left := (k :: keys).dropWhile (· ≤ least)
        if _ : left.length < (k :: keys).length then cyclesOver search g left r.2.found else none
termination_by nodes.length
decreasing_by assumption

/-- All elementary cycles, self-loops included, each from its least node to its least node, by a search
for components; `none` when the order of the nodes keeps the enumeration from ending. -/
def cyclesBy? (search : ComponentSearch) (g : Graph) : Option (List (List Nat)) :=
  (g.cyclesOver search g.keys #[]).map (·.toList)

/-- All elementary cycles. -/
def cycles? (g : Graph) : Option (List (List Nat)) := g.cyclesBy? searchNumbers

/-- All elementary cycles of a graph whose nodes are listed in increasing order. -/
def cycles (g : Graph) : List (List Nat) := g.cycles?.getD []

end WholeProgram.Graph
