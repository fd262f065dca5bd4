import WholeProgram.PointsTo.Heap

/-!
# Interned contexts

A tree of contexts holds every list of elements at most once. A node stands for the elements on the way
from the root to it, and has one child per element that may follow, so that two contexts are compared by
their nodes alone.

Operations return the tree that they leave, and a node. They return nothing where they would ask for a
node that the tree does not have, or for elements outside a list.
-/

namespace WholeProgram.PointsTo

/-- No element in particular. -/
instance : Inhabited Elem := ⟨.ty none⟩

/-- Position of a context in a tree. -/
abbrev ContextId := Nat

/-- A context: that of its parent with one more element. The empty context has no parent. -/
structure ContextNode where
  parent : Option ContextId := none
  elem : Elem := default
  /-- Number of elements. -/
  length : Nat := 0
  /-- The contexts with one more element, by this element. -/
  children : Std.HashMap Elem ContextId := {}

/-- The contexts that were asked for, and those above them. -/
structure ContextTree where
  nodes : Array ContextNode
  /-- A context is made after its parent. -/
  parent_lt : ∀ i (n : ContextNode) p, nodes[i]? = some n → n.parent = some p → p < i

namespace ContextTree

/-- The tree of the empty context. -/
def new : ContextTree where
  nodes := #[{}]
  parent_lt i n p hn hp := by
    cases i with
    | zero =>
      obtain rfl : ({} : ContextNode) = n := by simpa using hn
      cases hp
    | succ i => simp at hn

/-- The empty context. -/
def root : ContextId := 0

/-- Number of elements of a context. -/
def length? (t : ContextTree) (i : ContextId) : Option Nat := t.nodes[i]?.map (·.length)

/-- Writes the elements of a context into cells: its own element last, after those of its parent. -/
def fill (t : ContextTree) (i : ContextId) (cells : Array Elem) : Option (Array Elem) :=
  match hn : t.nodes[i]? with
  | none => none
  | some n =>
    match hp : n.parent with
    | none => some cells
    | some p =>
      match n.length with
      | 0 => none
      | k + 1 => if hk : k < cells.size then t.fill p (cells.set k n.elem) else none
termination_by i
decreasing_by exact t.parent_lt i n p hn hp

/-- The elements of a context, oldest first. -/
def elems? (t : ContextTree) (i : ContextId) : Option Context := do
  let length ← t.length? i
  let cells ← t.fill i (Array.replicate length default)
  return cells.toList

/-- Makes the context with one more element. -/
def addChild (t : ContextTree) (i : ContextId) (e : Elem) (h : i < t.nodes.size) : ContextTree where
  nodes :=
    let n := t.nodes[i]
    let nodes := t.nodes.set i { n with children := n.children.insert e t.nodes.size }
    nodes.push { parent := some i, elem := e, length := n.length + 1 }
  parent_lt j m p hm hp := by
    rw [Array.getElem?_push] at hm
    split at hm
    · rename_i hj
      cases hm
      cases hp
      rw [hj, Array.size_set]
      exact h
    · rw [Array.getElem?_set] at hm
      split at hm
      · rename_i hij
        cases hm
        exact hij ▸ t.parent_lt i t.nodes[i] p (Array.getElem?_eq_getElem h) hp
      · exact t.parent_lt j m p hm hp

/-- The context with one more element, which is made if it is new. -/
def child? (t : ContextTree) (i : ContextId) (e : Elem) : Option (ContextTree × ContextId) :=
  if h : i < t.nodes.size then
    match t.nodes[i].children[e]? with
    | some j => some (t, j)
    | none => some (t.addChild i e h, t.nodes.size)
  else
    none

/-- The context of a list of elements. -/
def of? (t : ContextTree) (es : List Elem) : Option (ContextTree × ContextId) :=
  es.foldlM (fun s e => s.1.child? s.2 e) (t, root)

/-- The elements of a list from a position on. -/
def suffix? (es : List Elem) (n : Int) : Option (List Elem) :=
  if 0 ≤ n ∧ n ≤ es.length then some (es.drop n.toNat) else none

/-- The context with one more element, cut to the last `limit`. -/
def extend? (t : ContextTree) (parent : ContextId) (e : Elem) (limit : Int) :
    Option (ContextTree × ContextId) :=
  if limit ≤ 0 then some (t, root)
  else do
    let length ← t.length? parent
    if length < limit then
      t.child? parent e
    else
      let es ← t.elems? parent
      let kept ← suffix? es (es.length - limit + 1)
      t.of? (kept ++ [e])

/-- The context cut to the last `limit` elements. -/
def truncate? (t : ContextTree) (i : ContextId) (limit : Int) : Option (ContextTree × ContextId) := do
  let length ← t.length? i
  if length ≤ limit then
    return (t, i)
  else if limit ≤ 0 then
    return (t, root)
  else
    let es ← t.elems? i
    let kept ← suffix? es (es.length - limit)
    t.of? kept

end ContextTree

namespace Selector

/-- `Selector.staticContext` on a tree. -/
def staticNode? (s : Selector) (t : ContextTree) (caller : ContextId) (site : Site) :
    Option (ContextTree × ContextId) :=
  match s.sensitivity with
  | .insensitive => some (t, ContextTree.root)
  | .callSite => t.extend? caller (.site site) s.k
  | .object | .type => some (t, caller)

/-- `Selector.instanceContext` on a tree. -/
def instanceNode? (s : Selector) (t : ContextTree) (caller : ContextId) (site : Site)
    (recvContext : ContextId) (recv : Obj) (recvType : Option Ty) : Option (ContextTree × ContextId) :=
  match s.sensitivity with
  | .insensitive => some (t, ContextTree.root)
  | .callSite => s.staticNode? t caller site
  | .object => t.extend? recvContext (.obj recv) s.k
  | .type => t.extend? recvContext (.ty recvType) s.k

/-- `Selector.heapContext` on a tree. -/
def heapNode? (s : Selector) (t : ContextTree) (method : ContextId) : Option (ContextTree × ContextId) :=
  match s.sensitivity with
  | .insensitive => some (t, ContextTree.root)
  | .callSite | .object | .type => t.truncate? method s.hk

end Selector

end WholeProgram.PointsTo
