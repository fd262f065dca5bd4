import Mathlib.Data.List.Induction
import WholeProgram.PointsTo.ContextTree
import WholeProgram.Proofs.PointsTo.FactSpace

/-!
# A tree of contexts names lists of elements

`Spells` says which elements the way from the root to a node has. In a tree that is made by the operations
(`Interned`) every node spells one list, and no two nodes spell the same (`Spells.node_unique`).

* `elems?_eq`, `length?_eq` — a context returns the list that its node spells, and its length;
* `Gives` — what an operation does: it finds the node of a list of elements, and the nodes there were before
  spell what they spelled (`Grows`). There is one lemma per operation, for any node as the parent and any
  limit;
* `interning_exact` — so a history of calls is one of calls on lists, and nodes are equal where lists are.
-/

namespace WholeProgram.PointsTo

namespace ContextTree

variable {t t' u : ContextTree} {i j : ContextId} {es fs : List Elem} {e : Elem} {n : ContextNode}

/-- The elements on the way from the root to a node. -/
inductive Spells (t : ContextTree) : ContextId → List Elem → Prop
  | root {n : ContextNode} : t.nodes[root]? = some n → n.parent = none → Spells t root []
  | child {i j : ContextId} {n : ContextNode} {es : List Elem} : t.nodes[j]? = some n →
      n.parent = some i → Spells t i es → Spells t j (es ++ [n.elem])

/-- Only the root has no parent, a node is one longer than its parent, and a node lists exactly the nodes
of which it is the parent, by their elements. -/
structure Interned (t : ContextTree) : Prop where
  top : ∃ n, t.nodes[root]? = some n ∧ n.parent = none ∧ n.length = 0
  orphan : ∀ (i : ContextId) (n : ContextNode), t.nodes[i]? = some n → n.parent = none → i = root
  length : ∀ (i j : ContextId) (n m : ContextNode), t.nodes[i]? = some n → n.parent = some j →
    t.nodes[j]? = some m → n.length = m.length + 1
  children : ∀ (i j : ContextId) (n : ContextNode) (e : Elem), t.nodes[i]? = some n →
    (n.children[e]? = some j ↔ ∃ m, t.nodes[j]? = some m ∧ m.parent = some i ∧ m.elem = e)

/-- The nodes of a tree are in another one, with the same parents, elements and lengths. -/
def Grows (t t' : ContextTree) : Prop :=
  ∀ (i : ContextId) (n : ContextNode), t.nodes[i]? = some n → ∃ n', t'.nodes[i]? = some n' ∧
    n'.parent = n.parent ∧ n'.elem = n.elem ∧ n'.length = n.length

theorem Grows.refl (t : ContextTree) : Grows t t := fun _ n hn => ⟨n, hn, rfl, rfl, rfl⟩

theorem Grows.trans (h : Grows t t') (h' : Grows t' u) : Grows t u := by
  intro i n hn
  obtain ⟨n', hn', hparent, helem, hlength⟩ := h i n hn
  obtain ⟨m, hm, hparent', helem', hlength'⟩ := h' i n' hn'
  exact ⟨m, hm, hparent'.trans hparent, helem'.trans helem, hlength'.trans hlength⟩

theorem Spells.grows (hs : Spells t i es) (h : Grows t t') : Spells t' i es := by
  induction hs with
  | root hn hparent =>
    obtain ⟨n', hn', hparent', -, -⟩ := h _ _ hn
    exact .root hn' (hparent'.trans hparent)
  | child hn hparent _ ih =>
    obtain ⟨n', hn', hparent', helem, -⟩ := h _ _ hn
    exact helem ▸ .child hn' (hparent'.trans hparent) ih

/-! ## Nodes and lists -/

theorem Spells.exists_node (hs : Spells t i es) : ∃ n, t.nodes[i]? = some n := by
  cases hs with
  | root hn _ => exact ⟨_, hn⟩
  | child hn _ _ => exact ⟨_, hn⟩

theorem Spells.list_unique (hs : Spells t i es) (hs' : Spells t i fs) : es = fs := by
  induction hs generalizing fs with
  | root hn hparent =>
    cases hs' with
    | root => rfl
    | child hn' hparent' =>
      obtain rfl := Option.some.inj (hn.symm.trans hn')
      cases hparent.symm.trans hparent'
  | child hn hparent _ ih =>
    cases hs' with
    | root hn' hparent' =>
      obtain rfl := Option.some.inj (hn.symm.trans hn')
      cases hparent.symm.trans hparent'
    | child hn' hparent' hs' =>
      obtain rfl := Option.some.inj (hn.symm.trans hn')
      obtain rfl := Option.some.inj (hparent.symm.trans hparent')
      rw [ih hs']

/-- No two nodes spell the same list. -/
theorem Spells.node_unique (ht : Interned t) (hs : Spells t i es) (hs' : Spells t j es) : i = j := by
  induction hs generalizing j with
  | root =>
    generalize hnil : ([] : List Elem) = fs at hs'
    cases hs' with
    | root => rfl
    | child => exact absurd hnil (by simp)
  | @child i k n es hn hparent _ ih =>
    generalize hlist : es ++ [n.elem] = fs at hs'
    cases hs' with
    | root => exact absurd hlist (by simp)
    | @child i' _ m es' hm hparent' hs' =>
      obtain ⟨rfl, helem⟩ := List.append_inj' hlist rfl
      obtain rfl := ih hs'
      -- both are the child of one node for one element
      obtain ⟨p, hp⟩ := hs'.exists_node
      have hk := (ht.children i k p n.elem hp).mpr ⟨n, hn, hparent, rfl⟩
      have hj := (ht.children i j p n.elem hp).mpr ⟨m, hm, hparent', (List.cons.inj helem).1.symm⟩
      exact Option.some.inj (hk.symm.trans hj)

theorem Interned.spells_root (ht : Interned t) : Spells t root [] := by
  obtain ⟨n, hn, hparent, -⟩ := ht.top
  exact .root hn hparent

theorem Spells.length_eq (ht : Interned t) (hs : Spells t i es) (hn : t.nodes[i]? = some n) :
    n.length = es.length := by
  induction hs generalizing n with
  | root =>
    obtain ⟨m, hm, -, hlength⟩ := ht.top
    obtain rfl := Option.some.inj (hn.symm.trans hm)
    exact hlength
  | child hm hparent hs ih =>
    obtain rfl := Option.some.inj (hn.symm.trans hm)
    obtain ⟨p, hp⟩ := hs.exists_node
    rw [ht.length _ _ _ _ hn hparent hp, ih hp, List.length_append, List.length_singleton]

theorem length?_eq (ht : Interned t) (hs : Spells t i es) : t.length? i = some es.length := by
  obtain ⟨n, hn⟩ := hs.exists_node
  rw [length?, hn, Option.map_some, hs.length_eq ht hn]

/-- A node writes its own element, and its parent the others. -/
theorem fill_of_node (hn : t.nodes[i]? = some n) (cells : Array Elem) :
    t.fill i cells =
      match n.parent, n.length with
      | none, _ => some cells
      | some _, 0 => none
      | some p, k + 1 => if hk : k < cells.size then t.fill p (cells.set k n.elem) else none := by
  rw [fill]
  split
  · rename_i hnone
    cases hn.symm.trans hnone
  · rename_i m hm
    obtain rfl := Option.some.inj (hn.symm.trans hm)
    split
    · rename_i hparent
      rw [hparent]
    · rename_i p hparent
      rw [hparent]
      cases n.length <;> rfl

/-- The elements of a context go to the first cells; the other cells are not touched. -/
theorem fill_eq (ht : Interned t) (hs : Spells t i es) {cells : Array Elem} (hsize : es.length ≤ cells.size) :
    t.fill i cells = some ⟨es ++ cells.toList.drop es.length⟩ := by
  induction hs generalizing cells with
  | root hn hparent =>
    rw [fill_of_node hn, hparent]
    simp
  | @child i j n es hn hparent hs ih =>
    have hlength := (Spells.child hn hparent hs).length_eq ht hn
    rw [List.length_append, List.length_singleton] at hlength hsize
    rw [fill_of_node hn, hparent, hlength]
    dsimp only
    rw [dif_pos (Nat.lt_of_succ_le hsize), ih (by rw [Array.size_set]; exact Nat.le_of_succ_le hsize)]
    simp [List.drop_set, List.drop_eq_getElem_cons, Nat.lt_of_succ_le hsize]

/-- A context returns the elements that its node spells. -/
theorem elems?_eq (ht : Interned t) (hs : Spells t i es) : t.elems? i = some es := by
  have hfill : t.fill i (Array.replicate es.length default) = some ⟨es⟩ := by
    rw [fill_eq ht hs (by simp)]
    simp
  simp [elems?, length?_eq ht hs, hfill]

/-! ## New nodes -/

section

variable {h : i < t.nodes.size}

theorem getElem?_addChild (h : i < t.nodes.size) (e : Elem) (j : ContextId) :
    (t.addChild i e h).nodes[j]? =
      if j = t.nodes.size then some { parent := some i, elem := e, length := t.nodes[i].length + 1 }
      else if i = j then some { t.nodes[i] with children := t.nodes[i].children.insert e t.nodes.size }
      else t.nodes[j]? := by
  simp only [addChild, Array.getElem?_push, Array.size_set]
  split
  · rfl
  · rw [Array.getElem?_set]

theorem grows_addChild (h : i < t.nodes.size) (e : Elem) : Grows t (t.addChild i e h) := by
  intro j n hn
  have hj : j < t.nodes.size := (Array.getElem?_eq_some_iff.mp hn).1
  rw [getElem?_addChild, if_neg (Nat.ne_of_lt hj)]
  split
  · rename_i hij
    subst hij
    obtain rfl := Option.some.inj ((Array.getElem?_eq_getElem h).symm.trans hn)
    exact ⟨_, rfl, rfl, rfl, rfl⟩
  · exact ⟨n, hn, rfl, rfl, rfl⟩

/-- A node is the new one, or an old one that may have the new one among its children. -/
theorem addChild_cases {m : ContextNode} (hm : (t.addChild i e h).nodes[j]? = some m) :
    (j = t.nodes.size ∧ m = { parent := some i, elem := e, length := t.nodes[i].length + 1 }) ∨
      ∃ n, t.nodes[j]? = some n ∧ m.parent = n.parent ∧ m.elem = n.elem ∧ m.length = n.length ∧
        m.children = if i = j then n.children.insert e t.nodes.size else n.children := by
  rw [getElem?_addChild] at hm
  split at hm
  · rename_i hj
    exact Or.inl ⟨hj, (Option.some.inj hm).symm⟩
  · split at hm
    · rename_i hij
      subst hij
      obtain rfl := Option.some.inj hm
      exact Or.inr ⟨_, Array.getElem?_eq_getElem h, rfl, rfl, rfl, (if_pos rfl).symm⟩
    · rename_i hij
      exact Or.inr ⟨m, hm, rfl, rfl, rfl, (if_neg hij).symm⟩

theorem getElem?_addChild_new (h : i < t.nodes.size) (e : Elem) :
    (t.addChild i e h).nodes[t.nodes.size]? =
      some { parent := some i, elem := e, length := t.nodes[i].length + 1 } := by
  rw [getElem?_addChild, if_pos rfl]

/-- The children of a node in the new tree: those in the old one, and the new node. -/
theorem exists_child_addChild_iff {k : ContextId} {f : Elem} :
    (∃ m, (t.addChild i e h).nodes[k]? = some m ∧ m.parent = some j ∧ m.elem = f) ↔
      (k = t.nodes.size ∧ i = j ∧ e = f) ∨ ∃ m, t.nodes[k]? = some m ∧ m.parent = some j ∧ m.elem = f := by
  constructor
  · rintro ⟨m, hm, hparent, helem⟩
    rcases addChild_cases hm with ⟨hk, rfl⟩ | ⟨n, hn, hparent', helem', -, -⟩
    · exact Or.inl ⟨hk, Option.some.inj hparent, helem⟩
    · exact Or.inr ⟨n, hn, hparent'.symm.trans hparent, helem'.symm.trans helem⟩
  · rintro (⟨rfl, rfl, rfl⟩ | ⟨n, hn, hparent, helem⟩)
    · exact ⟨_, getElem?_addChild_new h e, rfl, rfl⟩
    · obtain ⟨m, hm, hparent', helem', -⟩ := grows_addChild h e k n hn
      exact ⟨m, hm, hparent'.trans hparent, helem'.trans helem⟩

theorem Interned.addChild (ht : Interned t) (hnew : t.nodes[i].children[e]? = none) :
    Interned (t.addChild i e h) where
  top := by
    obtain ⟨n, hn, hparent, hlength⟩ := ht.top
    obtain ⟨m, hm, hparent', -, hlength'⟩ := grows_addChild h e _ n hn
    exact ⟨m, hm, hparent'.trans hparent, hlength'.trans hlength⟩
  orphan j m hm hparent := by
    rcases addChild_cases hm with ⟨-, rfl⟩ | ⟨n, hn, hparent', -⟩
    · cases hparent
    · exact ht.orphan j n hn (hparent'.symm.trans hparent)
  length j k m p hm hparent hp := by
    rcases addChild_cases hm with ⟨-, rfl⟩ | ⟨n, hn, hparent', -, hlength, -⟩
    · obtain rfl := Option.some.inj hparent
      obtain ⟨q, hq, -, -, hlength⟩ := grows_addChild h e i _ (Array.getElem?_eq_getElem h)
      obtain rfl := Option.some.inj (hq.symm.trans hp)
      rw [hlength]
    · -- the parent of an old node is an old node
      have hk : k < t.nodes.size :=
        Nat.lt_trans (t.parent_lt j n k hn (hparent'.symm.trans hparent)) (Array.getElem?_eq_some_iff.mp hn).1
      obtain ⟨q, hq, -, -, hlength'⟩ := grows_addChild h e k _ (Array.getElem?_eq_getElem hk)
      obtain rfl := Option.some.inj (hq.symm.trans hp)
      rw [hlength, hlength', ht.length j k n _ hn (hparent'.symm.trans hparent) (Array.getElem?_eq_getElem hk)]
  children j k m f hm := by
    rw [exists_child_addChild_iff]
    rcases addChild_cases hm with ⟨rfl, rfl⟩ | ⟨n, hn, -, -, -, hchildren⟩
    · -- nothing is below the new node
      constructor
      · intro hnone
        simp at hnone
      · rintro (⟨-, rfl, -⟩ | ⟨m, hm, hparent, -⟩)
        · exact absurd h (Nat.lt_irrefl _)
        · have hlt := t.parent_lt k m _ hm hparent
          exact absurd (Array.getElem?_eq_some_iff.mp hm).1 (Nat.not_lt_of_lt hlt)
    · rw [hchildren, ← ht.children j k n f hn]
      by_cases hij : i = j
      · subst hij
        obtain rfl := Option.some.inj ((Array.getElem?_eq_getElem h).symm.trans hn)
        rw [if_pos rfl, Std.HashMap.getElem?_insert]
        by_cases hf : e = f
        · subst hf
          simp [hnew, eq_comm]
        · simp [hf]
      · rw [if_neg hij]
        simp [hij]

end

/-! ## Operations -/

/-- An operation finds the node of a list, and leaves a tree in which the nodes of the old one spell what
they spelled. -/
def Gives (t : ContextTree) (r : Option (ContextTree × ContextId)) (es : List Elem) : Prop :=
  ∃ t' j, r = some (t', j) ∧ Interned t' ∧ Grows t t' ∧ Spells t' j es

theorem Gives.same (ht : Interned t) (hs : Spells t i es) : Gives t (some (t, i)) es :=
  ⟨t, i, rfl, ht, .refl t, hs⟩

theorem Gives.child (ht : Interned t) (hs : Spells t i es) (e : Elem) :
    Gives t (t.child? i e) (es ++ [e]) := by
  obtain ⟨n, hn⟩ := hs.exists_node
  obtain ⟨hi, rfl⟩ := Array.getElem?_eq_some_iff.mp hn
  unfold child?
  rw [dif_pos hi]
  cases hchild : t.nodes[i].children[e]? with
  | some j =>
    obtain ⟨m, hm, hparent, rfl⟩ := (ht.children i j _ e hn).mp hchild
    exact .same ht (.child hm hparent hs)
  | none =>
    have hgrows := grows_addChild hi e
    exact ⟨_, _, rfl, ht.addChild hchild, hgrows,
      .child (getElem?_addChild_new hi e) rfl (hs.grows hgrows)⟩

/-- Going down from a node child by child. -/
theorem gives_foldlM (ht : Interned t) (hs : Spells t i es) (fs : List Elem) :
    Gives t (fs.foldlM (fun (s : ContextTree × ContextId) e => s.1.child? s.2 e) (t, i)) (es ++ fs) := by
  induction fs generalizing t i es with
  | nil =>
    rw [List.append_nil]
    exact .same ht hs
  | cons e fs ih =>
    obtain ⟨t', j, hchild, ht', hgrows, hs'⟩ := Gives.child ht hs e
    obtain ⟨u, k, hrest, hu, hgrows', hs''⟩ := ih ht' hs'
    rw [List.append_assoc] at hs''
    refine ⟨u, k, ?_, hu, hgrows.trans hgrows', hs''⟩
    rw [List.foldlM_cons, hchild]
    exact hrest

theorem Gives.of (ht : Interned t) (es : List Elem) : Gives t (t.of? es) es :=
  gives_foldlM ht ht.spells_root es

/-- The last elements of a list are those from a position inside it. -/
theorem suffix?_eq_last {n : Int} (hpos : 0 ≤ n) (hn : n ≤ es.length) :
    suffix? es (es.length - n) = some (Context.last n es) := by
  rw [suffix?, if_pos (by omega), Context.last]
  congr 2
  omega

theorem Gives.extend (ht : Interned t) (hs : Spells t i es) (e : Elem) (limit : Int) :
    Gives t (t.extend? i e limit) (Context.last limit (es ++ [e])) := by
  unfold extend?
  split
  · rename_i hlimit
    rw [Context.last_of_nonpos hlimit]
    exact .same ht ht.spells_root
  · rename_i hlimit
    simp only [length?_eq ht hs, elems?_eq ht hs, Option.bind_eq_bind, Option.bind_some]
    split
    · rename_i hshort
      rw [Context.last_of_length_le (by simp only [List.length_append, List.length_singleton]; omega)]
      exact .child ht hs e
    · rename_i hlong
      have hkept : suffix? es (es.length - limit + 1) = some (Context.last (limit - 1) es) := by
        rw [← suffix?_eq_last (by omega) (by omega)]
        congr 1
        omega
      have hlast := Context.last_append (n := limit - 1) (by omega) es e
      rw [Int.sub_add_cancel] at hlast
      rw [hkept, Option.bind_some, hlast]
      exact .of ht _

theorem Gives.truncate (ht : Interned t) (hs : Spells t i es) (limit : Int) :
    Gives t (t.truncate? i limit) (Context.last limit es) := by
  simp only [truncate?, length?_eq ht hs, elems?_eq ht hs, Option.bind_eq_bind, Option.bind_some]
  split
  · rename_i hshort
    rw [Context.last_of_length_le hshort]
    exact .same ht hs
  · split
    · rename_i hlimit
      rw [Context.last_of_nonpos hlimit]
      exact .same ht ht.spells_root
    · rw [suffix?_eq_last (by omega) (by omega)]
      exact .of ht _

theorem Gives.staticNode (ht : Interned t) (s : Selector) (hs : Spells t i es) (site : Site) :
    Gives t (s.staticNode? t i site) (s.staticContext es site) := by
  unfold Selector.staticNode? Selector.staticContext
  cases s.sensitivity with
  | insensitive => exact .same ht ht.spells_root
  | callSite => exact .extend ht hs _ _
  | object | type => exact .same ht hs

theorem Gives.instanceNode (ht : Interned t) (s : Selector) (hs : Spells t i es) (site : Site)
    (hrecv : Spells t j fs) (recv : Obj) (ty : Option Ty) :
    Gives t (s.instanceNode? t i site j recv ty) (s.instanceContext es site fs recv ty) := by
  unfold Selector.instanceNode? Selector.instanceContext
  cases hsens : s.sensitivity with
  | insensitive => exact .same ht ht.spells_root
  | callSite =>
    have hstatic := Gives.staticNode ht s hs site
    rwa [Selector.staticContext, hsens] at hstatic
  | object | type => exact .extend ht hrecv _ _

theorem Gives.heapNode (ht : Interned t) (s : Selector) (hs : Spells t i es) :
    Gives t (s.heapNode? t i) (s.heapContext es) := by
  unfold Selector.heapNode? Selector.heapContext
  cases s.sensitivity with
  | insensitive => exact .same ht ht.spells_root
  | callSite | object | type => exact .truncate ht hs _

/-! ## Histories of calls -/

/-- A call on a tree. It names the contexts that it works on by the numbers of the calls that returned
them; a number that no earlier call has stands for the empty context. -/
inductive Call where
  | of (es : List Elem)
  | extend (parent : Nat) (e : Elem) (limit : Int)
  | truncate (c : Nat) (limit : Int)
  /-- The context of the callee of a call without receiver. -/
  | static (s : Selector) (caller : Nat) (site : Site)
  /-- The context of the callee of a call on a receiver. -/
  | onReceiver (s : Selector) (caller : Nat) (site : Site) (recvContext : Nat) (recv : Obj)
      (recvType : Option Ty)
  /-- The context of an allocated object. -/
  | heap (s : Selector) (method : Nat)

namespace Call

/-- What a call does to a tree. -/
def perform (t : ContextTree) (answers : List ContextId) : Call → Option (ContextTree × ContextId)
  | of es => t.of? es
  | extend parent e limit => t.extend? (answers.getD parent root) e limit
  | truncate c limit => t.truncate? (answers.getD c root) limit
  | static s caller site => s.staticNode? t (answers.getD caller root) site
  | onReceiver s caller site recvContext recv recvType =>
    s.instanceNode? t (answers.getD caller root) site (answers.getD recvContext root) recv recvType
  | heap s method => s.heapNode? t (answers.getD method root)

/-- The elements of the context that a call is about, from those of the earlier ones. -/
def context (earlier : List Context) : Call → Context
  | of es => es
  | extend parent e limit => Context.last limit (earlier.getD parent [] ++ [e])
  | truncate c limit => Context.last limit (earlier.getD c [])
  | static s caller site => s.staticContext (earlier.getD caller []) site
  | onReceiver s caller site recvContext recv recvType =>
    s.instanceContext (earlier.getD caller []) site (earlier.getD recvContext []) recv recvType
  | heap s method => s.heapContext (earlier.getD method [])

/-- The elements of the contexts that a history of calls is about. -/
def contexts (calls : List Call) : List Context := calls.foldl (fun cs c => cs ++ [c.context cs]) []

theorem contexts_concat (calls : List Call) (c : Call) :
    contexts (calls ++ [c]) = contexts calls ++ [c.context (contexts calls)] := by
  rw [contexts, List.foldl_append]
  rfl

end Call

/-- The tree after a history of calls on a new one, and the contexts that the calls returned. -/
def run (calls : List Call) : Option (ContextTree × List ContextId) :=
  calls.foldlM
    (fun s c => do
      let (t, i) ← c.perform s.1 s.2
      return (t, s.2 ++ [i]))
    (new, [])

theorem run_concat (calls : List Call) (c : Call) :
    run (calls ++ [c]) = (run calls).bind fun s => (c.perform s.1 s.2).map fun r => (r.1, s.2 ++ [r.2]) := by
  unfold run
  rw [List.foldlM_append, Option.bind_eq_bind]
  congr 1
  funext s
  rw [List.foldlM_cons]
  cases c.perform s.1 s.2 <;> rfl

/-- A new tree has no node but the root. -/
theorem node_of_new (hn : new.nodes[i]? = some n) : i = root ∧ n = {} := by
  cases i with
  | zero => exact ⟨rfl, by simpa [new, eq_comm] using hn⟩
  | succ i => simp [new] at hn

theorem interned_new : Interned new where
  top := ⟨{}, rfl, rfl, rfl⟩
  orphan _ _ hn _ := (node_of_new hn).1
  length i j n m hn hparent := by
    obtain ⟨-, rfl⟩ := node_of_new hn
    cases hparent
  children i j n e hn := by
    obtain ⟨-, rfl⟩ := node_of_new hn
    constructor
    · intro hchild
      simp at hchild
    · rintro ⟨m, hm, hparent, -⟩
      obtain ⟨-, rfl⟩ := node_of_new hm
      cases hparent

/-- The contexts returned spell these lists. -/
abbrev Answers (t : ContextTree) (answers : List ContextId) (cs : List Context) : Prop :=
  List.Forall₂ (Spells t) answers cs

theorem Answers.grows {answers : List ContextId} {cs : List Context} (h : Answers t answers cs)
    (hgrows : Grows t t') : Answers t' answers cs :=
  h.imp fun _ _ hs => hs.grows hgrows

theorem Answers.getD {answers : List ContextId} {cs : List Context} (ht : Interned t)
    (h : Answers t answers cs) (k : Nat) : Spells t (answers.getD k root) (cs.getD k []) := by
  induction h generalizing k with
  | nil => exact ht.spells_root
  | cons hs _ ih =>
    cases k with
    | zero => exact hs
    | succ k => exact ih k

theorem Gives.perform {answers : List ContextId} {cs : List Context} (ht : Interned t)
    (h : Answers t answers cs) (c : Call) : Gives t (c.perform t answers) (c.context cs) := by
  have hget := Answers.getD ht h
  cases c with
  | of es => exact .of ht es
  | extend parent e limit => exact .extend ht (hget parent) e limit
  | truncate c limit => exact .truncate ht (hget c) limit
  | static s caller site => exact .staticNode ht s (hget caller) site
  | onReceiver s caller site recvContext recv recvType =>
    exact .instanceNode ht s (hget caller) site (hget recvContext) recv recvType
  | heap s method => exact .heapNode ht s (hget method)

/-- The contexts that a history returns have the elements that its calls are about. -/
theorem run_answers (calls : List Call) :
    ∃ t answers, run calls = some (t, answers) ∧ Interned t ∧ Answers t answers (Call.contexts calls) := by
  induction calls using List.reverseRecOn with
  | nil => exact ⟨new, [], rfl, interned_new, .nil⟩
  | append_singleton calls c ih =>
    obtain ⟨t, answers, hrun, ht, hanswers⟩ := ih
    obtain ⟨t', i, hperform, ht', hgrows, hs⟩ := Gives.perform ht hanswers c
    refine ⟨t', answers ++ [i], ?_, ht', ?_⟩
    · rw [run_concat, hrun, Option.bind_some, hperform, Option.map_some]
    · rw [Call.contexts_concat]
      exact List.rel_append (hanswers.grows hgrows) (.cons hs .nil)

/-- Further calls leave the nodes that there are. -/
theorem run_grows {before : List Call} {answers : List ContextId} (hrun : run before = some (t, answers))
    (after : List Call) : ∃ t' more, run (before ++ after) = some (t', answers ++ more) ∧ Grows t t' := by
  induction after using List.reverseRecOn with
  | nil => exact ⟨t, [], by rw [List.append_nil, List.append_nil, hrun], .refl t⟩
  | append_singleton after c ih =>
    obtain ⟨t', more, hrun', hgrows⟩ := ih
    obtain ⟨u, answers', hu, ht', hanswers⟩ := run_answers (before ++ after)
    obtain ⟨rfl, rfl⟩ := Prod.mk.inj (Option.some.inj (hrun'.symm.trans hu))
    obtain ⟨v, i, hperform, -, hgrows', -⟩ := Gives.perform ht' hanswers c
    refine ⟨v, more ++ [i], ?_, hgrows.trans hgrows'⟩
    rw [← List.append_assoc, run_concat, hrun', Option.bind_some, hperform, Option.map_some, List.append_assoc]

theorem Answers.map_elems? {answers : List ContextId} {cs : List Context} (ht : Interned t)
    (h : Answers t answers cs) : answers.map t.elems? = cs.map some := by
  induction h with
  | nil => rfl
  | cons hs _ ih => rw [List.map_cons, List.map_cons, elems?_eq ht hs, ih]

theorem Answers.exists_spells {answers : List ContextId} {cs : List Context} (h : Answers t answers cs)
    (hi : i ∈ answers) : ∃ es, Spells t i es := by
  induction h with
  | nil => cases hi
  | cons hs _ ih =>
    rcases List.mem_cons.mp hi with rfl | hi
    · exact ⟨_, hs⟩
    · exact ih hi

/-- Every history of calls on a new tree answers, each call with a context of the elements that it is
about. Contexts are the same node if and only if their elements are the same, the length of a context is
the number of its elements, and what a call returned has the same elements after the calls that follow. -/
theorem interning_exact (calls : List Call) :
    ∃ t answers, run calls = some (t, answers) ∧
      answers.map t.elems? = (Call.contexts calls).map some ∧
      (∀ i ∈ answers, t.length? i = (t.elems? i).map List.length) ∧
      (∀ i ∈ answers, ∀ j ∈ answers, i = j ↔ t.elems? i = t.elems? j) ∧
      ∀ before after, calls = before ++ after → ∃ t₀ earlier, run before = some (t₀, earlier) ∧
        earlier <+: answers ∧ ∀ i ∈ earlier, t.elems? i = t₀.elems? i := by
  obtain ⟨t, answers, hrun, ht, hanswers⟩ := run_answers calls
  refine ⟨t, answers, hrun, hanswers.map_elems? ht, ?_, ?_, ?_⟩
  · intro i hi
    obtain ⟨es, hs⟩ := hanswers.exists_spells hi
    rw [length?_eq ht hs, elems?_eq ht hs, Option.map_some]
  · intro i hi j hj
    obtain ⟨es, hs⟩ := hanswers.exists_spells hi
    obtain ⟨fs, hs'⟩ := hanswers.exists_spells hj
    rw [elems?_eq ht hs, elems?_eq ht hs', Option.some_inj]
    constructor
    · rintro rfl
      exact hs.list_unique hs'
    · rintro rfl
      exact hs.node_unique ht hs'
  · rintro before after rfl
    obtain ⟨t₀, earlier, hrun₀, ht₀, hearlier⟩ := run_answers before
    obtain ⟨t', more, hrun', hgrows⟩ := run_grows hrun₀ after
    obtain ⟨rfl, rfl⟩ := Prod.mk.inj (Option.some.inj (hrun.symm.trans hrun'))
    refine ⟨t₀, earlier, hrun₀, List.prefix_append _ _, fun i hi => ?_⟩
    obtain ⟨es, hs⟩ := hearlier.exists_spells hi
    rw [elems?_eq ht₀ hs, elems?_eq ht (hs.grows hgrows)]

/-- The sites of three calls of one method. -/
def callSite (n : Nat) : Elem := .site { method := 0, index := n }

/-- The second call takes the first context over its limit; the third asks for what is left. -/
def overLimit : List Call :=
  [.of [callSite 0, callSite 1], .extend 0 (callSite 2) 2, .of [callSite 1, callSite 2], .truncate 1 (-1)]

theorem interning_exact_overLimit : ∃ t i j k, run overLimit = some (t, [i, j, j, k]) ∧ i ≠ j ∧
    t.elems? i = some [callSite 0, callSite 1] ∧ t.elems? j = some [callSite 1, callSite 2] ∧
    t.length? j = some 2 ∧ t.elems? k = some [] := by
  obtain ⟨t, answers, hrun, helems, hlength, hunique, -⟩ := interning_exact overLimit
  have hcontexts : Call.contexts overLimit =
      [[callSite 0, callSite 1], [callSite 1, callSite 2], [callSite 1, callSite 2], []] := rfl
  rw [hcontexts] at helems
  simp only [List.map_cons, List.map_nil, List.map_eq_cons_iff, List.map_eq_nil_iff] at helems
  obtain ⟨i, _, rfl, hi, j, _, rfl, hj, j', _, rfl, hj', k, _, rfl, hk, rfl⟩ := helems
  obtain rfl : j = j' := (hunique j (by simp) j' (by simp)).mpr (hj.trans hj'.symm)
  refine ⟨t, i, j, k, hrun, fun hij => ?_, hi, hj, by rw [hlength j (by simp), hj]; rfl, hk⟩
  rw [hij, hj] at hi
  exact absurd hi (by decide)

end ContextTree

end WholeProgram.PointsTo
