import Mathlib.Data.Set.Basic
import Std.Data.HashMap.Lemmas
import WholeProgram.PointsTo.Plugin
import WholeProgram.Proofs.CallGraph.Views
import WholeProgram.Proofs.PointsTo.Rules

/-!
# The tables and the facts of the core

Objects and objects in contexts are numbered on demand, in two tables with an index each. A number
that was given out keeps its meaning (`Names`): the tables only grow (`TableLe`). `Tables` says that
the indexes agree with the tables, so that no object has two numbers (`Tables.names_unique`); making
an object, which goes to the end of its table (`Locates.push`), keeps it and gives a number that names
an object with the same key, the only number that may be new (`Tables.internHeapObj`).

The core holds facts, and promises others by its worklist (`facts`, `promised`, `met`). Whatever the
solver does to the core is described by one relation: `Gains p opts A D s t` says that from `s` to
`t`

* nothing held or promised is lost;
* what is new comes from `A`, or follows by a rule from what `t` holds;
* of what the rules ask for in `t` and did not ask for in `s`, all but `D` is held or promised.

`Ok` says that the core is in order.
-/

namespace WholeProgram.PointsTo.Core

variable {s t u : Core} {i j : CSObjId} {o o' : HeapObj}

/-- The number `i` stands for the object `o`. -/
def Names (s : Core) (i : CSObjId) (o : HeapObj) : Prop :=
  ∃ n, s.csObjs[i]? = some ⟨o.ctx, n⟩ ∧ s.objs[n]? = some o.obj

theorem Names.heapObj_eq (h : s.Names i o) : s.heapObj i = o := by
  obtain ⟨n, hc, ho⟩ := h
  have hcs : s.csObj i = ⟨o.ctx, n⟩ := by
    simp [csObj, Array.getD_eq_getD_getElem?, hc]
  have hobj : s.obj n = o.obj := by
    simp [obj, Array.getD_eq_getD_getElem?, ho]
  unfold heapObj objOf
  rw [hcs, hobj]

theorem Names.unique (h : s.Names i o) (h' : s.Names i o') : o = o' := by
  rw [← h.heapObj_eq, h'.heapObj_eq]

theorem Names.obj_mem (h : s.Names i o) : o.obj ∈ s.objs := by
  obtain ⟨n, _, ho⟩ := h
  exact Array.mem_of_getElem? ho

/-- The tables of `t` start with those of `s`. -/
structure TableLe (s t : Core) : Prop where
  objs : ∀ {n : Nat} {o : Obj}, s.objs[n]? = some o → t.objs[n]? = some o
  csObjs : ∀ {n : Nat} {o : CSObj}, s.csObjs[n]? = some o → t.csObjs[n]? = some o

theorem TableLe.refl (s : Core) : TableLe s s := ⟨id, id⟩

theorem TableLe.trans (hst : TableLe s t) (htu : TableLe t u) : TableLe s u :=
  ⟨fun h => htu.objs (hst.objs h), fun h => htu.csObjs (hst.csObjs h)⟩

theorem TableLe.names (h : TableLe s t) (hi : s.Names i o) : t.Names i o := by
  obtain ⟨n, hc, ho⟩ := hi
  exact ⟨n, h.csObjs hc, h.objs ho⟩

theorem TableLe.mem_objs (h : TableLe s t) {o : Obj} (ho : o ∈ s.objs) : o ∈ t.objs := by
  obtain ⟨n, hn⟩ := Array.mem_iff_getElem?.mp ho
  exact Array.mem_of_getElem? (h.objs hn)

/-- The indexes say where an object stands in its table. -/
structure Tables (s : Core) : Prop where
  objIndex : ∀ (k : ObjKey) (n : ObjId), s.objIndex[k]? = some n ↔ ∃ o, s.objs[n]? = some o ∧
    o.key = k
  csObjIndex : ∀ (o : CSObj) (n : CSObjId), s.csObjIndex[o]? = some n ↔ s.csObjs[n]? = some o
  valid : ∀ (n : CSObjId) (o : CSObj), s.csObjs[n]? = some o → o.obj < s.objs.size

theorem tables_empty : Tables {} := by
  refine ⟨?_, ?_, ?_⟩
  · intro k n
    simp
  · intro o n
    simp
  · intro n o h
    simp at h

/-- No object has two numbers. -/
theorem Tables.names_unique (h : Tables s) (hi : s.Names i o) (hj : s.Names j o) : i = j := by
  obtain ⟨n, hci, hn⟩ := hi
  obtain ⟨n', hcj, hn'⟩ := hj
  have h1 := (h.objIndex o.obj.key n).mpr ⟨o.obj, hn, rfl⟩
  have h2 := (h.objIndex o.obj.key n').mpr ⟨o.obj, hn', rfl⟩
  rw [h1] at h2
  obtain rfl := Option.some.inj h2
  have h3 := (h.csObjIndex ⟨o.ctx, n⟩ i).mpr hci
  rw [(h.csObjIndex ⟨o.ctx, n⟩ j).mpr hcj] at h3
  exact (Option.some.inj h3).symm

/-! ## Tables with an index -/

section Rows

variable {α κ : Type} [BEq κ] [Hashable κ] {key : α → κ} {rows : Array α} {a b : α} {n : Nat}
  {index : Std.HashMap κ Nat}

/-- The index says where the row with a key stands. -/
def Locates (key : α → κ) (rows : Array α) (index : Std.HashMap κ Nat) : Prop :=
  ∀ (k : κ) (n : Nat), index[k]? = some n ↔ ∃ a, rows[n]? = some a ∧ key a = k

theorem locates_id_iff {rows : Array κ} :
    Locates id rows index ↔ ∀ (a : κ) (n : Nat), index[a]? = some n ↔ rows[n]? = some a := by
  simp [Locates]

theorem getElem?_push_of_eq_some (h : rows[n]? = some a) : (rows.push b)[n]? = some a := by
  obtain ⟨hn, -⟩ := Array.getElem?_eq_some_iff.mp h
  rw [Array.getElem?_push, if_neg hn.ne, h]

theorem eq_or_of_getElem?_push (h : (rows.push b)[n]? = some a) :
    n = rows.size ∧ a = b ∨ rows[n]? = some a := by
  rw [Array.getElem?_push] at h
  split at h
  · rename_i hn
    exact Or.inl ⟨hn, (Option.some.inj h).symm⟩
  · exact Or.inr h

/-- A row with a new key goes to the end. -/
theorem Locates.push [LawfulBEq κ] (h : Locates key rows index) (hnone : index[key b]? = none) :
    Locates key (rows.push b) (index.insert (key b) rows.size) := by
  intro k n
  rw [Std.HashMap.getElem?_insert]
  by_cases hk : key b = k
  · subst hk
    rw [if_pos (beq_self_eq_true _)]
    constructor
    · intro hn
      obtain rfl := Option.some.inj hn
      exact ⟨b, by simp, rfl⟩
    · rintro ⟨a, ha, hkey⟩
      rcases eq_or_of_getElem?_push ha with ⟨rfl, -⟩ | hold
      · rfl
      · -- no old row has the key
        rw [(h (key b) n).mpr ⟨a, hold, hkey⟩] at hnone
        cases hnone
  · rw [if_neg (by simpa using hk), h k n]
    constructor
    · rintro ⟨a, ha, hkey⟩
      exact ⟨a, getElem?_push_of_eq_some ha, hkey⟩
    · rintro ⟨a, ha, hkey⟩
      rcases eq_or_of_getElem?_push ha with ⟨-, rfl⟩ | hold
      · exact absurd hkey hk
      · exact ⟨a, hold, hkey⟩

end Rows

/-! ## Making objects -/

/-- Only the tables differ: pointers, points-to sets, flows, the call graph and the worklist are the
same. -/
structure SameState (s t : Core) : Prop where
  pointers : t.pointers = s.pointers
  sets : t.sets = s.sets
  succs : t.succs = s.succs
  graph : t.graph = s.graph
  waiting : t.waiting = s.waiting

theorem SameState.trans (hst : SameState s t) (htu : SameState t u) : SameState s u :=
  ⟨htu.pointers.trans hst.pointers, htu.sets.trans hst.sets, htu.succs.trans hst.succs,
    htu.graph.trans hst.graph, htu.waiting.trans hst.waiting⟩

theorem internObj_csObjs (s : Core) (b : Obj) : (s.internObj b).1.csObjs = s.csObjs := by
  unfold Core.internObj
  split <;> rfl

/-- Making an object keeps the tables in order; the number is that of an object with its key, which
is either the object itself or one that was made before. -/
theorem Tables.internObj (h : Tables s) (b : Obj) :
    Tables (s.internObj b).1 ∧ TableLe s (s.internObj b).1 ∧ SameState s (s.internObj b).1 ∧
    ∃ b', (s.internObj b).1.objs[(s.internObj b).2]? = some b' ∧ b'.key = b.key ∧
      ∀ c ∈ (s.internObj b).1.objs, c = b ∨ c ∈ s.objs := by
  unfold Core.internObj
  split
  · rename_i n hn
    obtain ⟨b', hb', hkey⟩ := (h.objIndex b.key n).mp hn
    exact ⟨h, .refl s, ⟨rfl, rfl, rfl, rfl, rfl⟩, b', hb', hkey, fun c hc => Or.inr hc⟩
  · rename_i hnone
    have hindex : Locates Obj.key (s.objs.push b) (s.objIndex.insert b.key s.objs.size) :=
      Locates.push h.objIndex hnone
    refine ⟨⟨hindex, h.csObjIndex, ?_⟩, ⟨getElem?_push_of_eq_some, id⟩, ⟨rfl, rfl, rfl, rfl, rfl⟩,
      b, by simp, rfl, ?_⟩
    · intro n c hc
      rw [Array.size_push]
      exact Nat.lt_succ_of_lt (h.valid n c hc)
    · intro c hc
      rw [Array.mem_push] at hc
      exact hc.symm

/-- Making an object in a context keeps the tables in order, and the number is its place. -/
theorem Tables.internCSObj (h : Tables s) (c : CSObj) (hc : c.obj < s.objs.size) :
    Tables (s.internCSObj c).1 ∧ TableLe s (s.internCSObj c).1 ∧ SameState s (s.internCSObj c).1 ∧
    (s.internCSObj c).1.objs = s.objs ∧ (s.internCSObj c).1.csObjs[(s.internCSObj c).2]? = some c ∧
    ∀ (n : CSObjId) (d : CSObj), (s.internCSObj c).1.csObjs[n]? = some d →
      s.csObjs[n]? = some d ∨ n = (s.internCSObj c).2 := by
  unfold Core.internCSObj
  split
  · rename_i n hn
    exact ⟨h, .refl s, ⟨rfl, rfl, rfl, rfl, rfl⟩, rfl, (h.csObjIndex c n).mp hn,
      fun _ _ hd => Or.inl hd⟩
  · rename_i hnone
    have hindex : Locates id (s.csObjs.push c) (s.csObjIndex.insert c s.csObjs.size) :=
      Locates.push (locates_id_iff.mpr h.csObjIndex) hnone
    refine ⟨⟨h.objIndex, locates_id_iff.mp hindex, ?_⟩, ⟨id, getElem?_push_of_eq_some⟩,
      ⟨rfl, rfl, rfl, rfl, rfl⟩, rfl, by simp, ?_⟩
    · intro n d hd
      rcases eq_or_of_getElem?_push hd with ⟨-, rfl⟩ | hd
      · exact hc
      · exact h.valid n d hd
    · intro n d hd
      rcases eq_or_of_getElem?_push hd with ⟨rfl, -⟩ | hd
      · exact Or.inr rfl
      · exact Or.inl hd

/-- Making an object in a heap context keeps the tables in order; the number names an object in that
context with the same key. -/
theorem Tables.internHeapObj (h : Tables s) (o : HeapObj) :
    Tables (s.internHeapObj o).1 ∧ TableLe s (s.internHeapObj o).1 ∧
    SameState s (s.internHeapObj o).1 ∧
    (∀ c ∈ (s.internHeapObj o).1.objs, c = o.obj ∨ c ∈ s.objs) ∧
    (∀ (i : CSObjId) (b : HeapObj), (s.internHeapObj o).1.Names i b → s.Names i b ∨
      i = (s.internHeapObj o).2) ∧
    ∃ b, b.key = o.obj.key ∧ (s.internHeapObj o).1.Names (s.internHeapObj o).2 ⟨o.ctx, b⟩ := by
  obtain ⟨h1, hle1, hsame1, b, hb, hkey, hmem⟩ := h.internObj o.obj
  obtain ⟨hlt, -⟩ := Array.getElem?_eq_some_iff.mp hb
  obtain ⟨h2, hle2, hsame2, hobjs, hcs, hrows⟩ := h1.internCSObj ⟨o.ctx, (s.internObj o.obj).2⟩ hlt
  refine ⟨h2, hle1.trans hle2, hsame1.trans hsame2, ?_, ?_, b, hkey, _, hcs, ?_⟩
  · intro c hc
    exact hmem c (by rw [← hobjs]; exact hc)
  · rintro i c ⟨n, hn, hc⟩
    rcases hrows i _ hn with hold | hnew
    · -- a row of the old table refers to an object of the old table
      rw [internObj_csObjs] at hold
      have hn : n < s.objs.size := h.valid i _ hold
      have hobj := Array.getElem?_eq_getElem hn
      have hsame : some c.obj = some s.objs[n] := hc.symm.trans (hle2.objs (hle1.objs hobj))
      exact Or.inl ⟨n, hold, by rw [hobj, ← hsame]⟩
    · exact Or.inr hnew
  · exact hle2.objs hb

end WholeProgram.PointsTo.Core

/-! # Facts -/

namespace WholeProgram.PointsTo

namespace Core

/-- The core holds the fact. -/
def Has (s : Core) : Fact → Prop
  | .reach m => m ∈ s.graph.reachable
  | .edge site callee => s.graph.HasEdge site callee
  | .flow a b => b ∈ s.succsOf a
  | .holds q o => ∃ i, i ∈ s.pointsTo q ∧ s.Names i o
  | .fault => False

/-- The facts that the core holds. -/
def facts (s : Core) : Set Fact := {f | s.Has f}

/-- The facts that the worklist is about to add. -/
def promised (s : Core) : Set Fact :=
  {f | ∃ q set i o, f = .holds q o ∧ (q, set) ∈ s.waiting.toList ∧ i ∈ set ∧ s.Names i o}

/-- The facts that the core holds or promises. -/
def met (s : Core) : Set Fact := s.facts ∪ s.promised

/-- Every pointer that has a points-to set is listed. -/
def Listed (s : Core) : Prop := ∀ q, s.sets.contains q = true → q ∈ s.pointers

/-- The core is in order: tables and call graph agree with their indexes, objects are of `K`, and
every number in a points-to set or in the worklist names an object, and every number that names an
object is in one of these. -/
structure Ok (K : Set Obj) (s : Core) : Prop where
  tables : Tables s
  listed : s.Listed
  objs : ∀ o ∈ s.objs, o ∈ K
  graph : s.graph.Consistent
  held : ∀ {q : Pointer} {i : CSObjId}, i ∈ s.pointsTo q → ∃ o, s.Names i o
  waiting : ∀ {q : Pointer} {set : IdSet}, (q, set) ∈ s.waiting.toList → ∀ i ∈ set, ∃ o, s.Names i o
  used : ∀ {i : CSObjId} {o : HeapObj}, s.Names i o → ∃ q, .holds q o ∈ s.met

/-- From `s` to `t` the core gains facts of `A` and what follows from them; the rules ask for `D`
besides. -/
structure Gains (p : Program) (opts : Options) (A D : Set Fact) (s t : Core) : Prop where
  tables : TableLe s t
  facts : s.facts ⊆ t.facts
  facts_new : ∀ f ∈ t.facts, f ∈ s.facts ∨ f ∈ A
  met : s.met ⊆ t.met
  met_new : ∀ f ∈ t.met, f ∈ s.met ∨ f ∈ A ∨ Yields p opts false t.facts f
  demands : ∀ f, Yields p opts false t.facts f → Yields p opts false s.facts f ∨ f ∈ t.met ∨ f ∈ D

variable {p : Program} {opts : Options} {A A' D D' : Set Fact} {K : Set Obj} {s t u : Core}

theorem Gains.refl (s : Core) : Gains p opts ∅ ∅ s s where
  tables := .refl s
  facts := subset_rfl
  facts_new := fun _ hf => Or.inl hf
  met := subset_rfl
  met_new := fun _ hf => Or.inl hf
  demands := fun _ hf => Or.inl hf

theorem Gains.mono (h : Gains p opts A D s t) (hA : A ⊆ A') (hD : D ⊆ D') :
    Gains p opts A' D' s t where
  tables := h.tables
  facts := h.facts
  facts_new := fun f hf => (h.facts_new f hf).imp_right (@hA f)
  met := h.met
  met_new := fun f hf => (h.met_new f hf).imp_right (Or.imp_left (@hA f))
  demands := fun f hf => (h.demands f hf).imp_right (Or.imp_right (@hD f))

theorem Gains.trans (hst : Gains p opts A D s t) (htu : Gains p opts A' D' t u) :
    Gains p opts (A ∪ A') (D ∪ D') s u where
  tables := hst.tables.trans htu.tables
  facts := hst.facts.trans htu.facts
  facts_new := by
    intro f hf
    rcases htu.facts_new f hf with hf | hf
    · exact (hst.facts_new f hf).imp_right Or.inl
    · exact Or.inr (Or.inr hf)
  met := hst.met.trans htu.met
  met_new := by
    intro f hf
    rcases htu.met_new f hf with hf | hf | hf
    · rcases hst.met_new f hf with hf | hf | hf
      · exact Or.inl hf
      · exact Or.inr (Or.inl (Or.inl hf))
      · exact Or.inr (Or.inr (hf.mono htu.facts))
    · exact Or.inr (Or.inl (Or.inr hf))
    · exact Or.inr (Or.inr hf)
  demands := by
    intro f hf
    rcases htu.demands f hf with hf | hf | hf
    · rcases hst.demands f hf with hf | hf | hf
      · exact Or.inl hf
      · exact Or.inr (Or.inl (htu.met hf))
      · exact Or.inr (Or.inr (Or.inl hf))
    · exact Or.inr (Or.inl hf)
    · exact Or.inr (Or.inr (Or.inr hf))

/-- The tables grow, but no number that is in use gets a meaning that it did not have. -/
theorem Ok.names_old (hs : s.Ok K) (hle : TableLe s t) {q : Pointer} {i : CSObjId} {o : HeapObj}
    (hi : i ∈ s.pointsTo q) (ho : t.Names i o) : s.Names i o := by
  obtain ⟨o', ho'⟩ := hs.held hi
  have := (hle.names ho').unique ho
  rwa [this] at ho'

theorem Ok.names_old_waiting (hs : s.Ok K) (hle : TableLe s t) {q : Pointer} {set : IdSet}
    {i : CSObjId} {o : HeapObj} (hq : (q, set) ∈ s.waiting.toList) (hi : i ∈ set)
    (ho : t.Names i o) : s.Names i o := by
  obtain ⟨o', ho'⟩ := hs.waiting hq i hi
  have := (hle.names ho').unique ho
  rwa [this] at ho'

end Core

end WholeProgram.PointsTo
