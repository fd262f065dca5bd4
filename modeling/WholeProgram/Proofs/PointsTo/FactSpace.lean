import Mathlib.Data.List.Basic
import Mathlib.Data.Set.Finite.Lattice
import Mathlib.Data.Set.Finite.List
import WholeProgram.PointsTo.Heap
import WholeProgram.Proofs.PointsTo.Agenda
import WholeProgram.Taint.Plugin

/-!
# The facts that a program can give rise to

A program has finitely many places, variables, fields and methods, the objects of a run are those of
its allocation sites and the taint of its calls, and contexts are cut to `k` elements. So there are
finitely many facts that a run can be about: `factSpace` is finite (`finite_factSpace`) and no rule
leads out of it (`closed_factSpace`), and neither does the taint plugin (`Taint.respects_factSpace`).

Of contexts this takes the laws of `Context.last`: the cut bounds the length and keeps elements
(`length_last_le`, `mem_of_mem_last`), a cut of a cut is the shorter of the two (`last_last`), and an
element can be added before or after the cut (`last_append`). Every selector keeps method contexts within
`k` and heap contexts within both `k` and `hk`.
-/

namespace WholeProgram.PointsTo

namespace Context

variable {c : Context} {e x : Elem} {m n : Int}

theorem length_last (n : Int) (c : Context) : (last n c).length = min c.length n.toNat := by
  simp only [last, List.length_drop]
  omega

theorem length_last_le (n : Int) (c : Context) : (last n c).length ≤ n.toNat := by
  rw [length_last]
  exact Nat.min_le_right _ _

@[simp]
theorem last_nil (n : Int) : last n [] = [] := List.drop_nil

theorem last_of_nonpos (hn : n ≤ 0) (c : Context) : last n c = [] := by
  rw [last, Int.toNat_of_nonpos hn, Nat.sub_zero, List.drop_length]

theorem last_of_length_le (hn : c.length ≤ n) : last n c = c := by
  rw [last, Nat.sub_eq_zero_of_le (by omega), List.drop_zero]

theorem mem_of_mem_last (h : x ∈ last n c) : x ∈ c := List.mem_of_mem_drop h

/-- A cut of a cut is the shorter one. -/
theorem last_last (m n : Int) (c : Context) : last m (last n c) = last (min m n) c := by
  have hlen := length_last n c
  simp only [last] at hlen ⊢
  rw [List.drop_drop, hlen]
  congr 1
  omega

/-- An element can be added before the cut or after it. -/
theorem last_append (hn : 0 ≤ n) (c : Context) (e : Elem) :
    last n c ++ [e] = last (n + 1) (c ++ [e]) := by
  simp only [last, List.length_append, List.length_singleton]
  have hle : c.length + 1 - (n + 1).toNat = c.length - n.toNat := by omega
  rw [hle, List.drop_append_of_le_length (Nat.sub_le _ _)]

theorem map_last (g : Elem → Elem) (n : Int) (c : Context) :
    (last n c).map g = last n (c.map g) := by
  simp only [last, List.map_drop, List.length_map]

/-- A list that is cut before an element is added and one that is cut only afterwards are the same
to a cut. -/
theorem last_extend {k k' h : Int} (hh : 0 ≤ h) (hk : k ≤ k') (c : Context) (e : Elem) :
    last (min k (h + 1)) (c.extend e k') = (last h c).extend e k := by
  unfold extend
  rw [last_append hh, last_last, last_last]
  congr 1
  omega

theorem last_extend_same {k k' : Int} (hpos : 0 ≤ k) (hk : k ≤ k') (c : Context) (e : Elem) :
    last k (c.extend e k') = (last k c).extend e k := by
  have := last_extend hpos hk c e
  rwa [show min k (k + 1) = k by omega] at this

theorem mem_extend (h : x ∈ c.extend e n) : x = e ∨ x ∈ c := by
  have := mem_of_mem_last h
  rw [List.mem_append, List.mem_singleton] at this
  exact this.symm

end Context

namespace Selector

variable {sel : Selector} {c oc : Context} {site : Site} {o : Obj} {ty : Option Ty} {x : Elem}
  {n : Nat}

/-- The callee of a call without receiver keeps the context of the caller, or adds the call site. -/
theorem mem_staticContext (h : x ∈ sel.staticContext c site) : x = .site site ∨ x ∈ c := by
  unfold staticContext at h
  split at h
  · cases h
  · exact Context.mem_extend h
  · exact Or.inr h
  · exact Or.inr h

theorem mem_instanceContext (h : x ∈ sel.instanceContext c site oc o ty) :
    x = .site site ∨ x = .obj o ∨ x = .ty ty ∨ x ∈ c ∨ x ∈ oc := by
  unfold instanceContext at h
  split at h
  · cases h
  · exact (Context.mem_extend h).imp_right fun h => Or.inr (Or.inr (Or.inl h))
  · exact Or.inr ((Context.mem_extend h).imp_right fun h => Or.inr (Or.inr h))
  · exact Or.inr (Or.inr ((Context.mem_extend h).imp_right Or.inr))

theorem mem_heapContext (h : x ∈ sel.heapContext c) : x ∈ c := by
  unfold heapContext at h
  split at h
  · cases h
  · exact Context.mem_of_mem_last h
  · exact Context.mem_of_mem_last h
  · exact Context.mem_of_mem_last h

theorem heapContext_nil : sel.heapContext [] = [] :=
  List.eq_nil_iff_forall_not_mem.mpr fun _ hx => List.not_mem_nil (mem_heapContext hx)

theorem length_staticContext_le (h : c.length ≤ sel.k.toNat) :
    (sel.staticContext c site).length ≤ sel.k.toNat := by
  unfold staticContext
  split
  · exact Nat.zero_le _
  · exact Context.length_last_le _ _
  · exact h
  · exact h

theorem length_instanceContext_le : (sel.instanceContext c site oc o ty).length ≤ sel.k.toNat := by
  unfold instanceContext
  split
  · exact Nat.zero_le _
  · exact Context.length_last_le _ _
  · exact Context.length_last_le _ _
  · exact Context.length_last_le _ _

theorem length_heapContext_le (h : c.length ≤ n) :
    (sel.heapContext c).length ≤ min n sel.hk.toNat := by
  have hlast : (Context.last sel.hk c).length ≤ min n sel.hk.toNat := by
    rw [Context.length_last]
    omega
  unfold heapContext
  split
  · exact Nat.zero_le _
  · exact hlast
  · exact hlast
  · exact hlast

end Selector

end WholeProgram.PointsTo

/-! # The space of facts -/

namespace WholeProgram.PointsTo

variable {p : Program} {opts : Options} {rules : Taint.Rules} {site : Site} {m : MethodId}
  {v : VarId}

/-! ## What occurs in a program -/

/-- The places of the statements. -/
def places (p : Program) : Set Site := {site | ∃ s, p.stmt? site = some s}

/-- The variables of the statements and those that calls bind. -/
def usedVars (p : Program) : Set VarId :=
  {v | (∃ site s, p.stmt? site = some s ∧ (s.defined? = some v ∨ v ∈ s.uses)) ∨
    ∃ m, v ∈ (p.method m).params ∨ (p.method m).receiver = some v}

/-- The fields of the accesses. -/
def usedFields (p : Program) : Set FieldId :=
  {f | ∃ site, (∃ x b, p.stmt? site = some (.loadField x b f)) ∨
    ∃ b y, p.stmt? site = some (.storeField b f y)}

/-- The methods that can run. -/
def usedMethods (p : Program) : Set MethodId := {m | m ∈ p.entries ∨ ∃ c ∈ p.classes, m ∈ c.methods}

/-- The types that the rules give to taint. -/
def taintTypes (rules : Taint.Rules) : Set (Option Ty) :=
  {t | (∃ s ∈ rules.sources, s.ty = t) ∨ ∃ r ∈ rules.transfers, r.ty = t}

/-- The objects of the allocation sites, and the taint of the calls. -/
def objects (p : Program) (rules : Taint.Rules) : Set Obj :=
  {o | (∃ site x t, p.stmt? site = some (.new x t) ∧ o = .ofAlloc site t) ∨
    ∃ site ∈ places p, ∃ t ∈ taintTypes rules, o = Taint.taintObj site t}

theorem finite_places (p : Program) : (places p).Finite := by
  have hfin : (⋃ m ∈ {m | m < p.methods.size}, (fun i => (⟨m, i⟩ : Site)) ''
      {i | i < (p.method m).body.size}).Finite :=
    (Set.finite_lt_nat _).biUnion fun m _ => (Set.finite_lt_nat _).image _
  refine hfin.subset ?_
  rintro site ⟨s, hs⟩
  refine Set.mem_biUnion (Program.stmt?_lt hs) ⟨site.index, Method.stmt?_lt_size hs, rfl⟩

/-- What each statement has finitely many of, the program has finitely many of. -/
theorem finite_of_stmts {α : Type} {P : Stmt Nat → α → Prop} (hP : ∀ s, {a | P s a}.Finite) :
    {a | ∃ site s, p.stmt? site = some s ∧ P s a}.Finite := by
  have hfin : (⋃ site ∈ places p, {a | ∃ s, p.stmt? site = some s ∧ P s a}).Finite := by
    refine (finite_places p).biUnion fun site hsite => ?_
    obtain ⟨s, hs⟩ := hsite
    refine (hP s).subset ?_
    rintro a ⟨s', hs', ha⟩
    cases hs.symm.trans hs'
    exact ha
  refine hfin.subset ?_
  rintro a ⟨site, s, hs, ha⟩
  exact Set.mem_biUnion ⟨s, hs⟩ ⟨s, hs, ha⟩

theorem finite_option {α : Type} (a : Option α) : {x | a = some x}.Finite := by
  refine Set.Subsingleton.finite ?_
  intro x hx y hy
  exact Option.some.inj (hx.symm.trans hy)

theorem finite_usedVars (p : Program) : (usedVars p).Finite := by
  refine (finite_of_stmts fun s => (finite_option s.defined?).union
    (List.finite_toSet s.uses)).union ?_
  have hfin : (⋃ m ∈ {m | m < p.methods.size},
      {v | v ∈ (p.method m).params ∨ (p.method m).receiver = some v}).Finite := by
    refine (Set.finite_lt_nat _).biUnion fun m _ => Set.Finite.union ?_ (finite_option _)
    exact (List.finite_toSet (p.method m).params.toList).subset fun v hv =>
      Array.mem_toList_iff.mpr hv
  refine hfin.subset ?_
  rintro v ⟨m, hv⟩
  refine Set.mem_biUnion (x := m) ?_ hv
  -- a method outside the table has neither parameters nor a receiver
  by_contra hlt
  rw [Program.method_eq_default (Nat.le_of_not_lt hlt)] at hv
  rcases hv with hv | hv
  · exact absurd (show v ∈ (#[] : Array VarId) from hv) (by simp)
  · cases hv

theorem finite_usedFields (p : Program) : (usedFields p).Finite := by
  have hfin := finite_of_stmts (p := p) (P := fun s f =>
    (∃ x b, s = .loadField x b f) ∨ ∃ b y, s = .storeField b f y) ?_
  · refine hfin.subset ?_
    rintro f ⟨site, ⟨x, b, hs⟩ | ⟨b, y, hs⟩⟩
    · exact ⟨site, _, hs, Or.inl ⟨x, b, rfl⟩⟩
    · exact ⟨site, _, hs, Or.inr ⟨b, y, rfl⟩⟩
  · intro s
    refine Set.Subsingleton.finite ?_
    rintro f (⟨x, b, rfl⟩ | ⟨b, y, rfl⟩) g (⟨x', b', hs⟩ | ⟨b', y', hs⟩)
    · cases hs
      rfl
    · cases hs
    · cases hs
    · cases hs
      rfl

theorem finite_usedMethods (p : Program) : (usedMethods p).Finite := by
  refine (List.finite_toSet p.entries).union ?_
  have hfin : (⋃ c ∈ {c | c ∈ p.classes.toList}, {m | m ∈ c.methods.toList}).Finite :=
    (List.finite_toSet _).biUnion fun c _ => List.finite_toSet _
  refine hfin.subset ?_
  rintro m ⟨c, hc, hm⟩
  exact Set.mem_biUnion (x := c) (Array.mem_toList_iff.mpr hc) (Array.mem_toList_iff.mpr hm)

theorem finite_objects (p : Program) (rules : Taint.Rules) : (objects p rules).Finite := by
  have htypes : (taintTypes rules).Finite :=
    ((List.finite_toSet rules.sources).image Taint.Source.ty).union
      ((List.finite_toSet rules.transfers).image Taint.Transfer.ty)
  refine Set.Finite.union ?_ ?_
  · have hfin : (⋃ site ∈ places p,
        {o | ∃ x t, p.stmt? site = some (.new x t) ∧ o = Obj.ofAlloc site t}).Finite := by
      refine (finite_places p).biUnion fun site _ => Set.Subsingleton.finite ?_
      rintro o ⟨x, t, hs, rfl⟩ o' ⟨x', t', hs', rfl⟩
      cases hs.symm.trans hs'
      rfl
    refine hfin.subset ?_
    rintro o ⟨site, x, t, hs, rfl⟩
    exact Set.mem_biUnion ⟨_, hs⟩ ⟨x, t, hs, rfl⟩
  · refine ((finite_places p).image2 Taint.taintObj htypes).subset ?_
    rintro o ⟨site, hsite, t, ht, rfl⟩
    exact ⟨site, hsite, t, ht, rfl⟩

/-- The objects are told apart by their keys. -/
theorem genuine_objects (p : Program) (rules : Taint.Rules) : Genuine p (objects p rules) where
  alloc := fun hs => Or.inl ⟨_, _, _, hs, rfl⟩
  unique := by
    rintro o o' (⟨site, x, t, hs, rfl⟩ | ⟨site, _, t, _, rfl⟩)
      (⟨site', x', t', hs', rfl⟩ | ⟨site', _, t', _, rfl⟩) hkey
    · obtain rfl : site = site' := ObjKey.alloc.inj hkey
      cases hs.symm.trans hs'
      rfl
    · cases hkey
    · cases hkey
    · obtain ⟨_, hsource, rfl⟩ := ObjKey.mock.inj hkey
      cases hsource
      rfl

/-! ## Callees -/

theorem declaredMethod?_used {c : ClassId} {subsig : String}
    (h : p.declaredMethod? c subsig = some m) :
    m ∈ usedMethods p := by
  obtain ⟨d, hd, hm⟩ := Option.bind_eq_some_iff.mp h
  exact Or.inr ⟨d, Array.mem_of_getElem? hd, Array.mem_of_find?_eq_some hm⟩

theorem dispatch_used {c : ClassId} {subsig : String} (h : p.dispatch c subsig = some m) :
    m ∈ usedMethods p := by
  obtain ⟨d, _, hm⟩ := List.exists_of_findSome?_eq_some h
  exact declaredMethod?_used (Option.filter_eq_some_iff.mp hm).1

theorem dispatchAll_used {subsig : String} (cs : List ClassId) (found : List MethodId)
    (hfound : ∀ m ∈ found, m ∈ usedMethods p) :
    ∀ m ∈ (p.dispatchAll subsig cs found).1, m ∈ usedMethods p := by
  induction cs generalizing found with
  | nil => exact hfound
  | cons c cs ih =>
    unfold Program.dispatchAll
    split
    · exact hfound
    · rename_i m hm
      refine ih _ ?_
      split
      · exact hfound
      · intro m' hm'
        rcases List.mem_append.mp hm' with hm' | hm'
        · exact hfound m' hm'
        · rw [List.mem_singleton.mp hm']
          exact dispatch_used hm

/-- The callees of a call are methods of classes. -/
theorem resolve_used {call : Call} {r : Program.Resolved} (h : p.resolve site call = .ok r)
    (hm : m ∈ r.callees) :
    m ∈ usedMethods p := by
  unfold Program.resolve at h
  have hall : ∀ {missing : ClassId → DispatchError} {cs : List ClassId}, (Except.ok
      { callees := (p.dispatchAll call.ref.subsig cs []).1,
        error := (p.dispatchAll call.ref.subsig cs []).2.map missing } :
          Except Int Program.Resolved) = .ok r →
      m ∈ usedMethods p := by
    intro missing cs h
    cases h
    exact dispatchAll_used _ _ (by simp) m hm
  cases hkind : call.kind with
  | static | special =>
    simp only [hkind] at h
    split at h
    · rename_i m' hm'
      cases h
      rw [List.mem_singleton.mp hm]
      exact dispatch_used hm'
    · cases h
      cases hm
  | virtual | interface =>
    simp only [hkind] at h
    exact hall h
  | undeclared n =>
    simp only [hkind] at h
    cases h

theorem calleeOn_used {o : Obj} {call : Call} (h : Machine.calleeOn p o site call = .ok (some m)) :
    m ∈ usedMethods p := by
  unfold Machine.calleeOn at h
  dsimp only at h
  split at h
  · cases h
  · split at h
    · rename_i hm
      cases h
      exact dispatch_used hm
    · split at h <;> cases h

/-! ## The space of facts -/

/-- The elements of contexts. -/
def elems (p : Program) (rules : Taint.Rules) : Set Elem :=
  {e | (∃ site ∈ places p, e = .site site) ∨ (∃ o ∈ objects p rules, e = .obj o) ∨
    ∃ o ∈ objects p rules, e = .ty (o.containerType p)}

/-- The contexts of at most `n` elements. -/
def contexts (p : Program) (rules : Taint.Rules) (n : Nat) : Set Context :=
  {c | c.length ≤ n ∧ ∀ e ∈ c, e ∈ elems p rules}

/-- The objects in heap contexts. -/
def heapObjs (p : Program) (opts : Options) (rules : Taint.Rules) : Set HeapObj :=
  {o | o.ctx ∈ contexts p rules (min opts.selector.k.toNat opts.selector.hk.toNat) ∧
    o.obj ∈ objects p rules}

/-- The pointers of the program. -/
def pointers (p : Program) (opts : Options) (rules : Taint.Rules) : Set Pointer :=
  {q | match q with
    | .var c v => c ∈ contexts p rules opts.selector.k.toNat ∧ v ∈ usedVars p
    | .field o f => o ∈ heapObjs p opts rules ∧ f ∈ usedFields p
    | .static f => f ∈ usedFields p
    | .array o => o ∈ heapObjs p opts rules}

/-- The methods in contexts. -/
def csMethods (p : Program) (opts : Options) (rules : Taint.Rules) : Set CSMethod :=
  {m | m.ctx ∈ contexts p rules opts.selector.k.toNat ∧ m.method ∈ usedMethods p}

/-- The facts that a run can be about. -/
def factSpace (p : Program) (opts : Options) (rules : Taint.Rules) : Set Fact :=
  {f | match f with
    | .reach m => m ∈ csMethods p opts rules
    | .edge site m => (site.ctx ∈ contexts p rules opts.selector.k.toNat ∧ site.site ∈ places p) ∧
      m ∈ csMethods p opts rules
    | .flow a b => a ∈ pointers p opts rules ∧ b ∈ pointers p opts rules
    | .holds q o => q ∈ pointers p opts rules ∧ o ∈ heapObjs p opts rules
    | .fault => True}

theorem finite_elems (p : Program) (rules : Taint.Rules) : (elems p rules).Finite := by
  have hsites := (finite_places p).image Elem.site
  have hobjs := (finite_objects p rules).image Elem.obj
  have htypes := (finite_objects p rules).image fun o => Elem.ty (o.containerType p)
  refine (hsites.union (hobjs.union htypes)).subset ?_
  rintro e (⟨site, hsite, rfl⟩ | ⟨o, ho, rfl⟩ | ⟨o, ho, rfl⟩)
  · exact Or.inl ⟨site, hsite, rfl⟩
  · exact Or.inr (Or.inl ⟨o, ho, rfl⟩)
  · exact Or.inr (Or.inr ⟨o, ho, rfl⟩)

/-- There are finitely many contexts: short lists of finitely many elements. -/
theorem finite_contexts (p : Program) (rules : Taint.Rules) (n : Nat) :
    (contexts p rules n).Finite := by
  have : Finite (elems p rules) := finite_elems p rules
  refine ((List.finite_length_le (elems p rules) n).image (List.map Subtype.val)).subset ?_
  rintro c ⟨hlen, hmem⟩
  exact ⟨c.attachWith _ hmem, by simpa using hlen, by simp⟩

theorem finite_heapObjs (p : Program) (opts : Options) (rules : Taint.Rules) :
    (heapObjs p opts rules).Finite := by
  have hctxs := finite_contexts p rules (min opts.selector.k.toNat opts.selector.hk.toNat)
  refine (hctxs.image2 HeapObj.mk (finite_objects p rules)).subset ?_
  rintro o ⟨hctx, hobj⟩
  exact ⟨o.ctx, hctx, o.obj, hobj, rfl⟩

theorem finite_pointers (p : Program) (opts : Options) (rules : Taint.Rules) :
    (pointers p opts rules).Finite := by
  have hvars := (finite_contexts p rules opts.selector.k.toNat).image2 Pointer.var
    (finite_usedVars p)
  have hfields := (finite_heapObjs p opts rules).image2 Pointer.field (finite_usedFields p)
  have hstatics := (finite_usedFields p).image Pointer.static
  have harrays := (finite_heapObjs p opts rules).image Pointer.array
  refine ((hvars.union hfields).union (hstatics.union harrays)).subset ?_
  intro q hq
  cases q with
  | var c v => exact Or.inl (Or.inl ⟨c, hq.1, v, hq.2, rfl⟩)
  | field o f => exact Or.inl (Or.inr ⟨o, hq.1, f, hq.2, rfl⟩)
  | static f => exact Or.inr (Or.inl ⟨f, hq, rfl⟩)
  | array o => exact Or.inr (Or.inr ⟨o, hq, rfl⟩)

theorem finite_factSpace (p : Program) (opts : Options) (rules : Taint.Rules) :
    (factSpace p opts rules).Finite := by
  have hctxs := finite_contexts p rules opts.selector.k.toNat
  have hmethods : (csMethods p opts rules).Finite := by
    refine (hctxs.image2 CSMethod.mk (finite_usedMethods p)).subset ?_
    rintro m ⟨hctx, hm⟩
    exact ⟨m.ctx, hctx, m.method, hm, rfl⟩
  have hsites := hctxs.image2 CSSite.mk (finite_places p)
  have hpointers := finite_pointers p opts rules
  have hheld := hpointers.image2 Fact.holds (finite_heapObjs p opts rules)
  refine ((hmethods.image Fact.reach).union ((hsites.image2 Fact.edge hmethods).union
    ((hpointers.image2 Fact.flow hpointers).union
      (hheld.union (Set.finite_singleton .fault))))).subset ?_
  intro f hf
  cases f with
  | reach m => exact Or.inl ⟨m, hf, rfl⟩
  | edge site m => exact Or.inr (Or.inl ⟨site, ⟨_, hf.1.1, _, hf.1.2, rfl⟩, m, hf.2, rfl⟩)
  | flow a b => exact Or.inr (Or.inr (Or.inl ⟨a, hf.1, b, hf.2, rfl⟩))
  | holds q o => exact Or.inr (Or.inr (Or.inr (Or.inl ⟨q, hf.1, o, hf.2, rfl⟩)))
  | fault => exact Or.inr (Or.inr (Or.inr (Or.inr rfl)))

/-! ## No rule leads out of it -/

theorem nil_mem_contexts (n : Nat) : [] ∈ contexts p rules n := ⟨Nat.zero_le n, by simp⟩

theorem staticContext_mem {c : Context} (hc : c ∈ contexts p rules opts.selector.k.toNat)
    (hsite : site ∈ places p) :
    opts.selector.staticContext c site ∈ contexts p rules opts.selector.k.toNat := by
  refine ⟨Selector.length_staticContext_le hc.1, ?_⟩
  intro e he
  rcases Selector.mem_staticContext he with rfl | he
  · exact Or.inl ⟨site, hsite, rfl⟩
  · exact hc.2 e he

theorem heapContext_mem {c : Context} (hc : c ∈ contexts p rules opts.selector.k.toNat) :
    opts.selector.heapContext c ∈
      contexts p rules (min opts.selector.k.toNat opts.selector.hk.toNat) :=
  ⟨Selector.length_heapContext_le hc.1, fun e he => hc.2 e (Selector.mem_heapContext he)⟩

theorem calleeIn_mem {c : Context} {o : HeapObj} (hc : c ∈ contexts p rules opts.selector.k.toNat)
    (hsite : site ∈ places p) (ho : o ∈ heapObjs p opts rules) (hm : m ∈ usedMethods p) :
    Machine.calleeIn p opts.selector c site o m ∈ csMethods p opts rules := by
  refine ⟨⟨Selector.length_instanceContext_le, ?_⟩, hm⟩
  intro e he
  rcases Selector.mem_instanceContext he with rfl | rfl | rfl | he | he
  · exact Or.inl ⟨site, hsite, rfl⟩
  · exact Or.inr (Or.inl ⟨o.obj, ho.2, rfl⟩)
  · exact Or.inr (Or.inr ⟨o.obj, ho.2, rfl⟩)
  · exact hc.2 e he
  · exact ho.1.2 e he

theorem defined_used {s : Stmt Nat} (hs : p.stmt? site = some s) (hv : s.defined? = some v) :
    v ∈ usedVars p :=
  Or.inl ⟨site, s, hs, Or.inl hv⟩

theorem uses_used {s : Stmt Nat} (hs : p.stmt? site = some s) (hv : v ∈ s.uses) : v ∈ usedVars p :=
  Or.inl ⟨site, s, hs, Or.inr hv⟩

theorem does_factSpace {m : CSMethod} {i : Nat} {f : Fact} (hm : m ∈ csMethods p opts rules)
    (h : Does p opts m i f) : f ∈ factSpace p opts rules := by
  cases h with
  | new hs => exact ⟨⟨hm.1, defined_used hs rfl⟩, heapContext_mem hm.1, Or.inl ⟨_, _, _, hs, rfl⟩⟩
  | copy hs => exact ⟨⟨hm.1, uses_used hs (by simp [Stmt.uses])⟩, hm.1, defined_used hs rfl⟩
  | loadStatic hs => exact ⟨⟨_, Or.inl ⟨_, _, hs⟩⟩, hm.1, defined_used hs rfl⟩
  | storeStatic hs => exact ⟨⟨hm.1, uses_used hs (by simp [Stmt.uses])⟩, _, Or.inr ⟨_, _, hs⟩⟩
  | call hs _ hr hk => exact ⟨⟨hm.1, _, hs⟩, staticContext_mem hm.1 ⟨_, hs⟩, resolve_used hr hk⟩
  | unresolved => exact trivial
  | undeclared => exact trivial

theorem uses_factSpace {c : Context} {b : VarId} {o : HeapObj} {f : Fact}
    (hc : c ∈ contexts p rules opts.selector.k.toNat) (ho : o ∈ heapObjs p opts rules)
    (h : Uses p opts c b o site f) : f ∈ factSpace p opts rules := by
  cases h with
  | loadField hs => exact ⟨⟨ho, _, Or.inl ⟨_, _, hs⟩⟩, hc, defined_used hs rfl⟩
  | storeField hs => exact ⟨⟨hc, uses_used hs (by simp [Stmt.uses])⟩, ho, _, Or.inr ⟨_, _, hs⟩⟩
  | loadArray hs => exact ⟨ho, hc, defined_used hs rfl⟩
  | storeArray hs => exact ⟨⟨hc, uses_used hs (by simp [Stmt.uses])⟩, ho⟩
  | call hs _ hm => exact ⟨⟨hc, _, hs⟩, calleeIn_mem hc ⟨_, hs⟩ ho (calleeOn_used hm)⟩
  | receiver hs _ hm hr =>
    exact ⟨⟨(calleeIn_mem hc ⟨_, hs⟩ ho (calleeOn_used hm)).1, Or.inr ⟨_, Or.inr hr⟩⟩, ho⟩
  | unresolved => exact trivial

theorem links_factSpace {s : CSSite} {m : CSMethod} {f : Fact}
    (hc : s.ctx ∈ contexts p rules opts.selector.k.toNat) (hm : m ∈ csMethods p opts rules)
    (h : Links p s m f) : f ∈ factSpace p opts rules := by
  cases h with
  | arg hs hy hv =>
    refine ⟨⟨hc, uses_used hs ?_⟩, hm.1, Or.inr ⟨_, Or.inl (Array.mem_of_getElem? hv)⟩⟩
    exact List.mem_append_right _ (List.mem_of_getElem? hy)
  | result hs hret => exact ⟨⟨hm.1, uses_used hret (by simp [Stmt.uses])⟩, hc, defined_used hs rfl⟩

theorem closed_factSpace (p : Program) (opts : Options) (rules : Taint.Rules) :
    Closed p opts false (factSpace p opts rules) := by
  intro f hf
  cases hf with
  | entry hm => exact ⟨nil_mem_contexts _, Or.inl hm⟩
  | stmt hr hd => exact does_factSpace hr hd
  | through hh hu _ => exact uses_factSpace hh.1.1 hh.2 hu
  | callee he => exact he.2
  | link he hl => exact links_factSpace he.1.1 he.2 hl
  | flow hab hh => exact ⟨hab.2, hh.2⟩

end WholeProgram.PointsTo
