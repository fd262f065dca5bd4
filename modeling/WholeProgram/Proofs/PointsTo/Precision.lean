import WholeProgram.Proofs.PointsTo.Exact
import WholeProgram.Proofs.PointsTo.Outcome

/-!
# Which selectors are more precise than which

A finer selector tells more contexts apart than a coarser one. When the contexts of the finer one
can be mapped to those of the coarser one in step with the choice of contexts (`Coarsening`), the
map takes facts to facts and rules to rules (`Coarsening.yields`). So what is closed for the coarser
selector is closed for the finer one when it is pulled back (`Coarsening.closed_preimage`), and the
least facts of the finer one are mapped into those of the coarser one.

The pairs of selectors are those of `Finer`: shorter contexts of the same kind, objects against the
types that stand for them, and any contexts against none. `analyze_finer` compares the two analyses.
-/

namespace WholeProgram.PointsTo

/-! ## Options other than the selector -/

section Options

variable {p : Program} {opts opts' : Options} {guarded : Bool} {X : Set Fact} {f : Fact}

theorem Does.of_selector {m : CSMethod} {i : Nat} (h : Does p opts m i f)
    (hsel : opts'.selector = opts.selector) : f = .fault ∨ Does p opts' m i f := by
  cases h with
  | new hs => exact Or.inr (hsel ▸ .new hs)
  | copy hs => exact Or.inr (.copy hs)
  | loadStatic hs => exact Or.inr (.loadStatic hs)
  | storeStatic hs => exact Or.inr (.storeStatic hs)
  | call hs hb hr hm => exact Or.inr (hsel ▸ .call hs hb hr hm)
  | unresolved | undeclared => exact Or.inl rfl

theorem Uses.of_selector {c : Context} {b : VarId} {o : HeapObj} {site : Site}
    (h : Uses p opts c b o site f) (hsel : opts'.selector = opts.selector) :
    f = .fault ∨ Uses p opts' c b o site f := by
  cases h with
  | loadField hs => exact Or.inr (.loadField hs)
  | storeField hs => exact Or.inr (.storeField hs)
  | loadArray hs => exact Or.inr (.loadArray hs)
  | storeArray hs => exact Or.inr (.storeArray hs)
  | call hs hb hm => exact Or.inr (hsel ▸ .call hs hb hm)
  | receiver hs hb hm hr => exact Or.inr (hsel ▸ .receiver hs hb hm hr)
  | unresolved => exact Or.inl rfl

/-- Of the options, only the selector has a say in what is found. -/
theorem Yields.of_selector (h : Yields p opts guarded X f) (hsel : opts'.selector = opts.selector) :
    f = .fault ∨ Yields p opts' guarded X f := by
  cases h with
  | entry hm => exact Or.inr (.entry hm)
  | stmt hr hd => exact (hd.of_selector hsel).imp_right (.stmt hr)
  | through hh hu hg => exact (hu.of_selector hsel).imp_right fun hu => .through hh hu hg
  | callee he => exact Or.inr (.callee he)
  | link he hl => exact Or.inr (.link he hl)
  | flow hf hh => exact Or.inr (.flow hf hh)

/-- Nothing follows from a fault. -/
theorem Yields.of_insert_fault (h : Yields p opts guarded (insert .fault X) f) :
    Yields p opts guarded X f := by
  have hmem : ∀ {g : Fact}, g ≠ .fault → g ∈ insert .fault X → g ∈ X := fun hne hg =>
    hg.resolve_left hne
  cases h with
  | entry hm => exact .entry hm
  | stmt hr hd => exact .stmt (hmem nofun hr) hd
  | through hh hu hg => exact .through (hmem nofun hh) hu fun hguard => hmem nofun (hg hguard)
  | callee he => exact .callee (hmem nofun he)
  | link he hl => exact .link (hmem nofun he) hl
  | flow hf hh => exact .flow (hmem nofun hf) (hmem nofun hh)

end Options

/-! ## Maps of contexts -/

/-- Maps of the method and heap contexts of one selector to those of another, in step with the
choice of contexts. -/
structure Coarsening (p : Program) (fine coarse : Selector) where
  method : Context → Context
  heap : Context → Context
  method_nil : method [] = []
  heap_heapContext : ∀ c, heap (fine.heapContext c) = coarse.heapContext (method c)
  method_staticContext : ∀ c site,
    method (fine.staticContext c site) = coarse.staticContext (method c) site
  method_instanceContext : ∀ c site oc o,
    method (fine.instanceContext c site oc o (o.containerType p)) =
    coarse.instanceContext (method c) site (heap oc) o (o.containerType p)

namespace Coarsening

variable {p : Program} {opts : Options} {fine coarse : Selector} {guarded : Bool} {X : Set Fact}
  {f : Fact}

section Maps

variable (h : Coarsening p fine coarse)

def csMethod (m : CSMethod) : CSMethod := ⟨h.method m.ctx, m.method⟩

def csSite (site : CSSite) : CSSite := ⟨h.method site.ctx, site.site⟩

def heapObj (o : HeapObj) : HeapObj := ⟨h.heap o.ctx, o.obj⟩

def pointer : Pointer → Pointer
  | .var c v => .var (h.method c) v
  | .field o f => .field (h.heapObj o) f
  | .static f => .static f
  | .array o => .array (h.heapObj o)

/-- The coarser fact that a finer one stands for. -/
def fact : Fact → Fact
  | .reach m => .reach (h.csMethod m)
  | .edge site callee => .edge (h.csSite site) (h.csMethod callee)
  | .flow a b => .flow (h.pointer a) (h.pointer b)
  | .holds q o => .holds (h.pointer q) (h.heapObj o)
  | .fault => .fault

theorem calleeIn (c : Context) (site : Site) (o : HeapObj) (m : MethodId) :
    h.csMethod (Machine.calleeIn p fine c site o m) =
      Machine.calleeIn p coarse (h.method c) site (h.heapObj o) m := by
  unfold csMethod Machine.calleeIn heapObj
  rw [h.method_instanceContext]

theorem fact_eq_fault (hf : h.fact f = .fault) : f = .fault := by
  cases f with
  | fault => rfl
  | reach | edge | flow | holds => cases hf

/-- Objects that are made in no context stay so. -/
theorem heap_nil : h.heap [] = [] := by
  have hheap := h.heap_heapContext []
  rwa [h.method_nil, Selector.heapContext_nil, Selector.heapContext_nil] at hheap

end Maps

/-! ## Every rule is mapped to a rule -/

theorem does (h : Coarsening p fine coarse) {m : CSMethod} {i : Nat}
    (hd : Does p { opts with selector := fine } m i f) :
    Does p { opts with selector := coarse } (h.csMethod m) i (h.fact f) := by
  cases hd with
  | new hs =>
    rw [fact, heapObj, h.heap_heapContext]
    exact .new hs
  | copy hs => exact .copy hs
  | loadStatic hs => exact .loadStatic hs
  | storeStatic hs => exact .storeStatic hs
  | call hs hb hr hm =>
    show Does _ _ _ _ (.edge _ ⟨h.method (fine.staticContext m.ctx ⟨m.method, i⟩), _⟩)
    rw [h.method_staticContext]
    exact .call hs hb hr hm
  | unresolved hs hb hr he hstrict => exact .unresolved hs hb hr he hstrict
  | undeclared hs hb hr => exact .undeclared hs hb hr

theorem uses (h : Coarsening p fine coarse) {c : Context} {b : VarId} {o : HeapObj} {site : Site}
    (hu : Uses p { opts with selector := fine } c b o site f) :
    Uses p { opts with selector := coarse } (h.method c) b (h.heapObj o) site (h.fact f) := by
  cases hu with
  | loadField hs => exact .loadField hs
  | storeField hs => exact .storeField hs
  | loadArray hs => exact .loadArray hs
  | storeArray hs => exact .storeArray hs
  | call hs hb hm =>
    rw [fact, h.calleeIn]
    exact .call hs hb hm
  | @receiver _ _ m _ hs hb hm hr =>
    -- the receiver is a variable in the context of the callee
    have hctx : h.method (Machine.calleeIn p fine c site o m).ctx = _ :=
      congrArg CSMethod.ctx (h.calleeIn c site o m)
    rw [fact, pointer, hctx]
    exact .receiver hs hb hm hr
  | unresolved hs hb he hstrict => exact .unresolved hs hb he hstrict

theorem links (h : Coarsening p fine coarse) {site : CSSite} {m : CSMethod}
    (hl : Links p site m f) :
    Links p (h.csSite site) (h.csMethod m) (h.fact f) := by
  cases hl with
  | arg hs hy hv => exact .arg hs hy hv
  | result hs hi => exact .result hs hi

/-- What the rules yield from the finer facts, they yield from the coarser ones. -/
theorem yields (h : Coarsening p fine coarse)
    (hy : Yields p { opts with selector := fine } guarded (Set.preimage h.fact X) f) :
    Yields p { opts with selector := coarse } guarded X (h.fact f) := by
  cases hy with
  | entry hm =>
    rw [fact, csMethod, h.method_nil]
    exact .entry hm
  | stmt hr hd => exact .stmt hr (h.does hd)
  | through hh hu hg => exact .through hh (h.uses hu) hg
  | callee he => exact .callee he
  | link he hl => exact .link he (h.links hl)
  | flow hf hh => exact .flow hf hh

/-- The finer facts that stand for facts of a closed set are closed. -/
theorem closed_preimage (h : Coarsening p fine coarse)
    (hX : Closed p { opts with selector := coarse } guarded X) :
    Closed p { opts with selector := fine } guarded (Set.preimage h.fact X) :=
  fun _ hy => hX (h.yields hy)

/-- If the coarser analysis has a result, so has the finer one, and its facts stand for facts of the
coarser. -/
theorem analyze (h : Coarsening p fine coarse) (hlimit : opts.limit ≤ 0) {rough : Result}
    (hrough : (PointsTo.analyze p { opts with selector := coarse }).start.1 = .ok rough) :
    ∃ r, (PointsTo.analyze p { opts with selector := fine }).start.1 = .ok r ∧
      ∀ f ∈ r.core.facts, h.fact f ∈ rough.core.facts := by
  have hclosed := h.closed_preimage (analyze_closed hrough)
  have hlimit' : ({ opts with selector := fine } : Options).limit ≤ 0 := hlimit
  obtain ⟨r, hr⟩ := Machine.analyze_succeeds (entries_ne_nil_of_ok hrough) hlimit' hclosed id
  exact ⟨r, hr, analyze_facts_subset hr hclosed⟩

end Coarsening

/-! ## The pairs of selectors -/

/-- The first selector is at least as precise as the second. -/
inductive Finer : Selector → Selector → Prop
  /-- Contexts of the same kind, with longer lists. -/
  | longer {s : Sensitivity} {k hk k' hk' : Int} : k ≤ k' → hk ≤ hk' → 0 ≤ hk → hk ≤ k →
      Finer ⟨s, k', hk'⟩ ⟨s, k, hk⟩
  /-- Objects against the types that stand for them. -/
  | objects {k hk : Int} : Finer ⟨.object, k, hk⟩ ⟨.type, k, hk⟩
  /-- Any contexts against none. -/
  | any {sel : Selector} {k hk : Int} : Finer sel ⟨.insensitive, k, hk⟩

namespace Coarsening

variable (p : Program) {k hk k' hk' : Int}

/-- Contexts are kept. -/
def refl (sel : Selector) : Coarsening p sel sel where
  method := id
  heap := id
  method_nil := rfl
  heap_heapContext := fun _ => rfl
  method_staticContext := fun _ _ => rfl
  method_instanceContext := fun _ _ _ _ => rfl

/-- Contexts are forgotten. -/
def forget (sel : Selector) (k hk : Int) : Coarsening p sel ⟨.insensitive, k, hk⟩ where
  method := fun _ => []
  heap := fun _ => []
  method_nil := rfl
  heap_heapContext := fun _ => rfl
  method_staticContext := fun _ _ => rfl
  method_instanceContext := fun _ _ _ _ => rfl

/-- How much of a method context is left when heap contexts are cut to `hk` and method contexts to
`k`. A context that comes from a receiver object has one element more than the heap context of the
object. -/
def cutLength (s : Sensitivity) (k hk : Int) : Int :=
  match s with
  | .insensitive | .callSite => k
  | .object | .type => min k (hk + 1)

theorem min_cutLength (s : Sensitivity) (hle : hk ≤ k) : min hk (cutLength s k hk) = hk := by
  cases s with
  | insensitive | callSite => exact min_eq_left hle
  | object | type => exact min_eq_left (le_min hle (by omega))

/-- Contexts of the same kind are cut. -/
def cut (s : Sensitivity) (hmethod : k ≤ k') (hheap : hk ≤ hk') (hpos : 0 ≤ hk) (hle : hk ≤ k) :
    Coarsening p ⟨s, k', hk'⟩ ⟨s, k, hk⟩ where
  method := Context.last (cutLength s k hk)
  heap := Context.last hk
  method_nil := Context.last_nil _
  heap_heapContext := by
    intro c
    cases s with
    | insensitive => exact Context.last_nil _
    | callSite | object | type =>
      simp only [Selector.heapContext]
      rw [Context.last_last, Context.last_last, min_eq_left hheap, min_cutLength _ hle]
  method_staticContext := by
    intro c site
    cases s with
    | insensitive => exact Context.last_nil _
    | callSite => exact Context.last_extend_same (hpos.trans hle) hmethod c (.site site)
    -- the callee keeps the context of the caller
    | object | type => rfl
  method_instanceContext := by
    intro c site oc o
    cases s with
    | insensitive => exact Context.last_nil _
    | callSite => exact Context.last_extend_same (hpos.trans hle) hmethod c (.site site)
    | object => exact Context.last_extend hpos hmethod oc (.obj o)
    | type => exact Context.last_extend hpos hmethod oc (.ty (o.containerType p))

/-- The type that stands for an object, in the place of the object. -/
def typeOf (p : Program) : Elem → Elem
  | .obj o => .ty (o.containerType p)
  | e => e

theorem map_extend (c : Context) (o : Obj) :
    (c.extend (.obj o) k).map (typeOf p) =
      Context.extend (c.map (typeOf p)) (.ty (o.containerType p)) k := by
  unfold Context.extend
  rw [Context.map_last, List.map_append]
  rfl

/-- Objects are replaced by types. -/
def types (k hk : Int) : Coarsening p ⟨.object, k, hk⟩ ⟨.type, k, hk⟩ where
  method := List.map (typeOf p)
  heap := List.map (typeOf p)
  method_nil := rfl
  heap_heapContext := fun c => Context.map_last (typeOf p) hk c
  method_staticContext := fun _ _ => rfl
  method_instanceContext := fun _ _ oc o => map_extend p oc o

end Coarsening

/-- The contexts of a finer selector can be mapped to those of the coarser one. -/
theorem Finer.coarsening (p : Program) {fine coarse : Selector} (h : Finer fine coarse) :
    Nonempty (Coarsening p fine coarse) := by
  cases h with
  | longer hmethod hheap hpos hle => exact ⟨.cut p _ hmethod hheap hpos hle⟩
  | objects => exact ⟨.types p _ _⟩
  | any => exact ⟨.forget p _ _ _⟩

/-! ## Comparing two analyses -/

/-- The answers of one result are among those of another. -/
structure Result.Within (r rough : Result) : Prop where
  mayPointTo : ∀ v o, r.MayPointTo v o → rough.MayPointTo v o
  reachable : ∀ m ∈ r.callGraph.reachable, m ∈ rough.callGraph.reachable
  edges : ∀ site m, r.callGraph.HasEdge site m → rough.callGraph.HasEdge site m

/-- Without contexts, a fact and the coarser fact that it stands for are the same. -/
theorem Coarsening.within {p : Program} {fine coarse : Selector} {K : Set Obj} {r rough : Result}
    (h : Coarsening p fine coarse) (hr : r.core.Ok K) (hrough : rough.core.Ok K)
    (hfacts : ∀ f ∈ r.core.facts, h.fact f ∈ rough.core.facts) : r.Within rough := by
  refine ⟨?_, ?_, ?_⟩
  · intro v o hv
    obtain ⟨c, hc, hholds⟩ := (Result.mayPointTo_iff hr).mp hv
    exact (Result.mayPointTo_iff hrough).mpr ⟨_, _, hfacts _ hholds⟩
  · intro m hm
    obtain ⟨c, hreach⟩ := Result.reachable_iff.mp hm
    exact Result.reachable_iff.mpr ⟨_, hfacts _ hreach⟩
  · intro site m he
    obtain ⟨c, c', hedge⟩ := Result.hasEdge_iff.mp he
    exact Result.hasEdge_iff.mpr ⟨_, _, hfacts _ hedge⟩

/-- If the analysis with the coarser selector has a result, so has the one with the finer selector,
and all that it finds is found by the coarser one. -/
theorem analyze_finer {p : Program} (opts : Options) {fine coarse : Selector} {rough : Result}
    (hfiner : Finer fine coarse) (hlimit : opts.limit ≤ 0)
    (hrough : (analyze p { opts with selector := coarse }).start.1 = .ok rough) :
    ∃ r, (analyze p { opts with selector := fine }).start.1 = .ok r ∧ r.Within rough := by
  obtain ⟨h⟩ := hfiner.coarsening p
  obtain ⟨r, hr, hfacts⟩ := h.analyze hlimit hrough
  exact ⟨r, hr, h.within (analyze_core_ok hr) (analyze_core_ok hrough) hfacts⟩

/-- On the two nodes, contexts of two objects find no more than contexts of one. -/
theorem analyze_finer_twoNodes :
    ∃ rough r, (analyze TwoNodes.program { selector := ⟨.object, 1, 1⟩ }).start.1 = .ok rough ∧
      (analyze TwoNodes.program { selector := ⟨.object, 2, 1⟩ }).start.1 = .ok r ∧
        r.Within rough := by
  obtain ⟨rough, hrough⟩ := analyze_succeeds_of_resolvable { selector := ⟨.object, 1, 1⟩ }
    TwoNodes.resolvable (by decide) (by decide)
  have hfiner : Finer ⟨.object, 2, 1⟩ ⟨.object, 1, 1⟩ :=
    .longer (by decide) (by decide) (by decide) (by decide)
  obtain ⟨r, hr, hwithin⟩ := analyze_finer {} hfiner (by decide) hrough
  exact ⟨rough, r, hrough, hr, hwithin⟩

end WholeProgram.PointsTo
