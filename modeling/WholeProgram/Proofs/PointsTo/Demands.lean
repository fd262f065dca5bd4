import WholeProgram.Proofs.PointsTo.Growth
import WholeProgram.Proofs.Program.Places

/-!
# Requests and rules

The solver turns rules into requests. `Serves K rs F` says that the requests `rs` ask for the facts
of `F` and for nothing else, and that a core that grants them has `F`. It holds of

* the requests of a statement and what the statement does (`serves_stmtRequests`);
* the requests of the accesses through a variable and what those use (`serves_accessRequests`);
* the request for a receiver (`serves_receiverRequests`);
* the requests of a call edge and its links (`serves_linkRequests`).
-/

namespace WholeProgram.PointsTo

variable {p : Program} {opts : Options} {K : Set Obj} {F : Set Fact}

/-- `K` has the objects of all allocation sites, and its objects are told apart by their keys. -/
structure Genuine (p : Program) (K : Set Obj) : Prop where
  alloc {site : Site} {x : VarId} {t : Ty} : p.stmt? site = some (.new x t) → .ofAlloc site t ∈ K
  unique {o o' : Obj} : o ∈ K → o' ∈ K → o.key = o'.key → o = o'

/-- The requests ask for the facts of `F` and for nothing else, and a core that grants them has
`F`. -/
structure Serves (K : Set Obj) (rs : List Request) (F : Set Fact) : Prop where
  objs : ∀ r ∈ rs, ∀ x ∈ r.objs, x.2 ∈ K
  asks : ∀ r ∈ rs, r.asks K ⊆ F
  met : ∀ s : Core, s.Ok K → (∀ r ∈ rs, r.Granted s) → F ⊆ s.met

/-- Requests for flows serve the flows that they are for. -/
theorem serves_flows {rs : List Request} (hrs : ∀ r ∈ rs, ∃ a b, r = .flow a b ∧ .flow a b ∈ F)
    (hF : ∀ f ∈ F, ∃ a b, f = .flow a b ∧ .flow a b ∈ rs) : Serves K rs F where
  objs := by
    intro r hr
    obtain ⟨a, b, rfl, _⟩ := hrs r hr
    simp [Request.objs]
  asks := by
    intro r hr f hf
    obtain ⟨a, b, rfl, hab⟩ := hrs r hr
    rw [Set.mem_singleton_iff.mp hf]
    exact hab
  met := by
    intro s _ hgranted f hf
    obtain ⟨a, b, rfl, hab⟩ := hF f hf
    exact Or.inl (hgranted _ hab)

/-- A request for objects serves the facts that the variable points to them: their keys stand for no
other objects. -/
theorem serves_pointTo_all (hK : Genuine p K) (ctx : Context) (v : VarId) {os : List (Context × Obj)}
    (hos : ∀ x ∈ os, x.2 ∈ K) :
    Serves K [.pointTo ctx v os] {f | ∃ x ∈ os, f = .holds (.var ctx v) ⟨x.1, x.2⟩} where
  objs := by
    intro r hr
    rw [List.mem_singleton.mp hr]
    exact hos
  asks := by
    intro r hr f hf
    rw [List.mem_singleton.mp hr] at hf
    obtain ⟨x, hx, b, hb, hkey, rfl⟩ := hf
    obtain rfl := hK.unique hb (hos x hx) hkey
    exact ⟨x, hx, rfl⟩
  met := by
    rintro s hs hgranted f ⟨x, hx, rfl⟩
    obtain ⟨b, hb, hkey, hmet⟩ := hgranted _ (List.mem_singleton.mpr rfl) x hx
    obtain rfl := hK.unique (hs.objs b hb) (hos x hx) hkey
    exact hmet

/-- A request for one object serves the fact that the variable points to it. -/
theorem serves_pointTo (hK : Genuine p K) (ctx : Context) (v : VarId) {o : HeapObj}
    (ho : o.obj ∈ K) :
    Serves K [.pointTo ctx v [(o.ctx, o.obj)]] {.holds (.var ctx v) o} := by
  have hF : {f : Fact | ∃ x ∈ [(o.ctx, o.obj)], f = .holds (.var ctx v) ⟨x.1, x.2⟩} =
      {.holds (.var ctx v) o} := by
    ext f
    simp
  exact hF ▸ serves_pointTo_all hK ctx v (by simpa using ho)

/-- A request for a pointer serves no facts. -/
theorem serves_touch (ctx : Context) (v : VarId) : Serves K [.touch ctx v] ∅ where
  objs := by simp [Request.objs]
  asks := by simp [Request.asks]
  met := fun _ _ _ => Set.empty_subset _

theorem Serves.append {rs rs' : List Request} {F' : Set Fact} (h : Serves K rs F) (h' : Serves K rs' F') :
    Serves K (rs ++ rs') (F ∪ F') where
  objs := fun r hr => (List.mem_append.mp hr).elim (h.objs r) (h'.objs r)
  asks := by
    intro r hr
    rcases List.mem_append.mp hr with hr | hr
    · exact (h.asks r hr).trans Set.subset_union_left
    · exact (h'.asks r hr).trans Set.subset_union_right
  met := fun s hs hgranted => Set.union_subset
    (h.met s hs fun r hr => hgranted r (List.mem_append_left _ hr))
    (h'.met s hs fun r hr => hgranted r (List.mem_append_right _ hr))

/-- Requests for each element of a list serve the facts for each. -/
theorem Serves.flatMap {α : Type} {as : List α} {g : α → List Request} {G : α → Set Fact}
    (h : ∀ a ∈ as, Serves K (g a) (G a)) : Serves K (as.flatMap g) {f | ∃ a ∈ as, f ∈ G a} where
  objs := by
    intro r hr
    obtain ⟨a, ha, hr⟩ := List.mem_flatMap.mp hr
    exact (h a ha).objs r hr
  asks := by
    intro r hr f hf
    obtain ⟨a, ha, hr⟩ := List.mem_flatMap.mp hr
    exact ⟨a, ha, (h a ha).asks r hr hf⟩
  met := by
    rintro s hs hgranted f ⟨a, ha, hf⟩
    exact (h a ha).met s hs (fun r hr => hgranted r (List.mem_flatMap.mpr ⟨a, ha, hr⟩)) hf

/-- No requests serve nothing. -/
theorem serves_nil (hF : ∀ f, f ∉ F) : Serves K [] F :=
  ⟨by simp, by simp, fun _ _ _ f hf => absurd hf (hF f)⟩

/-! ## Statements -/

theorem Does.stmt? {m : CSMethod} {i : Nat} {f : Fact} (h : Does p opts m i f) :
    ∃ stmt, p.stmt? ⟨m.method, i⟩ = some stmt := by
  cases h with
  | new hs | copy hs | loadStatic hs | storeStatic hs | call hs | unresolved hs | undeclared hs =>
    exact ⟨_, hs⟩

/-- What a statement that is no call does: its form leaves one thing at most. -/
def stmtFact? (sel : Selector) (m : CSMethod) (i : Nat) : Stmt Nat → Option Fact
  | .new x t => some (.holds (.var m.ctx x) ⟨sel.heapContext m.ctx, .ofAlloc ⟨m.method, i⟩ t⟩)
  | .copy x y => some (.flow (.var m.ctx y) (.var m.ctx x))
  | .loadField x none f => some (.flow (.static f) (.var m.ctx x))
  | .storeField none f y => some (.flow (.var m.ctx y) (.static f))
  | _ => none

theorem stmtFact?_of_does {m : CSMethod} {i : Nat} {stmt : Stmt Nat} {f : Fact}
    (hs : p.stmt? ⟨m.method, i⟩ = some stmt) (hcall : stmt.call? = none) (h : Does p opts m i f) :
    stmtFact? opts.selector m i stmt = some f := by
  cases h with
  | new h | copy h | loadStatic h | storeStatic h =>
    obtain rfl := Option.some.inj (hs.symm.trans h)
    rfl
  | call h | unresolved h | undeclared h =>
    obtain rfl := Option.some.inj (hs.symm.trans h)
    cases hcall

/-- A statement that is no call asks for what it does. -/
theorem serves_stmtRequests (hK : Genuine p K) {m : CSMethod} {i : Nat} {stmt : Stmt Nat}
    (hs : p.stmt? ⟨m.method, i⟩ = some stmt) (hcall : stmt.call? = none) :
    Serves K (Machine.stmtRequests opts.selector m i stmt) {f | Does p opts m i f} := by
  have hform : ∀ f, Does p opts m i f → stmtFact? opts.selector m i stmt = some f :=
    fun f => stmtFact?_of_does hs hcall
  cases stmt with
  | new x t =>
    have hF : {f | Does p opts m i f} =
        {.holds (.var m.ctx x) ⟨opts.selector.heapContext m.ctx, .ofAlloc ⟨m.method, i⟩ t⟩} :=
      Set.Subset.antisymm (fun f hf => (Option.some.inj (hform f hf)).symm)
        (by rintro f rfl; exact .new hs)
    rw [hF]
    exact serves_pointTo hK m.ctx x (o := ⟨_, _⟩) (hK.alloc hs)
  | copy x y =>
    refine serves_flows ?_ fun f hf =>
      ⟨_, _, (Option.some.inj (hform f hf)).symm, by simp [Machine.stmtRequests]⟩
    intro r hr
    exact ⟨_, _, List.mem_singleton.mp hr, .copy hs⟩
  | loadField x b c =>
    cases b with
    | none =>
      refine serves_flows ?_ fun f hf =>
        ⟨_, _, (Option.some.inj (hform f hf)).symm, by simp [Machine.stmtRequests]⟩
      intro r hr
      exact ⟨_, _, List.mem_singleton.mp hr, .loadStatic hs⟩
    | some b => exact serves_nil fun f hf => by cases hform f hf
  | storeField b c y =>
    cases b with
    | none =>
      refine serves_flows ?_ fun f hf =>
        ⟨_, _, (Option.some.inj (hform f hf)).symm, by simp [Machine.stmtRequests]⟩
      intro r hr
      exact ⟨_, _, List.mem_singleton.mp hr, .storeStatic hs⟩
    | some b => exact serves_nil fun f hf => by cases hform f hf
  | invoke x call => cases hcall
  | nop | literal | binary | loadArray | storeArray | branch | jump | switch | ret | unknown =>
    exact serves_nil fun f hf => by cases hform f hf

/-! ## Calls -/

/-- Of what a statement can do, a call leaves edges and faults, and only without a receiver. -/
theorem Does.invoke_cases {m : CSMethod} {i : Nat} {x : Option VarId} {call : Call} {f : Fact}
    (hstmt : p.stmt? ⟨m.method, i⟩ = some (.invoke x call)) (h : Does p opts m i f) :
    call.base = none ∧
    ((∃ r k, p.resolve ⟨m.method, i⟩ call = .ok r ∧ k ∈ r.callees ∧
        f = .edge ⟨m.ctx, ⟨m.method, i⟩⟩ ⟨opts.selector.staticContext m.ctx ⟨m.method, i⟩, k⟩) ∨
      (∃ r e, p.resolve ⟨m.method, i⟩ call = .ok r ∧ r.error = some e ∧
        opts.ignoreUnresolved = false) ∨
      ∃ code, p.resolve ⟨m.method, i⟩ call = .error code) := by
  cases h with
  | new h | copy h | loadStatic h | storeStatic h => cases hstmt.symm.trans h
  | call h hbase hr hk =>
    cases hstmt.symm.trans h
    exact ⟨hbase, Or.inl ⟨_, _, hr, hk, rfl⟩⟩
  | unresolved h hbase hr he hignore =>
    cases hstmt.symm.trans h
    exact ⟨hbase, Or.inr (Or.inl ⟨_, _, hr, he, hignore⟩)⟩
  | undeclared h hbase hr =>
    cases hstmt.symm.trans h
    exact ⟨hbase, Or.inr (Or.inr ⟨_, hr⟩)⟩

/-- Of what a use of an object can give, a call leaves an edge, its receiver and a fault. -/
theorem Uses.invoke_cases {c : Context} {b : VarId} {o : HeapObj} {site : Site} {x : Option VarId}
    {call : Call} {f : Fact} (hstmt : p.stmt? site = some (.invoke x call))
    (h : Uses p opts c b o site f) :
    (∃ m, Machine.calleeOn p o.obj site call = .ok (some m) ∧
      (f = .edge ⟨c, site⟩ (Machine.calleeIn p opts.selector c site o m) ∨
        ∃ r, (p.method m).receiver = some r ∧
          f = .holds (.var (Machine.calleeIn p opts.selector c site o m).ctx r) o)) ∨
    ∃ e, Machine.calleeOn p o.obj site call = .error e ∧ opts.ignoreUnresolved = false := by
  cases h with
  | loadField h | storeField h | loadArray h | storeArray h => cases hstmt.symm.trans h
  | call h _ hm =>
    cases hstmt.symm.trans h
    exact Or.inl ⟨_, hm, Or.inl rfl⟩
  | receiver h _ hm hr =>
    cases hstmt.symm.trans h
    exact Or.inl ⟨_, hm, Or.inr ⟨_, hr, rfl⟩⟩
  | unresolved h _ he hignore =>
    cases hstmt.symm.trans h
    exact Or.inr ⟨_, he, hignore⟩

/-! ## Accesses -/

/-- What an access of a statement gives for an object, as a flow. -/
theorem accessFlow?_eq_some {c : Context} {o : HeapObj} {stmt : Stmt Nat} {r : Request}
    {v : VarId} {site : Site} (hs : p.stmt? site = some stmt) (hb : stmt.base? = some v)
    (hr : Machine.accessFlow? c o stmt = some r) :
    ∃ a b, r = .flow a b ∧ p.callAt? site = none ∧ Uses p opts c v o site (.flow a b) := by
  have hcall : p.callAt? site = stmt.call? := by simp [Program.callAt?, hs]
  unfold Machine.accessFlow? at hr
  split at hr
  · obtain rfl := Option.some.inj hb
    exact ⟨_, _, (Option.some.inj hr).symm, hcall, .storeField hs⟩
  · obtain rfl := Option.some.inj hb
    exact ⟨_, _, (Option.some.inj hr).symm, hcall, .loadField hs⟩
  · obtain rfl := Option.some.inj hb
    exact ⟨_, _, (Option.some.inj hr).symm, hcall, .storeArray hs⟩
  · obtain rfl := Option.some.inj hb
    exact ⟨_, _, (Option.some.inj hr).symm, hcall, .loadArray hs⟩
  · cases hr

/-- A request of the accesses through a variable is the flow of a statement through it. -/
theorem mem_accessRequests {c : Context} {v : VarId} {o : HeapObj} {r : Request} :
    r ∈ Machine.accessRequests p c v o ↔
    ∃ site stmt, p.stmt? site = some stmt ∧ stmt.base? = some v ∧
    Machine.accessFlow? c o stmt = some r := by
  simp only [Machine.accessRequests, List.mem_flatMap, List.mem_filterMap, List.mem_filter,
    beq_iff_eq]
  constructor
  · rintro ⟨form, _, stmt, ⟨⟨site, hsite, hs⟩, _⟩, hr⟩
    obtain ⟨stmt', hs', hb⟩ := Program.mem_sitesThrough.mp hsite
    obtain rfl := Option.some.inj (hs.symm.trans hs')
    exact ⟨site, stmt, hs, hb, hr⟩
  · rintro ⟨site, stmt, hs, hb, hr⟩
    -- a statement with a flow has one of the forms of accesses
    have hform : stmt.form ∈ Machine.accessForms := by
      unfold Machine.accessFlow? at hr
      split at hr
      · simp [Stmt.form, Machine.accessForms]
      · simp [Stmt.form, Machine.accessForms]
      · simp [Stmt.form, Machine.accessForms]
      · simp [Stmt.form, Machine.accessForms]
      · cases hr
    exact ⟨_, hform, stmt, ⟨⟨site, Program.mem_sitesThrough.mpr ⟨stmt, hs, hb⟩, hs⟩, rfl⟩, hr⟩

/-- The accesses through a variable ask for what they use. -/
theorem serves_accessRequests (opts : Options) (c : Context) (v : VarId) (o : HeapObj) :
    Serves K (Machine.accessRequests p c v o)
      {f | ∃ site, p.callAt? site = none ∧ Uses p opts c v o site f} := by
  refine serves_flows ?_ ?_
  · intro r hr
    obtain ⟨site, stmt, hs, hb, hflow⟩ := mem_accessRequests.mp hr
    obtain ⟨a, b, rfl, hcall, huses⟩ := accessFlow?_eq_some hs hb hflow
    exact ⟨a, b, rfl, site, hcall, huses⟩
  · rintro f ⟨site, hcall, huses⟩
    have hnone : ∀ x call, p.stmt? site ≠ some (.invoke x call) := by
      intro x call hs
      simp [Program.callAt?, hs, Stmt.call?] at hcall
    cases huses with
    | loadField hs => exact ⟨_, _, rfl, mem_accessRequests.mpr ⟨site, _, hs, rfl, rfl⟩⟩
    | storeField hs => exact ⟨_, _, rfl, mem_accessRequests.mpr ⟨site, _, hs, rfl, rfl⟩⟩
    | loadArray hs => exact ⟨_, _, rfl, mem_accessRequests.mpr ⟨site, _, hs, rfl, rfl⟩⟩
    | storeArray hs => exact ⟨_, _, rfl, mem_accessRequests.mpr ⟨site, _, hs, rfl, rfl⟩⟩
    | call hs | receiver hs | unresolved hs => exact absurd hs (hnone _ _)

/-! ## Calls -/

/-- The request for a receiver asks for the object that the method is called on. -/
theorem serves_receiverRequests (hK : Genuine p K) (m : CSMethod) {o : HeapObj} (ho : o.obj ∈ K) :
    Serves K (Machine.receiverRequests p m o)
      {f : Fact | ∃ r, (p.method m.method).receiver = some r ∧ f = .holds (.var m.ctx r) o} := by
  unfold Machine.receiverRequests
  split
  · rename_i r hr
    have hF : {f : Fact | ∃ r, (p.method m.method).receiver = some r ∧
      f = .holds (.var m.ctx r) o} =
        {.holds (.var m.ctx r) o} := by
      ext f
      constructor
      · rintro ⟨r', hr', rfl⟩
        obtain rfl := Option.some.inj (hr.symm.trans hr')
        rfl
      · rintro rfl
        exact ⟨r, hr, rfl⟩
    rw [hF]
    exact serves_pointTo hK m.ctx r ho
  · rename_i hr
    refine serves_nil ?_
    rintro f ⟨r, hr', _⟩
    rw [hr] at hr'
    cases hr'

/-- The requests of a call edge ask for its links. -/
theorem serves_linkRequests (e : CSEdge) :
    Serves K (Machine.linkRequests p e) {f | Links p e.site e.callee f} := by
  have hmem : ∀ {x : Option VarId} {call : Call} {r : Request},
    p.stmt? e.site.site = some (.invoke x call) →
      (r ∈ Machine.linkRequests p e ↔
        (∃ b ∈ call.args.zip (p.method e.callee.method).params.toList,
          r = .flow (.var e.site.ctx b.1) (.var e.callee.ctx b.2)) ∨
        ∃ y, x = some y ∧ ∃ v ∈ (p.method e.callee.method).returnVars,
          r = .flow (.var e.callee.ctx v) (.var e.site.ctx y)) := by
    intro x call r hs
    simp only [Machine.linkRequests, hs, List.mem_append, List.mem_map, List.mem_flatMap,
      Option.mem_toList, eq_comm]
  refine serves_flows ?_ ?_
  · intro r hr
    cases hs : p.stmt? e.site.site with
    | none => simp [Machine.linkRequests, hs] at hr
    | some stmt =>
      cases stmt with
      | invoke x call =>
        rcases (hmem hs).mp hr with ⟨b, hb, rfl⟩ | ⟨y, rfl, v, hv, rfl⟩
        · obtain ⟨k, hk⟩ := List.mem_iff_getElem?.mp hb
          rw [List.getElem?_zip_eq_some] at hk
          refine ⟨_, _, rfl, .arg hs hk.1 ?_⟩
          rw [← Array.getElem?_toList]
          exact hk.2
        · obtain ⟨i, hi⟩ := Method.mem_returnVars.mp hv
          exact ⟨_, _, rfl, .result hs hi⟩
      | nop | literal | copy | binary | new | loadField | storeField | loadArray | storeArray
      | branch | jump | switch | ret | unknown => simp [Machine.linkRequests, hs] at hr
  · intro f hf
    cases hf with
    | @arg _ _ k y v hs ha hv =>
      refine ⟨_, _, rfl, (hmem hs).mpr (Or.inl ⟨(y, v), ?_, rfl⟩)⟩
      refine List.mem_of_getElem? (i := k) ?_
      rw [List.getElem?_zip_eq_some]
      exact ⟨ha, by rw [Array.getElem?_toList]; exact hv⟩
    | result hs hi =>
      exact ⟨_, _, rfl, (hmem hs).mpr (Or.inr ⟨_, rfl, _, Method.mem_returnVars.mpr ⟨_, hi⟩, rfl⟩)⟩

end WholeProgram.PointsTo
