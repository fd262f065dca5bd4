import WholeProgram.Proofs.PointsTo.ClassHierarchy

/-!
# Special calls follow objects

A special call runs one method, whatever its receiver is: the class hierarchy finds it from the class that
the call names. The pointer analysis finds the same method, but it looks at a call on a receiver only when
an object arrives there.

* `edge_on_receiver` — a call on a receiver has an edge only for an object of the receiver;
* `special_callees` — where the receiver points to an object, the callees are those of the class
  hierarchy, and where it points to none, there are none.

A receiver of a primitive type points to no object, so that a special call on it is not followed
(`Celsius`).
-/

namespace WholeProgram.PointsTo

variable {p : Program} {opts : Options} {r : Result} {site : Site} {x : Option VarId} {call : Call}
  {b : VarId}

/-- The edge of a call on a receiver comes from an object that the receiver points to in the context of
the call site. -/
theorem edge_on_receiver (h : (analyze p opts).start.1 = .ok r) {s : CSSite} {m : CSMethod}
    (hedge : .edge s m ∈ r.core.facts) (hstmt : p.stmt? s.site = some (.invoke x call))
    (hbase : call.base = some b) :
    ∃ o, .holds (.var s.ctx b) o ∈ r.core.facts ∧
      Machine.calleeOn p o.obj s.site call = .ok (some m.method) := by
  -- the edges that have such an object are closed under the rules, and the facts are the least such
  let X : Set Fact := {f | f ∈ r.core.facts ∧ ∀ s m x call b, f = .edge s m →
    p.stmt? s.site = some (.invoke x call) → call.base = some b →
    ∃ o, .holds (.var s.ctx b) o ∈ r.core.facts ∧
      Machine.calleeOn p o.obj s.site call = .ok (some m.method)}
  have hX : Closed p opts false X := by
    intro f hf
    refine ⟨analyze_closed h (hf.mono fun _ hg => hg.1), ?_⟩
    rintro s m x call b rfl hs hb
    cases hf with
    | stmt hr hd =>
      cases hd with
      | call hs' hb' _ _ =>
        cases hs.symm.trans hs'
        cases hb.symm.trans hb'
    | through hh hu _ =>
      cases hu with
      | call hs' hb' hm =>
        cases hs.symm.trans hs'
        cases hb.symm.trans hb'
        exact ⟨_, hh.1, hm⟩
    | link _ hl => cases hl
  exact (analyze_facts_subset h hX hedge).2 s m x call b rfl hstmt hbase

/-- An object of a result was allocated by the program. -/
theorem isMock_eq_false (h : (analyze p opts).start.1 = .ok r) {q : Pointer} {o : HeapObj}
    (hh : .holds q o ∈ r.core.facts) : o.obj.isMock = false := by
  have hmem := mem_allocated_of_ok (analyze_core_ok h) hh
  obtain ⟨y, -, hy⟩ := List.mem_filterMap.mp hmem
  split at hy
  · rw [← Option.some.inj hy]
    rfl
  · cases hy

/-- The call graph of a result was built by adding entries, methods and edges. -/
theorem Result.built_callGraph (r : Result) : CallGraph.Built r.callGraph := by
  unfold Result.callGraph
  simp only [← Array.foldl_toList]
  exact .foldl (fun _ e hg => hg.edge e.kind e.site.site e.callee.method) _
    (.foldl (fun _ m hg => hg.reach m.method) _ (.foldl (fun _ m hg => hg.entry m.method) _ .empty))

/-- A call site with one callee in the call graph has it alone in its list. -/
theorem Result.calleesOf_eq_singleton {m : MethodId}
    (hedge : ∀ k, r.callGraph.HasEdge site k ↔ k = m) : r.callGraph.calleesOf site = [m] := by
  have hbuilt := r.built_callGraph
  have hperm : (r.callGraph.calleesOf site).Perm [m] := by
    refine (List.perm_ext_iff_of_nodup (hbuilt.nodup_calleesOf site) (List.nodup_singleton m)).mpr ?_
    intro k
    rw [CallGraph.mem_calleesOf hbuilt.consistent, hedge, List.mem_singleton]
  exact List.perm_singleton.mp hperm

/-- A call on a receiver that points to nothing has no callees. -/
theorem Result.calleesOf_eq_nil (h : (analyze p opts).start.1 = .ok r)
    (hstmt : p.stmt? site = some (.invoke x call)) (hbase : call.base = some b)
    (hnone : ¬ ∃ o, r.MayPointTo b o) : r.callGraph.calleesOf site = [] := by
  refine List.eq_nil_iff_forall_not_mem.mpr fun k hk => hnone ?_
  rw [CallGraph.mem_calleesOf r.built_callGraph.consistent, hasEdge_iff] at hk
  obtain ⟨c, c', hedge⟩ := hk
  obtain ⟨o, ho, -⟩ := edge_on_receiver h hedge hstmt hbase
  exact ⟨o.obj, (mayPointTo_iff (analyze_core_ok h)).mpr ⟨c, o.ctx, ho⟩⟩

/-- A special call whose receiver points to some object is resolved by the class hierarchy, and its callees
are those that this finds; they are reachable. A special call whose receiver points to nothing has no
callees. -/
theorem special_callees (h : (analyze p opts).start.1 = .ok r) (hstrict : opts.ignoreUnresolved = false)
    (hstmt : p.stmt? site = some (.invoke x call)) (hkind : call.kind = .special)
    (hbase : call.base = some b) :
    ((∃ o, r.MayPointTo b o) → ∃ res, p.resolve site call = .ok res ∧ res.error = none ∧
      r.callGraph.calleesOf site = res.callees ∧ ∀ m ∈ res.callees, m ∈ r.callGraph.reachable) ∧
    ((¬ ∃ o, r.MayPointTo b o) → r.callGraph.calleesOf site = []) := by
  refine ⟨?_, Result.calleesOf_eq_nil h hstmt hbase⟩
  rintro ⟨o, ho⟩
  obtain ⟨c, hc, hholds⟩ := (Result.mayPointTo_iff (analyze_core_ok h)).mp ho
  have hclosed := analyze_closed h
  -- an unresolved call on the object would be a fault, and the result has none
  obtain ⟨m, hm⟩ : ∃ m, p.dispatch call.ref.cls call.ref.subsig = some m := by
    by_contra hno
    have hnone := Option.eq_none_iff_forall_ne_some.mpr fun m hm => hno ⟨m, hm⟩
    have hmock : o.isMock = false := isMock_eq_false h hholds
    have herror : Machine.calleeOn p o site call = .error ⟨call.kind, call.ref.cls, call.ref.subsig, site⟩ := by
      simp [Machine.calleeOn, hkind, hnone, hmock]
    exact hclosed (.through hholds (.unresolved hstmt hbase herror hstrict) nofun)
  have hcallee : ∀ o, Machine.calleeOn p o site call = .ok (some m) := fun o => by
    simp [Machine.calleeOn, hkind, hm]
  have hedge : ∀ k, r.callGraph.HasEdge site k ↔ k = m := by
    intro k
    rw [Result.hasEdge_iff]
    constructor
    · rintro ⟨c, c', hk⟩
      obtain ⟨o, -, hrun⟩ := edge_on_receiver h hk hstmt hbase
      cases (hcallee o.obj).symm.trans hrun
      rfl
    · rintro rfl
      exact ⟨c, _, hclosed (.through hholds (.call hstmt hbase (hcallee o)) nofun)⟩
  refine ⟨⟨[m], none⟩, by simp [Program.resolve, hkind, hm], rfl, Result.calleesOf_eq_singleton hedge, ?_⟩
  rintro k hk
  obtain ⟨c, c', hk⟩ := Result.hasEdge_iff.mp ((hedge k).mpr (List.mem_singleton.mp hk))
  exact Result.reachable_iff.mpr ⟨c', hclosed (.callee hk)⟩

/-- On the square that `main` makes, the special call of `init` runs the method of squares. -/
theorem special_callees_shapes :
    ∃ r res, (analyze Shapes.program { selector := ⟨.object, 2, 1⟩ }).start.1 = .ok r ∧
      (∃ o, r.MayPointTo 0 o) ∧
      Shapes.program.resolve ⟨0, 1⟩ ⟨.special, ⟨2, "init", "init()"⟩, some 0, []⟩ = .ok res ∧
      r.callGraph.calleesOf ⟨0, 1⟩ = res.callees ∧ ∀ m ∈ res.callees, m ∈ r.callGraph.reachable := by
  obtain ⟨r, hr⟩ := analyze_succeeds_of_resolvable (p := Shapes.program)
    { selector := ⟨.object, 2, 1⟩ } (by decide) (by decide) (by decide)
  have hclosed := analyze_closed hr
  have hsquare := hclosed (.stmt (i := 0) (hclosed (.entry (m := 0) List.mem_cons_self)) (.new rfl))
  have hpoints : ∃ o, r.MayPointTo 0 o :=
    ⟨_, (Result.mayPointTo_iff (analyze_core_ok hr)).mpr ⟨_, _, hsquare⟩⟩
  have hcall : Shapes.program.stmt? ⟨0, 1⟩ =
      some (.invoke none ⟨.special, ⟨2, "init", "init()"⟩, some 0, []⟩) := rfl
  obtain ⟨res, hres, -, hcallees⟩ := (special_callees hr rfl hcall rfl rfl).1 hpoints
  exact ⟨r, res, hr, hpoints, hres, hcallees⟩

namespace Celsius

/-- A temperature is a number with a method; `main` asks one for its report. -/
def program : Program where
  classes := #[
    { name := "Main", super := none, isAbstract := false, isInterface := false, methods := #[0] },
    { name := "Celsius", super := none, isAbstract := false, isInterface := false, methods := #[1] }]
  fields := #[]
  vars := #[
    { name := "x", ty := .prim .long, method := 0, index := 0 },
    { name := "this", ty := .ref 1, method := 1, index := 0 }]
  methods := #[
    { name := "main", cls := 0, isStatic := true, isAbstract := false, subsig := "main()",
      returns := none, receiver := none, params := #[], vars := #[0], pos := none,
      body := #[
        { stmt := .literal 0 20, pos := none },
        { stmt := .invoke none ⟨.special, ⟨1, "report", "report()"⟩, some 0, []⟩, pos := none },
        { stmt := .ret none, pos := none }] },
    { name := "report", cls := 1, isStatic := false, isAbstract := false, subsig := "report()",
      returns := none, receiver := some 1, params := #[], vars := #[1], pos := none,
      body := #[{ stmt := .ret none, pos := none }] }]
  entries := [0]

/-- The analysis finds that `main` is reachable, and no more. -/
theorem facts_subset (h : (analyze program opts).start.1 = .ok r) :
    r.core.facts ⊆ {f | match f with
      | .reach m => m.method = 0
      | .flow _ _ => True
      | .edge _ _ | .holds _ _ | .fault => False} := by
  have hbases : ∀ y ∈ program.statements, (y.2.call?.all (·.base.isSome)) = true := by decide
  have hbase : ∀ {site x call}, program.stmt? site = some (.invoke x call) → call.base ≠ none :=
    fun hs hnone => by simpa [Stmt.call?, hnone] using hbases _ (Program.mem_statements hs)
  refine analyze_facts_subset h fun f hf => ?_
  cases hf with
  | entry hm => exact List.mem_singleton.mp hm
  | stmt _ hd =>
    cases hd with
    | new hs =>
      have hnothing : allocated program = [] := by decide
      exact absurd (hnothing ▸ mem_allocated hs) List.not_mem_nil
    | copy | loadStatic | storeStatic => exact trivial
    | call hs hb | unresolved hs hb | undeclared hs hb => exact hbase hs hb
  | through hh => exact hh.elim
  | callee he => exact he.elim
  | link he => exact he.elim
  | flow _ hh => exact hh.elim

end Celsius

/-- The class hierarchy resolves a special call on a number, and the pointer analysis does not follow it:
the method that it runs is not reachable. -/
theorem special_call_missed :
    ∃ r call res, (analyze Celsius.program {}).start.1 = .ok r ∧ 0 ∈ r.callGraph.reachable ∧
      Celsius.program.stmt? ⟨0, 1⟩ = some (.invoke none call) ∧ call.kind = .special ∧
      call.base = some 0 ∧ Celsius.program.varTy 0 = .prim .long ∧
      Celsius.program.resolve ⟨0, 1⟩ call = .ok res ∧ res.callees = [1] ∧
      r.callGraph.calleesOf ⟨0, 1⟩ = [] ∧ 1 ∉ r.callGraph.reachable := by
  obtain ⟨r, hr⟩ := analyze_succeeds_of_resolvable (p := Celsius.program) {} (by decide) (by decide)
    (by decide)
  have hmain := Result.reachable_iff.mpr ⟨[], analyze_closed hr (.entry (m := 0) List.mem_cons_self)⟩
  have hnothing : ¬ ∃ o, r.MayPointTo 0 o := by
    rintro ⟨o, ho⟩
    obtain ⟨c, hc, hh⟩ := (Result.mayPointTo_iff (analyze_core_ok hr)).mp ho
    exact Celsius.facts_subset hr hh
  have hcallees : r.callGraph.calleesOf ⟨0, 1⟩ = [] := Result.calleesOf_eq_nil hr rfl rfl hnothing
  refine ⟨r, _, _, hr, hmain, rfl, rfl, rfl, rfl, rfl, rfl, hcallees, fun hreach => ?_⟩
  obtain ⟨c, hc⟩ := Result.reachable_iff.mp hreach
  have hzero : (1 : MethodId) = 0 := Celsius.facts_subset hr hc
  cases hzero

end WholeProgram.PointsTo
