import WholeProgram.Proofs.CallGraph.Closure
import WholeProgram.Proofs.PointsTo.Exact
import WholeProgram.Proofs.PointsTo.Stepwise
import WholeProgram.Proofs.PointsTo.Outcome

/-!
# Call graphs by objects and by classes

The class hierarchy resolves a call by the class that it names, the pointer analysis by the objects that
its receiver points to. If these are objects of the concrete classes below the class that is named, then
the second call graph is part of the first (`callGraph_within_hierarchy`).

* `calleeOn_mem` — on such an object, a call that is resolved runs one of its callees;
* `hierarchyFacts` — the facts that agree with a call graph: about its methods, its edges, and variables
  of its methods;
* `yields_hierarchyFacts` — the rules do not lead out of them;
* `not_within_hierarchy_borrowed` — the first call graph leaves out a method that is never reached, but
  the second has its calls on variables of other methods.
-/

namespace WholeProgram.PointsTo

open ClassHierarchyAnalysis (HasCallees)

variable {p : Program} {opts : Options} {g : MethodCallGraph} {X : Set Fact} {f : Fact}

/-- Every call on a receiver is a special call, a virtual call or an interface call. -/
def DispatchedCalls (p : Program) : Prop :=
  ∀ ⦃site : Site⦄ ⦃x : Option VarId⦄ ⦃call : Call⦄ ⦃b : VarId⦄, p.stmt? site = some (.invoke x call) →
    call.base = some b → call.kind = .special ∨ call.kind = .virtual ∨ call.kind = .interface

/-- The class of the object, if it has one, is a concrete class below those that the virtual calls and
the interface calls on the variable name. -/
def FitsCalls (p : Program) (b : VarId) (o : Obj) : Prop :=
  ∀ ⦃site : Site⦄ ⦃x : Option VarId⦄ ⦃call : Call⦄ ⦃k : ClassId⦄,
    p.stmt? site = some (.invoke x call) → call.base = some b →
    call.kind = .virtual ∨ call.kind = .interface → o.ty = some (.ref k) →
    k ∈ p.allSubclasses call.ref.cls ∧ p.isAbstractClass k = false

/-! ## Calls -/

/-- A call that is resolved runs one of its callees on an object that fits, or nothing. -/
theorem calleeOn_mem {site : Site} {x : Option VarId} {call : Call} {b : VarId} {r : Program.Resolved}
    {o : Obj} (hkinds : DispatchedCalls p) (hstmt : p.stmt? site = some (.invoke x call))
    (hbase : call.base = some b) (hres : p.resolve site call = .ok r) (herr : r.error = none)
    (hfits : FitsCalls p b o) :
    Machine.calleeOn p o site call = .ok none ∨
      ∃ m ∈ r.callees, Machine.calleeOn p o site call = .ok (some m) := by
  unfold Machine.calleeOn
  rcases hkinds hstmt hbase with hkind | hkind
  · obtain ⟨m, hm, hdispatch⟩ := Program.dispatch_of_special hres herr hkind
    exact Or.inr ⟨m, hm, by simp [hkind, hdispatch]⟩
  · have hother : call.kind ≠ .special := by
      rcases hkind with hkind | hkind <;> simp [hkind]
    cases hty : o.ty with
    | none => exact Or.inl (by simp [hother])
    | some t =>
      cases t with
      | ref k =>
        obtain ⟨hk, hconcrete⟩ := hfits hstmt hbase hkind hty
        obtain ⟨m, hm, hdispatch⟩ := Program.dispatch_of_virtual hres herr hkind hk hconcrete
        exact Or.inr ⟨m, hm, by simp [hother, hdispatch]⟩
      | prim | array => exact Or.inl (by simp [hother])

/-- The call at a place in a reachable method is resolved, and its callees are in the graph. -/
theorem hasCallees_call (hcalls : HasCallees p g) {site : Site} {x : Option VarId} {call : Call}
    (hstmt : p.stmt? site = some (.invoke x call)) (hreach : site.method ∈ g.reachable) :
    ∃ r, p.resolve site call = .ok r ∧ r.error = none ∧
      ∀ k ∈ r.callees, g.HasEdge site k ∧ k ∈ g.reachable := by
  have hcall : p.callAt? site = some call := by simp [Program.callAt?, hstmt, Stmt.call?]
  exact hcalls.calls _ hreach site (Program.mem_sitesIn.mpr ⟨rfl, by simp [hcall]⟩) call hcall

/-! ## Facts that agree with a call graph -/

/-- What a fact says of methods and call edges holds of the graph, and it is no fault. -/
def graphFacts (g : MethodCallGraph) : Set Fact :=
  {f | match f with
    | .reach m => m.method ∈ g.reachable
    | .edge site m => g.HasEdge site.site m.method ∧ m.method ∈ g.reachable
    | .flow _ _ | .holds _ _ => True
    | .fault => False}

/-- Besides, objects arrive in methods of the graph, and call sites are in them. -/
def hierarchyFacts (p : Program) (g : MethodCallGraph) : Set Fact :=
  {f | f ∈ graphFacts g ∧ f.Live p (graphFacts g)}

/-- What a statement of a method of the graph does by itself agrees with the graph. -/
theorem does_graphFacts (hcalls : HasCallees p g) {m : CSMethod} {i : Nat} (hd : Does p opts m i f)
    (hm : m.method ∈ g.reachable) : f ∈ graphFacts g := by
  cases hd with
  | new | copy | loadStatic | storeStatic => exact trivial
  | call hs hb hr hk =>
    obtain ⟨r, hr', -, hall⟩ := hasCallees_call hcalls hs hm
    cases hr.symm.trans hr'
    exact hall _ hk
  | unresolved hs hb hr he =>
    obtain ⟨r, hr', hno, -⟩ := hasCallees_call hcalls hs hm
    cases hr.symm.trans hr'
    cases he.symm.trans hno
  | undeclared hs hb hr =>
    obtain ⟨r, hr', -⟩ := hasCallees_call hcalls hs hm
    cases hr.symm.trans hr'

/-- What a statement of a method of the graph gives for an object that fits agrees with the graph. -/
theorem uses_hierarchyFacts (hown : OwnVars p) (hcalls : HasCallees p g) (hkinds : DispatchedCalls p)
    {c : Context} {b : VarId} {o : HeapObj} {site : Site} (hu : Uses p opts c b o site f)
    (hfits : FitsCalls p b o.obj) (hsite : site.method ∈ g.reachable) : f ∈ hierarchyFacts p g := by
  have hlive : .reach ⟨c, site.method⟩ ∈ graphFacts g := hsite
  -- a call on the object runs a callee of the graph
  have hcallee : ∀ {x call m}, p.stmt? site = some (.invoke x call) → call.base = some b →
      Machine.calleeOn p o.obj site call = .ok (some m) → g.HasEdge site m ∧ m ∈ g.reachable := by
    intro x call m hs hb hm
    obtain ⟨r, hr, herr, hall⟩ := hasCallees_call hcalls hs hsite
    rcases calleeOn_mem hkinds hs hb hr herr hfits with hnone | ⟨k, hk, hsome⟩
    · cases hm.symm.trans hnone
    · cases hm.symm.trans hsome
      exact hall _ hk
  cases hu with
  | loadField hs => exact ⟨trivial, Pointer.live_var (hown.defined hs rfl) hlive⟩
  | storeField => exact ⟨trivial, trivial⟩
  | loadArray hs => exact ⟨trivial, Pointer.live_var (hown.defined hs rfl) hlive⟩
  | storeArray => exact ⟨trivial, trivial⟩
  | call hs hb hm => exact ⟨hcallee hs hb hm, hlive⟩
  | receiver hs hb hm hr =>
    exact ⟨trivial, Pointer.live_var (hown.receiver hr) (hcallee hs hb hm).2⟩
  | unresolved hs hb he =>
    obtain ⟨r, hr, herr, -⟩ := hasCallees_call hcalls hs hsite
    rcases calleeOn_mem hkinds hs hb hr herr hfits with hnone | ⟨k, -, hsome⟩
    · cases he.symm.trans hnone
    · cases he.symm.trans hsome

/-- As long as objects fit the calls on their variables, what the rules yield agrees with the graph. -/
theorem yields_hierarchyFacts (hown : OwnVars p) (hcalls : HasCallees p g) (hkinds : DispatchedCalls p)
    (hX : X ⊆ hierarchyFacts p g)
    (hfits : ∀ c b (o : HeapObj), .holds (.var c b) o ∈ X → FitsCalls p b o.obj)
    (hy : Yields p opts false X f) : f ∈ hierarchyFacts p g := by
  cases hy with
  | entry hm => exact ⟨hcalls.entries _ hm, trivial⟩
  | stmt hr hd => exact ⟨does_graphFacts hcalls hd (hX hr).1, hd.live hown (hX hr).1⟩
  | through hh hu _ =>
    -- the variable has objects, so its method is in the graph, and the statement is in that method
    obtain ⟨s, hs, hb⟩ := hu.base?
    exact uses_hierarchyFacts hown hcalls hkinds hu (hfits _ _ _ hh) ((hX hh).2 _ (hown.base hs hb))
  | callee he => exact ⟨(hX he).1.2, trivial⟩
  | link he hl =>
    refine ⟨?_, hl.live hown (hX he).2 (hX he).1.2⟩
    cases hl <;> exact trivial
  | flow hf hh => exact ⟨trivial, (hX hf).2⟩

/-! ## Shapes -/

/-- Without a plugin, objects are those that the program makes. -/
theorem mem_allocated_of_ok {s : Core} (hok : s.Ok (objects p {})) {q : Pointer} {o : HeapObj}
    (hh : .holds q o ∈ s.facts) : o.obj ∈ allocated p := by
  obtain ⟨i, -, hnames⟩ := hh
  rcases hok.objs _ hnames.obj_mem with ⟨site, x, t, hs, ho⟩ | ⟨_, _, t, ht, _⟩
  · rw [ho]
    exact mem_allocated hs
  · obtain ⟨_, hs, _⟩ | ⟨_, hs, _⟩ := ht <;> cases hs

/-- The objects of a run are those that the program makes. -/
theorem mem_allocated_of_holds {s : Machine Unit}
    (hsteps : Machine.Steps (alone p opts) (Machine.begin (alone p opts)) s) {q : Pointer} {o : HeapObj}
    (hh : .holds q o ∈ s.core.facts) : o.obj ∈ allocated p :=
  mem_allocated_of_ok (Machine.inv_alone hsteps).core hh

/-- Whether calls are resolved can be checked on the statements. -/
theorem resolvedCalls_of_statements (h : ∀ x ∈ p.statements, (x.2.call?.all fun call =>
    (p.resolve x.1 call).toOption.any (·.error.isNone)) = true) :
    ClassHierarchyAnalysis.ResolvedCalls p := by
  intro site call hcall
  obtain ⟨stmt, hstmt, hs⟩ := Option.bind_eq_some_iff.mp hcall
  have hsite := h _ (Program.mem_statements hstmt)
  simp only [hs, Option.all_some] at hsite
  cases hr : p.resolve site call with
  | error code =>
    rw [hr] at hsite
    cases hsite
  | ok r =>
    rw [hr] at hsite
    exact ⟨r, rfl, Option.isNone_iff_eq_none.mp hsite⟩

/-- Objects of one concrete class fit calls that name classes above it. -/
theorem fitsCalls_of_class {k : ClassId} (hobjs : ∀ o ∈ allocated p, o.ty = some (.ref k))
    (hcalls : ∀ x ∈ p.statements, (x.2.call?.all fun call =>
      call.kind == .special || (p.allSubclasses call.ref.cls).contains k) = true)
    (hconcrete : p.isAbstractClass k = false) {o : Obj} (ho : o ∈ allocated p) (b : VarId) :
    FitsCalls p b o := by
  intro site x call j hstmt _ hkind hty
  obtain rfl : k = j := by simpa [hobjs o ho] using hty
  have hfits := hcalls _ (Program.mem_statements hstmt)
  simp only [Stmt.call?, Option.all_some] at hfits
  refine ⟨?_, hconcrete⟩
  rcases hkind with hkind | hkind <;> simpa [hkind] using hfits

namespace Shapes

/-- `main` makes a square, prepares it, and asks it for its area as a shape. Circles are shapes too. -/
def program : Program where
  classes := #[
    { name := "Main", super := none, isAbstract := false, isInterface := false, methods := #[0] },
    { name := "Shape", super := none, isAbstract := true, isInterface := true, methods := #[1],
      subclasses := #[2, 3] },
    { name := "Square", super := none, isAbstract := false, isInterface := false, methods := #[2, 3],
      interfaces := #[1] },
    { name := "Circle", super := none, isAbstract := false, isInterface := false, methods := #[4],
      interfaces := #[1] }]
  fields := #[]
  vars := #[
    { name := "shape", ty := .ref 1, method := 0, index := 0 },
    { name := "this", ty := .ref 1, method := 1, index := 0 },
    { name := "this", ty := .ref 2, method := 2, index := 0 },
    { name := "this", ty := .ref 2, method := 3, index := 0 },
    { name := "this", ty := .ref 3, method := 4, index := 0 }]
  methods := #[
    { name := "main", cls := 0, isStatic := true, isAbstract := false, subsig := "main()",
      returns := none, receiver := none, params := #[], vars := #[0], pos := none,
      body := #[
        { stmt := .new 0 (.ref 2), pos := none },
        { stmt := .invoke none ⟨.special, ⟨2, "init", "init()"⟩, some 0, []⟩, pos := none },
        { stmt := .invoke none ⟨.interface, ⟨1, "area", "area()"⟩, some 0, []⟩, pos := none }] },
    { name := "area", cls := 1, isStatic := false, isAbstract := true, subsig := "area()",
      returns := none, receiver := some 1, params := #[], vars := #[1], pos := none, body := #[] },
    { name := "init", cls := 2, isStatic := false, isAbstract := false, subsig := "init()",
      returns := none, receiver := some 2, params := #[], vars := #[2], pos := none, body := #[] },
    { name := "area", cls := 2, isStatic := false, isAbstract := false, subsig := "area()",
      returns := none, receiver := some 3, params := #[], vars := #[3], pos := none, body := #[] },
    { name := "area", cls := 3, isStatic := false, isAbstract := false, subsig := "area()",
      returns := none, receiver := some 4, params := #[], vars := #[4], pos := none, body := #[] }]
  entries := [0]

theorem ownVars : OwnVars program := ownVars_of_statements (by decide) (by decide)

theorem resolvedCalls : ClassHierarchyAnalysis.ResolvedCalls program :=
  resolvedCalls_of_statements (by decide)

theorem dispatchedCalls : DispatchedCalls program := by
  have hall : ∀ x ∈ program.statements, (x.2.call?.all fun call =>
      call.kind = .special ∨ call.kind = .virtual ∨ call.kind = .interface) = true := by decide
  intro site x call b hstmt _
  simpa [Stmt.call?] using hall _ (Program.mem_statements hstmt)

/-- All objects are squares, and squares fit the calls on shapes. -/
theorem fitsCalls {o : Obj} (ho : o ∈ allocated program) (b : VarId) : FitsCalls program b o :=
  fitsCalls_of_class (k := 2) (by decide) (by decide) (by decide) ho b

/-- On the square that `main` makes, the call of `area` runs that of squares. -/
theorem runs_area {r : Result} (h : (analyze program opts).start.1 = .ok r) :
    r.callGraph.HasEdge ⟨0, 2⟩ 3 := by
  have hclosed := analyze_closed h
  have hmain := hclosed (.entry (m := 0) List.mem_cons_self)
  have hsquare := hclosed (.stmt (i := 0) hmain (.new rfl))
  exact Result.hasEdge_iff.mpr ⟨_, _, hclosed (.through hsquare (.call rfl rfl rfl) nofun)⟩

end Shapes

namespace Borrowed

theorem dispatchedCalls : DispatchedCalls program := by
  intro site x call b hs _
  exact Or.inr (Or.inl (call_eq hs).2.2)

/-- All objects are of the class that the call names. -/
theorem fitsCalls {o : Obj} (ho : o ∈ allocated program) (b : VarId) : FitsCalls program b o :=
  fitsCalls_of_class (k := 1) (by decide) (by decide) (by decide) ho b

theorem declaredKinds : ClassHierarchyAnalysis.DeclaredKinds program := by
  intro site call hcall code hkind
  obtain ⟨x, hs⟩ := Program.stmt?_of_callAt? hcall
  cases hkind.symm.trans (call_eq hs).2.2

/-- By classes, `main` reaches no other method. -/
theorem eq_main_of_reached {m : MethodId} (h : ClassHierarchyAnalysis.Reached program m) : m = main := by
  induction h with
  | entry hm => exact List.mem_singleton.mp hm
  | callee _ hsite _ _ ih =>
    obtain ⟨hmain, hcall⟩ := Program.mem_sitesIn.mp hsite
    obtain ⟨call, hcall⟩ := Option.isSome_iff_exists.mp hcall
    obtain ⟨x, hs⟩ := Program.stmt?_of_callAt? hcall
    exact absurd (ih.symm.trans (hmain.symm.trans (call_eq hs).1)) (by decide)

end Borrowed

/-- The call graph of the pointer analysis is part of that of the class hierarchy. Variables are local to
their methods, the class hierarchy resolves all calls that it meets, and in no state of the run does a
receiver point to an object whose class is not a concrete one below the class that the call names. Then
the analysis has a result, and the methods that it reaches and its call edges are in the call graph of
the class hierarchy. -/
theorem callGraph_within_hierarchy {cha : MethodCallGraph} (hown : OwnVars p)
    (hcha : (ClassHierarchyAnalysis.analyze p false).start.1 = .ok cha) (hlimit : opts.limit ≤ 0)
    (hkinds : DispatchedCalls p)
    (hfits : ∀ s, Machine.Steps (alone p opts) (Machine.begin (alone p opts)) s →
      ∀ c b (o : HeapObj), .holds (.var c b) o ∈ s.core.facts → FitsCalls p b o.obj) :
    ∃ r, (analyze p opts).start.1 = .ok r ∧
      (∀ m ∈ r.callGraph.reachable, m ∈ cha.reachable) ∧
      ∀ site m, r.callGraph.HasEdge site m → cha.HasEdge site m := by
  obtain ⟨hentries, hcalls⟩ := ClassHierarchyAnalysis.analyze_hasCallees hcha
  have hclosed : Machine.ClosedAlong p opts (hierarchyFacts p cha) := fun s hsteps hs f hy =>
    yields_hierarchyFacts hown hcalls hkinds hs (hfits s hsteps) hy
  obtain ⟨r, hr, hfacts⟩ := analyze_within hclosed And.left hentries hlimit
  refine ⟨r, hr, fun m hm => ?_, fun site m he => ?_⟩
  · obtain ⟨c, hreach⟩ := Result.reachable_iff.mp hm
    exact (hfacts hreach).1
  · obtain ⟨c, c', hedge⟩ := Result.hasEdge_iff.mp he
    exact (hfacts hedge).1.1

/-- The graph of the shapes by objects is part of that by classes, which has the area of the square. -/
theorem callGraph_within_hierarchy_shapes :
    ∃ cha r, (ClassHierarchyAnalysis.analyze Shapes.program false).start.1 = .ok cha ∧
      (analyze Shapes.program { selector := ⟨.object, 2, 1⟩ }).start.1 = .ok r ∧
      (∀ m ∈ r.callGraph.reachable, m ∈ cha.reachable) ∧
      (∀ site m, r.callGraph.HasEdge site m → cha.HasEdge site m) ∧
      r.callGraph.HasEdge ⟨0, 2⟩ 3 ∧ cha.HasEdge ⟨0, 2⟩ 3 := by
  obtain ⟨cha, hcha⟩ := ClassHierarchyAnalysis.analyze_succeeds Shapes.resolvedCalls (by decide)
  have hlimit : ({ selector := ⟨.object, 2, 1⟩ } : Options).limit ≤ 0 := by decide
  obtain ⟨r, hr, hreach, hedges⟩ := callGraph_within_hierarchy Shapes.ownVars hcha hlimit
    Shapes.dispatchedCalls fun s hsteps c b o hh => Shapes.fitsCalls (mem_allocated_of_holds hsteps hh) b
  have harea := Shapes.runs_area hr
  exact ⟨cha, r, hcha, hr, hreach, hedges, harea, hedges _ _ harea⟩

/-- The builder accepts a program for which the call graph by objects is no part of that by classes,
although every object fits the calls on its variables: a method that is never reached calls `foo` on a
variable of `main`. -/
theorem not_within_hierarchy_borrowed :
    Borrowed.builder.build = .ok Borrowed.program ∧ DispatchedCalls Borrowed.program ∧
    (∀ s, Machine.Steps (alone Borrowed.program {}) (Machine.begin (alone Borrowed.program {})) s →
      ∀ c b (o : HeapObj), .holds (.var c b) o ∈ s.core.facts → FitsCalls Borrowed.program b o.obj) ∧
    ∃ cha r, (ClassHierarchyAnalysis.analyze Borrowed.program false).start.1 = .ok cha ∧
      (analyze Borrowed.program {}).start.1 = .ok r ∧
      Borrowed.foo ∈ r.callGraph.reachable ∧ Borrowed.foo ∉ cha.reachable ∧
      r.callGraph.HasEdge ⟨Borrowed.other, 0⟩ Borrowed.foo ∧
      ¬ cha.HasEdge ⟨Borrowed.other, 0⟩ Borrowed.foo := by
  obtain ⟨cha, hcha⟩ := ClassHierarchyAnalysis.analyze_succeeds
    (resolvedCalls_of_statements (p := Borrowed.program) (by decide)) (by decide)
  obtain ⟨r, hr⟩ := analyze_succeeds_of_resolvable {} Borrowed.resolvable (by decide) (by decide)
  obtain ⟨hedge, hfoo⟩ := Borrowed.reach_foo hr
  obtain ⟨hreached, hcalls⟩ := ClassHierarchyAnalysis.reached_of_analyze Borrowed.declaredKinds hcha
  refine ⟨Borrowed.build_eq, Borrowed.dispatchedCalls,
    fun s hsteps c b o hh => Borrowed.fitsCalls (mem_allocated_of_holds hsteps hh) b, cha, r, hcha, hr,
    Result.reachable_iff.mpr ⟨_, hfoo⟩, fun hmem => ?_, Result.hasEdge_iff.mpr ⟨_, _, hedge⟩, ?_⟩
  · exact absurd (Borrowed.eq_main_of_reached (hreached _ hmem)) (by decide)
  · -- the callee of an edge is reached
    rintro ⟨e, he, -, hcallee⟩
    have hmain := Borrowed.eq_main_of_reached (hcalls e he).callee
    exact absurd (hcallee.symm.trans hmain) (by decide)

end WholeProgram.PointsTo
