import WholeProgram.PointsTo.Analysis
import WholeProgram.Proofs.Log
import WholeProgram.Proofs.PointsTo.Run

/-!
# The outcome of the analysis

What `analyzeWith` and `analyze` return, in terms of the run of the solver:

* `analyzeWith_outcome`, `analyze_outcome` — the outcome is that of the run;
* `run_done_spec` — a run that is done has facts that are closed under the rules and lie in every
  bound;
* `run_failed_spec` — a run fails at the limit or on a fault.

A result answers without contexts: `Result.pointsTo` gathers the objects of a variable over all its
contexts, `Result.callGraph` the methods and edges. Here these answers are read off the facts of the
core:

* `Result.mayPointTo_iff` — a variable may point to an object if it does so in some context;
* `Result.exists_common` — variables that may point to one object have a number in common;
* `Result.reachable_iff`, `Result.hasEdge_iff` — and so for methods and call edges.
-/

namespace WholeProgram.PointsTo

variable {K : Set Obj} {X : Set Fact} {π : Type} {J : π → Prop} {p : Program} {opts : Options}

/-- The result that a run leaves when it is done: the plugin hears of the end. -/
def resultOf (S : Machine.Setting π) (s : Machine π) : Result × π :=
  let s := s.notify S .finish
  ({ core := s.core, iterations := s.iterations }, s.plugin)

theorem analyzeWith_outcome (p : Program) (opts : Options) (plugin : Plugin π) :
    (analyzeWith p opts plugin).start.1 =
      if p.entries.isEmpty then .error .noEntryMethod
      else match Machine.run ⟨p, opts, plugin⟩ (Machine.begin ⟨p, opts, plugin⟩) with
        | none => .error .unfinished
        | some (_, .failed e) => .error e
        | some (s, .done) => .ok (resultOf ⟨p, opts, plugin⟩ s) := by
  unfold analyzeWith
  by_cases h : p.entries.isEmpty
  · simp only [h, if_true]
    rfl
  · simp only [h]
    rcases Machine.run ⟨p, opts, plugin⟩ (Machine.begin ⟨p, opts, plugin⟩) with _ | ⟨s, _ | e⟩
    · rfl
    · rfl
    · rfl

theorem analyze_outcome (p : Program) (opts : Options) :
    (analyze p opts).start.1 = (analyzeWith p opts Plugin.none).start.1.map (·.1) :=
  Logged.start_map _ _

/-- A result is that of a run that is done. -/
theorem analyzeWith_ok {plugin : Plugin π} {r : Result × π}
    (h : (analyzeWith p opts plugin).start.1 = .ok r) :
    ∃ s, Machine.run ⟨p, opts, plugin⟩ (Machine.begin ⟨p, opts, plugin⟩) = some (s, .done) ∧
      r = resultOf ⟨p, opts, plugin⟩ s := by
  rw [analyzeWith_outcome] at h
  split at h
  · cases h
  · split at h
    · cases h
    · cases h
    · rename_i s hrun
      cases h
      exact ⟨s, hrun, rfl⟩

/-- Without a plugin the result is the core of the run. -/
theorem analyze_ok {r : Result} (h : (analyze p opts).start.1 = .ok r) :
    ∃ s, Machine.run ⟨p, opts, Plugin.none⟩ (Machine.begin ⟨p, opts, Plugin.none⟩) =
        some (s, .done) ∧
      r.core = s.core := by
  rw [analyze_outcome] at h
  cases hwith : (analyzeWith p opts Plugin.none).start.1 with
  | error e =>
    rw [hwith] at h
    cases h
  | ok r' =>
    rw [hwith] at h
    obtain ⟨s, hrun, rfl⟩ := analyzeWith_ok hwith
    cases h
    exact ⟨s, hrun, rfl⟩

/-- Only a program with an entry method has a result. -/
theorem entries_ne_nil_of_ok {r : Result} (h : (analyze p opts).start.1 = .ok r) :
    p.entries ≠ [] := by
  intro hnil
  rw [analyze_outcome, analyzeWith_outcome, hnil] at h
  cases h

namespace Machine

variable {S : Setting π} {s : Machine π}

/-- A run that is done has facts that are closed under the rules, and that every bound has. -/
theorem run_done_spec (hX : Bounds S K X J) (h : (begin S).run S = some (s, .done)) :
    Inv S K X J s ∧ Closed S.program S.options false s.core.facts := by
  obtain ⟨t, hsteps, hend⟩ := run_eq_some_iff.mp h
  obtain ⟨hbegin, hcomplete⟩ := begin_spec hX
  obtain ⟨hinv, hstay⟩ := Steps.spec hX hbegin hsteps
  rcases step_spec hX hinv with ⟨t', ht', _⟩ | ⟨hdone, hagenda, hwaiting⟩ | ⟨t', e, hfail, _⟩
  · cases hend.symm.trans ht'
  · cases hend.symm.trans hdone
    refine ⟨hinv, fun f hf => ?_⟩
    -- nothing is promised and nothing is owed any more
    rcases hstay hcomplete f hf with (hheld | ⟨q, set, i, o, _, hq, _⟩) | ⟨task, htask, _⟩
    · exact hheld
    · rw [hwaiting] at hq
      cases hq
    · rw [hagenda] at htask
      cases htask
  · cases hend.symm.trans hfail

/-- A run fails at the limit, or on a fault that every bound has. -/
theorem run_failed_spec (hX : Bounds S K X J) {e : AnalysisError}
    (h : (begin S).run S = some (s, .failed e)) :
    (.fault ∈ X ∧ IsCallError e) ∨
    (0 < S.options.limit ∧ ∃ what, e = .iterationLimit S.options.limit what) := by
  obtain ⟨t, hsteps, hend⟩ := run_eq_some_iff.mp h
  obtain ⟨hinv, _⟩ := Steps.spec hX (begin_spec hX).1 hsteps
  rcases step_spec hX hinv with ⟨t', ht', _⟩ | ⟨hdone, _⟩ | ⟨t', e', hfail, _, hwhy⟩
  · cases hend.symm.trans ht'
  · cases hend.symm.trans hdone
  · cases hend.symm.trans hfail
    exact hwhy

end Machine

end WholeProgram.PointsTo

/-! # Results with the contexts dropped -/

namespace WholeProgram.PointsTo.Result

variable {K : Set Obj} {r : Result} {v : VarId} {o : Obj} {m : MethodId} {site : Site}

/-- The variable may point to the object, in whatever context. -/
def MayPointTo (r : Result) (v : VarId) (o : Obj) : Prop := ∃ i ∈ r.pointsTo v, r.core.obj i = o

/-- The numbers gathered for a variable are those of the objects that it points to in some
context. -/
theorem mem_pointsTo {i : ObjId} :
    i ∈ r.pointsTo v ↔ ∃ q ∈ r.contextsOf v, ∃ j ∈ r.core.pointsTo q, (r.core.csObj j).obj = i := by
  unfold pointsTo
  rw [foldl_collects (P := (i ∈ ·)) (Q := fun q => ∃ j ∈ r.core.pointsTo q,
    (r.core.csObj j).obj = i)]
  · simp
  · intro acc q
    rw [foldl_collects (P := (i ∈ ·)) (Q := fun j => (r.core.csObj j).obj = i)]
    · simp
    · intro acc j
      simp [or_comm, eq_comm]

/-- A pointer with objects is listed. -/
theorem mem_contextsOf {c : Context} {j : CSObjId} (hok : r.core.Ok K)
    (hj : j ∈ r.core.pointsTo (.var c v)) :
    .var c v ∈ r.contextsOf v := by
  have hsets : r.core.sets.contains (.var c v) = true := by
    by_contra hno
    have hnone : r.core.sets[Pointer.var c v]? = none :=
      Std.HashMap.getElem?_eq_none_of_contains_eq_false (by simpa using hno)
    simp [Core.pointsTo, hnone] at hj
  refine List.mem_filter.mpr ⟨Array.mem_toList_iff.mpr (hok.listed _ hsets), ?_⟩
  simp

/-- A variable may point to an object if it does so in some context. -/
theorem mayPointTo_iff (hok : r.core.Ok K) :
    r.MayPointTo v o ↔ ∃ c hc, .holds (.var c v) ⟨hc, o⟩ ∈ r.core.facts := by
  constructor
  · rintro ⟨i, hi, rfl⟩
    -- the pointers that are looked at are those of the variable
    obtain ⟨q, hq, j, hj, rfl⟩ := mem_pointsTo.mp hi
    obtain ⟨c, rfl⟩ : ∃ c, q = .var c v := by
      have hv := (List.mem_filter.mp hq).2
      split at hv
      · rename_i c w
        obtain rfl : w = v := by simpa using hv
        exact ⟨c, rfl⟩
      · cases hv
    obtain ⟨b, hb⟩ := hok.held hj
    refine ⟨c, b.ctx, j, hj, ?_⟩
    have hobj : r.core.obj (r.core.csObj j).obj = b.obj := congrArg HeapObj.obj hb.heapObj_eq
    rw [hobj]
    exact hb
  · rintro ⟨c, hc, j, hj, ho⟩
    refine ⟨(r.core.csObj j).obj, mem_pointsTo.mpr ⟨_, mem_contextsOf hok hj, j, hj, rfl⟩, ?_⟩
    exact congrArg HeapObj.obj ho.heapObj_eq

/-- The numbers of the objects of a variable are places in the table of objects. -/
theorem getElem?_of_mem_pointsTo (hok : r.core.Ok K) {i : ObjId} (hi : i ∈ r.pointsTo v) :
    r.core.objs[i]? = some (r.core.obj i) := by
  obtain ⟨q, _, j, hj, rfl⟩ := mem_pointsTo.mp hi
  obtain ⟨b, n, hcs, hobj⟩ := hok.held hj
  have hrow : r.core.csObj j = ⟨b.ctx, n⟩ := by
    simp [Core.csObj, Array.getD_eq_getD_getElem?, hcs]
  rw [hrow, hobj]
  simp [Core.obj, Array.getD_eq_getD_getElem?, hobj]

/-- Variables that may point to one object have a number in common: no object has two. -/
theorem exists_common (hok : r.core.Ok K) {w : VarId} (hv : r.MayPointTo v o) (hw : r.MayPointTo w o) :
    ∃ i, i ∈ r.pointsTo v ∧ i ∈ r.pointsTo w := by
  obtain ⟨i, hi, rfl⟩ := hv
  obtain ⟨j, hj, ho⟩ := hw
  have hati := (hok.tables.objIndex _ i).mpr ⟨_, getElem?_of_mem_pointsTo hok hi, rfl⟩
  have hatj := (hok.tables.objIndex _ j).mpr ⟨_, getElem?_of_mem_pointsTo hok hj, rfl⟩
  rw [ho, hati] at hatj
  obtain rfl := Option.some.inj hatj
  exact ⟨i, hi, hj⟩

/-- The call graph without contexts has the methods and the edges of the one with contexts. -/
theorem callGraph_spec (r : Result) :
    (∀ m, m ∈ r.callGraph.reachable ↔ ∃ a ∈ r.core.graph.reachable, a.method = m) ∧
    ∀ site m, r.callGraph.HasEdge site m ↔ ∃ e ∈ r.core.graph.edges, e.site.site = site ∧
    e.callee.method = m := by
  have h₀ : ({} : MethodCallGraph).Consistent := CallGraph.consistent_empty
  obtain ⟨h₁, hreach₁, hedges₁⟩ := h₀.addEntries r.core.graph.entries.toList (·.method)
  obtain ⟨h₂, hreach₂, hedges₂⟩ := h₁.addReachables r.core.graph.reachable.toList (·.method)
  obtain ⟨hedges₃, hreach₃⟩ :=
    h₂.addEdges r.core.graph.edges.toList (·.kind) (·.site.site) (·.callee.method)
  unfold callGraph
  simp only [← Array.foldl_toList]
  constructor
  · intro m
    rw [hreach₃, hreach₂, hreach₁]
    simp
  · intro site m
    rw [hedges₃]
    constructor
    · rintro (⟨e, he, _⟩ | ⟨e, he, h⟩)
      · rw [hedges₂, hedges₁] at he
        simp at he
      · exact ⟨e, Array.mem_toList_iff.mp he, h⟩
    · rintro ⟨e, he, h⟩
      exact Or.inr ⟨e, Array.mem_toList_iff.mpr he, h⟩

/-- A method is reachable if it is so in some context. -/
theorem reachable_iff : m ∈ r.callGraph.reachable ↔ ∃ c, .reach ⟨c, m⟩ ∈ r.core.facts := by
  rw [(callGraph_spec r).1]
  constructor
  · rintro ⟨a, ha, rfl⟩
    exact ⟨a.ctx, ha⟩
  · rintro ⟨c, hc⟩
    exact ⟨_, hc, rfl⟩

/-- A call site may run a method if it does so in some context. -/
theorem hasEdge_iff :
    r.callGraph.HasEdge site m ↔ ∃ c c', .edge ⟨c, site⟩ ⟨c', m⟩ ∈ r.core.facts := by
  rw [(callGraph_spec r).2]
  constructor
  · rintro ⟨e, he, rfl, rfl⟩
    exact ⟨e.site.ctx, e.callee.ctx, e, he, rfl, rfl⟩
  · rintro ⟨c, c', e, he, hsite, hcallee⟩
    exact ⟨e, he, by rw [hsite], by rw [hcallee]⟩

end WholeProgram.PointsTo.Result
