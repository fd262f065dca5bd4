import WholeProgram.Proofs.PointsTo.Outcome
import WholeProgram.Proofs.PointsTo.Parts

/-!
# The entries of the call graph of a result

The solver lists the entry methods before its first step. Requests leave the call graph as it is
(`Core.Kept`), and a task only adds methods and edges to it, so that the entries are the same after every
step, and the call graph of a result has the entry methods of the program (`Result.mem_entries`).
-/

namespace WholeProgram.PointsTo

/-! ## Requests -/

namespace Core

/-- What requests leave as it is. -/
structure Kept (s t : Core) : Prop where
  graph : t.graph = s.graph
  methods : t.methods = s.methods
  pointsTo : ∀ q, t.pointsTo q = s.pointsTo q

variable {s t u : Core}

theorem Kept.refl (s : Core) : s.Kept s := ⟨rfl, rfl, fun _ => rfl⟩

theorem Kept.trans (hst : s.Kept t) (htu : t.Kept u) : s.Kept u :=
  ⟨htu.graph.trans hst.graph, htu.methods.trans hst.methods,
    fun q => (htu.pointsTo q).trans (hst.pointsTo q)⟩

theorem kept_touch (s : Core) (q : Pointer) : s.Kept (s.touch q) := by
  refine ⟨touch_graph s q, ?_, fun a => touch_pointsTo s q a⟩
  unfold touch
  split <;> rfl

theorem kept_internHeapObj (s : Core) (o : HeapObj) : s.Kept (s.internHeapObj o).1 := by
  have hobj : s.Kept (s.internObj o.obj).1 := by
    unfold internObj
    split
    · exact .refl s
    · exact ⟨rfl, rfl, fun _ => rfl⟩
  refine hobj.trans ?_
  show (s.internObj o.obj).1.Kept ((s.internObj o.obj).1.internCSObj _).1
  unfold internCSObj
  split
  · exact .refl _
  · exact ⟨rfl, rfl, fun _ => rfl⟩

theorem kept_internAll (s : Core) (objs : List (Context × Obj)) : s.Kept (s.internAll objs).1 :=
  List.foldlRecOn objs _ (motive := fun acc : Core × IdSet => s.Kept acc.1) (.refl s) fun acc hacc o _ =>
    hacc.trans (kept_internHeapObj acc.1 ⟨o.1, o.2⟩)

theorem kept_addObjects (s : Core) (q : Pointer) (objs : List (Context × Obj)) :
    s.Kept (s.addObjects q objs) :=
  (kept_internAll s objs).trans ((kept_touch _ _).trans ⟨rfl, rfl, fun _ => rfl⟩)

theorem kept_listFlowPointer (s : Core) (q : Pointer) : s.Kept (s.listFlowPointer q) := by
  unfold listFlowPointer
  split
  · exact .refl s
  · exact ⟨rfl, rfl, fun _ => rfl⟩

theorem kept_addFlow (s : Core) (a b : Pointer) : s.Kept (s.addFlow a b) := by
  have htouch : s.Kept ((s.touch a).touch b) := (kept_touch s a).trans (kept_touch _ b)
  unfold addFlow
  dsimp only
  split
  · exact htouch
  · have hlist : ∀ t : Core, t.Kept ((t.listFlowPointer a).listFlowPointer b) := fun t =>
      (kept_listFlowPointer t a).trans (kept_listFlowPointer _ b)
    have hpush : ∀ (t : Core) (set : IdSet), t.Kept (t.addPointsTo b set) := fun _ _ =>
      ⟨rfl, rfl, fun _ => rfl⟩
    split
    · refine htouch.trans (Kept.trans ?_ (hlist _))
      exact ⟨rfl, rfl, fun _ => rfl⟩
    · refine htouch.trans (Kept.trans (Kept.trans ?_ (hlist _)) (hpush _ _))
      exact ⟨rfl, rfl, fun _ => rfl⟩

theorem kept_carryOut (s : Core) (r : Request) : s.Kept (s.carryOut r) := by
  cases r with
  | touch ctx v => exact kept_touch s _
  | pointTo ctx v objs => exact kept_addObjects s _ objs
  | add q objs => exact kept_addObjects s q objs
  | flow a b => exact kept_addFlow s a b

/-- Requests leave the call graph and the methods as they are, and the points-to sets to the worklist. -/
theorem kept_carryOutAll (s : Core) (rs : List Request) : s.Kept (s.carryOutAll rs) :=
  List.foldlRecOn rs _ (motive := fun t : Core => s.Kept t) (.refl s) fun t ht r _ =>
    ht.trans (kept_carryOut t r)

@[simp]
theorem carryOutAll_graph (s : Core) (rs : List Request) : (s.carryOutAll rs).graph = s.graph :=
  (kept_carryOutAll s rs).graph

@[simp]
theorem carryOutAll_methods (s : Core) (rs : List Request) : (s.carryOutAll rs).methods = s.methods :=
  (kept_carryOutAll s rs).methods

@[simp]
theorem carryOutAll_pointsTo (s : Core) (rs : List Request) (q : Pointer) :
    (s.carryOutAll rs).pointsTo q = s.pointsTo q :=
  (kept_carryOutAll s rs).pointsTo q

/-- The worklist adds objects to points-to sets only. -/
theorem propagate_same (s : Core) (q : Pointer) (objs : IdSet) :
    (s.propagate q objs).1.graph = s.graph ∧ (s.propagate q objs).1.methods = s.methods := by
  unfold propagate
  dsimp only
  split
  · exact ⟨rfl, rfl⟩
  · rw [← Array.foldl_toList]
    refine List.foldlRecOn _ _ (motive := fun t : Core => t.graph = s.graph ∧ t.methods = s.methods) ?_
      fun t ht _ _ => ht
    exact ⟨touch_graph s q, (kept_touch s q).methods⟩

@[simp]
theorem propagate_graph (s : Core) (q : Pointer) (objs : IdSet) :
    (s.propagate q objs).1.graph = s.graph :=
  (propagate_same s q objs).1

@[simp]
theorem propagate_methods (s : Core) (q : Pointer) (objs : IdSet) :
    (s.propagate q objs).1.methods = s.methods :=
  (propagate_same s q objs).2

end Core

/-! ## Steps -/

namespace Machine

variable {π : Type} {S : Setting π}

@[simp]
theorem notify_graph (e : Event) (s : Machine π) : (s.notify S e).core.graph = s.core.graph :=
  Core.carryOutAll_graph _ _

@[simp]
theorem request_graph (rs : List Request) (s : Machine π) : (s.request rs).core.graph = s.core.graph :=
  Core.carryOutAll_graph _ _

/-- The entries of the call graph. -/
def entries (s : Machine π) : Array CSMethod := s.core.graph.entries

/-- No part of a step changes the entries. -/
theorem Part.entries {s t : Machine π} (h : Part S s t) : t.entries = s.entries := by
  cases h with
  | push | note | method => rfl
  | request rs => exact congrArg CallGraph.entries (request_graph rs s)
  | notify e => exact congrArg CallGraph.entries (notify_graph e s)
  | reachable m => exact CallGraph.addReachable_entries m
  | edge kind site m => exact CallGraph.addEdge_entries kind site m
  | grow q objs => exact congrArg CallGraph.entries (Core.propagate_graph s.core q objs)

/-- No step changes the entries. -/
theorem step_entries (s : Machine π) : (s.step S).1.entries = s.entries := by
  rcases step_eq S s with ⟨task, rest, -, heq⟩ | ⟨-, -, heq⟩ | ⟨q, objs, w, -, -, heq⟩
  · have hperform := (parts_perform (S := S) { s with agenda := rest } task).keeps Part.entries
    rw [heq]
    exact hperform
  · rw [heq]
  · let s' : Machine π :=
      { s with core := { s.core with waiting := w }, iterations := s.iterations + 1 }
    have htake := (parts_takeEntry (S := S) q objs s').keeps Part.entries
    rw [heq]
    split
    · rfl
    · exact htake

/-- Nor does a run of the solver. -/
theorem run_entries {s t : Machine π} {halt : Halt} (h : s.run S = some (t, halt)) :
    t.entries = s.entries := by
  obtain ⟨u, hsteps, hend⟩ := run_eq_some_iff.mp h
  have hlast := step_entries (S := S) u
  rw [hend] at hlast
  refine hlast.trans ?_
  clear hend hlast
  induction hsteps with
  | refl => rfl
  | @tail v w _ hnext ih =>
    have hstep := step_entries (S := S) v
    rw [show v.step S = (w, none) from hnext] at hstep
    exact hstep.trans ih

/-- The entry methods are the entries before the first step, in the empty context. -/
theorem mem_begin_entries {m : MethodId} (hm : m ∈ S.program.entries) : ⟨[], m⟩ ∈ (begin S).entries :=
  (CallGraph.mem_addEntries S.program.entries _ _ _).mpr (Or.inr ⟨m, hm, rfl⟩)

end Machine

/-! ## Results -/

namespace Result

variable {p : Program} {opts : Options} {r : Result}

/-- The call graph without contexts was built by adding entries, methods and edges. -/
theorem callGraph_built (r : Result) : r.callGraph.Built := by
  unfold callGraph
  simp only [← Array.foldl_toList]
  refine .foldl (fun g e hg => .edge _ _ _ hg) _ (.foldl (fun g m hg => .reach _ hg) _ ?_)
  exact .foldl (fun g m hg => .entry _ hg) _ .empty

/-- Its entries are those of the call graph with contexts. -/
theorem mem_callGraph_entries {m : MethodId} :
    m ∈ r.callGraph.entries ↔ ∃ k ∈ r.core.graph.entries, k.method = m := by
  have hreach : ∀ (as : List CSMethod) (g : MethodCallGraph),
      (as.foldl (fun g k => (g.addReachable k.method).1) g).entries = g.entries := fun as g =>
    List.foldlRecOn as _ (motive := fun t : MethodCallGraph => t.entries = g.entries) rfl
      fun t ht k _ => (CallGraph.addReachable_entries k.method).trans ht
  have hedges : ∀ (es : List (CallEdge CSSite CSMethod)) (g : MethodCallGraph),
      (es.foldl (fun g e => (g.addEdge e.kind e.site.site e.callee.method).1) g).entries = g.entries :=
    fun es g => List.foldlRecOn es _ (motive := fun t : MethodCallGraph => t.entries = g.entries) rfl
      fun t ht e _ => (CallGraph.addEdge_entries e.kind e.site.site e.callee.method).trans ht
  unfold callGraph
  simp only [← Array.foldl_toList]
  rw [hedges, hreach, CallGraph.mem_addEntries]
  simp

/-- The entry methods of the program are entries of the call graph of its result. -/
theorem mem_entries (h : (analyze p opts).start.1 = .ok r) {m : MethodId} (hm : m ∈ p.entries) :
    m ∈ r.callGraph.entries := by
  obtain ⟨s, hrun, hcore⟩ := analyze_ok h
  refine mem_callGraph_entries.mpr ⟨⟨[], m⟩, ?_, rfl⟩
  rw [hcore]
  have hsame : s.entries = _ := Machine.run_entries hrun
  show (⟨[], m⟩ : CSMethod) ∈ s.entries
  rw [hsame]
  exact Machine.mem_begin_entries hm

end Result

end WholeProgram.PointsTo
