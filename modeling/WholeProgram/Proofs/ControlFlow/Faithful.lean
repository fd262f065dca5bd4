import WholeProgram.Proofs.ControlFlow.Supergraph
import WholeProgram.Proofs.ControlFlow.Transfers

/-!
# Supergraphs are faithful

A supergraph joins the graphs of the reachable methods, and beyond them has the edges of the calls and
nothing else.

* `Supergraph.Faithful` — which edges leave a node, kind by kind, and how often;
* `filter_edges` — the edges that are made for one node, among all edges;
* `filter_edges_call`, `filter_edges_ret` — a call has one edge to the entry of each callee, and one from
  the exit of the callee to each place that the call leads to;
* `controlFlow_faithful` — for a well-formed program, the graph of every method and the supergraph of
  every call graph are faithful.
-/

namespace WholeProgram

namespace Supergraph

/-- The nodes are those of the reachable methods. Within a method there are the edges of its graph, past
the calls; a call has one edge to the entry of each of its callees, and for each of them one edge from its
exit to each place that the call leads to. The tables agree, and so do callers and callees. -/
structure Faithful (p : Program) (cg : MethodCallGraph) (g : Supergraph) : Prop where
  nodup_nodes : g.nodes.toList.Nodup
  mem_nodes : ∀ n, n ∈ g.nodes ↔ n.method ∈ cg.reachable ∧ n.node < (p.method n.method).numNodes
  out_ends : ∀ n ∈ g.nodes, ∀ e ∈ g.outEdges n, e.source = n ∧ e.target ∈ g.nodes
  in_ends : ∀ n ∈ g.nodes, ∀ e ∈ g.inEdges n, e.target = n ∧ e.source ∈ g.nodes
  converse : ∀ e, e.source ∈ g.nodes → e.target ∈ g.nodes →
    (g.inEdges e.target).count e = (g.outEdges e.source).count e
  normal : ∀ n ∈ g.nodes, (p.stmtAt n).call? = none →
    (g.outEdges n).filter (·.link.edge?.isSome) =
      ((Cfg.ofMethod (p.method n.method)).outEdges n.node).map fun e =>
        ⟨n, ⟨n.method, e.target⟩, .normal e⟩
  pass : ∀ s : Site, s.method ∈ cg.reachable → (p.callAt? s).isSome = true →
    (g.outEdges s.node).filter (·.link.edge?.isSome) =
      ((Cfg.ofMethod (p.method s.method)).outEdges s.node.node).map fun e =>
        ⟨s.node, ⟨s.method, e.target⟩, .callToReturn s e⟩
  callees : ∀ s m, m ∈ g.calleesOf s ↔ s.method ∈ cg.reachable ∧ (p.callAt? s).isSome = true ∧
    m ∈ cg.calleesOf s ∧ m ∈ cg.reachable
  call : ∀ n ∈ g.nodes, ∀ s m, (g.outEdges n).filter (·.link = .call s m) =
    if m ∈ g.calleesOf s ∧ n = s.node then [⟨s.node, ⟨m, 0⟩, .call s m⟩] else []
  ret : ∀ n ∈ g.nodes, ∀ s m, (g.outEdges n).filter (·.link = .ret s m) =
    if m ∈ g.calleesOf s ∧ n = ⟨m, (p.method m).exit⟩ then
      ((Cfg.ofMethod (p.method s.method)).outEdges s.node.node).map fun e =>
        ⟨⟨m, (p.method m).exit⟩, ⟨s.method, e.target⟩, .ret s m⟩
    else []
  callers : ∀ s m, s ∈ g.callersOf m ↔ m ∈ g.calleesOf s
  nodup_callees : ∀ s, (g.calleesOf s).Nodup
  nodup_callers : ∀ m, (g.callersOf m).Nodup

variable {p : Program} {cg : MethodCallGraph} {n : Node} {m : MethodId} {s : Site} {e : SuperEdge}

/-! ## The edges that are made for a node -/

/-- The node for which an edge is made: its source, or the call that it belongs to. -/
def origin (e : SuperEdge) : Node :=
  match e.link with
  | .normal _ => e.source
  | .callToReturn s _ | .call s _ | .ret s _ => s.node

theorem origin_of_mem_edgesAt {i : Nat} (he : e ∈ edgesAt p cg m i) : origin e = ⟨m, i⟩ := by
  cases hcall : ((p.method m).stmtAt i).call? with
  | none =>
    rw [edgesAt_normal hcall] at he
    obtain ⟨a, _, rfl⟩ := List.mem_map.mp he
    rfl
  | some c =>
    obtain _ | i := i
    · cases hcall
    unfold edgesAt at he
    simp only [hcall] at he
    rcases List.mem_append.mp he with he | he
    · obtain ⟨a, _, rfl⟩ := List.mem_map.mp he
      rfl
    · obtain ⟨k, _, he⟩ := List.mem_flatMap.mp he
      rcases List.mem_cons.mp he with rfl | he
      · rfl
      · obtain ⟨a, _, rfl⟩ := List.mem_map.mp he
        rfl

/-- The edges that a call has for one of its callees. -/
def callEdges (p : Program) (s : Site) (m : MethodId) : List SuperEdge :=
  ⟨s.node, ⟨m, 0⟩, .call s m⟩ :: ((p.method s.method).outEdges (s.index + 1)).map fun e =>
    ⟨⟨m, (p.method m).exit⟩, ⟨s.method, e.target⟩, .ret s m⟩

theorem edgesAt_node (hs : s.method ∈ cg.reachable) (hcall : (p.callAt? s).isSome = true) :
    edgesAt p cg s.node.method s.node.node =
      (((p.method s.method).outEdges (s.index + 1)).map fun e =>
        ⟨s.node, ⟨s.method, e.target⟩, .callToReturn s e⟩) ++
      ((ofCallGraph p cg).calleesOf s).flatMap (callEdges p s) :=
  edgesAt_call hs hcall

theorem edges_eq (p : Program) (cg : MethodCallGraph) :
    edges p cg = (ofCallGraph p cg).nodes.toList.flatMap fun k => edgesAt p cg k.method k.node := by
  rw [toList_nodes, List.flatMap_assoc, edges]
  simp only [nodesOf, List.flatMap_map]

/-- What is made for one node only is among all edges what it is among those of the node. -/
theorem filter_edges (hcg : cg.Built) {q : SuperEdge → Bool}
    (hq : ∀ e, Joins p cg e → q e = true → origin e = n) :
    (edges p cg).filter q =
      if n ∈ (ofCallGraph p cg).nodes then (edgesAt p cg n.method n.node).filter q else [] := by
  rw [edges_eq, filter_flatMap_eq n (nodup_nodes hcg) ?_]
  · simp only [Array.mem_toList_iff]
  · intro k hk e he hqe
    have hjoins := joins_of_mem_edgesAt (mem_nodes.mp (Array.mem_toList_iff.mp hk)).1 he
    rw [← hq e hjoins hqe, origin_of_mem_edgesAt he]

theorem outEdges_eq (hcg : cg.Built) (hn : n ∈ (ofCallGraph p cg).nodes) :
    (ofCallGraph p cg).outEdges n = (edges p cg).filter (·.source = n) := by
  rw [outEdges, Array.getD_eq_getD_getElem?, getElem?_outs, if_pos (number_lt hcg hn), Option.getD_some]
  refine List.filter_congr fun e he => decide_eq_decide.mpr ?_
  exact number_inj hcg (((mem_edges hcg.consistent).mp he).source_mem hcg.consistent) hn

theorem inEdges_eq (hp : p.WellFormed) (hcg : cg.Built) (hn : n ∈ (ofCallGraph p cg).nodes) :
    (ofCallGraph p cg).inEdges n = (edges p cg).filter (·.target = n) := by
  rw [inEdges, Array.getD_eq_getD_getElem?, getElem?_ins, if_pos (number_lt hcg hn), Option.getD_some]
  refine List.filter_congr fun e he => decide_eq_decide.mpr ?_
  exact number_inj hcg (((mem_edges hcg.consistent).mp he).target_mem hp hcg.consistent) hn

/-! ## Edges within a method -/

/-- What leaves a node within its method is made for that node. -/
theorem filter_outEdges_edge? (hcg : cg.Built) (hn : n ∈ (ofCallGraph p cg).nodes) :
    ((ofCallGraph p cg).outEdges n).filter (·.link.edge?.isSome) =
      (edgesAt p cg n.method n.node).filter fun e => e.link.edge?.isSome && decide (e.source = n) := by
  rw [outEdges_eq hcg hn, List.filter_filter, filter_edges hcg (n := n), if_pos hn]
  intro e he hq
  simp only [Bool.and_eq_true, decide_eq_true_eq] at hq
  cases he with
  | normal | pass => exact hq.2
  | call | ret => exact absurd hq.1 (by simp [Link.edge?])

theorem filter_outEdges_normal (hcg : cg.Built) (hn : n ∈ (ofCallGraph p cg).nodes)
    (hcall : (p.stmtAt n).call? = none) :
    ((ofCallGraph p cg).outEdges n).filter (·.link.edge?.isSome) =
      ((p.method n.method).outEdges n.node).map fun e => ⟨n, ⟨n.method, e.target⟩, .normal e⟩ := by
  rw [filter_outEdges_edge? hcg hn, edgesAt_normal hcall, List.filter_eq_self]
  intro e he
  obtain ⟨a, _, rfl⟩ := List.mem_map.mp he
  simp [Link.edge?]

theorem filter_outEdges_pass (hcg : cg.Built) (hs : s.method ∈ cg.reachable)
    (hcall : (p.callAt? s).isSome = true) :
    ((ofCallGraph p cg).outEdges s.node).filter (·.link.edge?.isSome) =
      ((p.method s.method).outEdges (s.index + 1)).map fun e =>
        ⟨s.node, ⟨s.method, e.target⟩, .callToReturn s e⟩ := by
  rw [filter_outEdges_edge? hcg (node_mem hs hcall), edgesAt_node hs hcall, List.filter_append,
    List.filter_eq_self.mpr, List.filter_eq_nil_iff.mpr, List.append_nil]
  · intro e he
    obtain ⟨k, _, he⟩ := List.mem_flatMap.mp he
    rcases List.mem_cons.mp he with rfl | he
    · simp [Link.edge?]
    · obtain ⟨a, _, rfl⟩ := List.mem_map.mp he
      simp [Link.edge?]
  · intro e he
    obtain ⟨a, _, rfl⟩ := List.mem_map.mp he
    simp [Link.edge?]

/-! ## Edges of calls -/

theorem nodup_calleesOf (hcg : cg.Built) (s : Site) : ((ofCallGraph p cg).calleesOf s).Nodup := by
  by_cases h : s.method ∈ cg.reachable ∧ (p.callAt? s).isSome = true
  · rw [calleesOf_eq h.1 h.2]
    exact (hcg.nodup_calleesOf s).filter _
  · have hnone : (ofCallGraph p cg).calleesOf s = [] := by
      rw [List.eq_nil_iff_forall_not_mem]
      intro m hm
      obtain ⟨hs, hcall, -⟩ := (mem_calleesOf hcg.consistent).mp hm
      exact h ⟨hs, hcall⟩
    rw [hnone]
    exact List.nodup_nil

/-- The edges with the link of a call to a callee are among those that the call has for the callee. -/
theorem filter_edges_link (hcg : cg.Built) {l : Link} (hl : l = .call s m ∨ l = .ret s m) :
    (edges p cg).filter (·.link = l) =
      if m ∈ (ofCallGraph p cg).calleesOf s then (callEdges p s m).filter (·.link = l) else [] := by
  split
  · rename_i hm
    obtain ⟨hs, hcall, -⟩ := (mem_calleesOf hcg.consistent).mp hm
    have horigin : ∀ e, Joins p cg e → decide (e.link = l) = true → origin e = s.node := by
      intro e _ he
      rw [decide_eq_true_eq] at he
      rcases hl with rfl | rfl <;> simp [origin, he]
    rw [filter_edges hcg horigin, if_pos (node_mem hs hcall), edgesAt_node hs hcall,
      List.filter_append, List.filter_eq_nil_iff.mpr ?_, List.nil_append,
      filter_flatMap_eq m (nodup_calleesOf hcg s) ?_, if_pos hm]
    · intro k _ e he hlink
      rw [decide_eq_true_eq] at hlink
      rcases List.mem_cons.mp he with rfl | he
      · rcases hl with rfl | rfl <;> cases hlink
        rfl
      · obtain ⟨a, _, rfl⟩ := List.mem_map.mp he
        rcases hl with rfl | rfl <;> cases hlink
        rfl
    · intro e he
      obtain ⟨a, _, rfl⟩ := List.mem_map.mp he
      rcases hl with rfl | rfl <;> simp
  · rename_i hm
    rw [List.filter_eq_nil_iff]
    intro e he hlink
    rw [decide_eq_true_eq] at hlink
    -- only a callee has such a link
    rcases hl with rfl | rfl <;> cases (mem_edges hcg.consistent).mp he <;> cases hlink <;> contradiction

theorem filter_edges_call (hcg : cg.Built) (s : Site) (m : MethodId) :
    (edges p cg).filter (·.link = .call s m) =
      if m ∈ (ofCallGraph p cg).calleesOf s then [⟨s.node, ⟨m, 0⟩, .call s m⟩] else [] := by
  rw [filter_edges_link hcg (.inl rfl)]
  simp [callEdges, List.filter_map, Function.comp_def]

theorem filter_edges_ret (hcg : cg.Built) (s : Site) (m : MethodId) :
    (edges p cg).filter (·.link = .ret s m) =
      if m ∈ (ofCallGraph p cg).calleesOf s then
        ((p.method s.method).outEdges (s.index + 1)).map fun e =>
          ⟨⟨m, (p.method m).exit⟩, ⟨s.method, e.target⟩, .ret s m⟩
      else [] := by
  rw [filter_edges_link hcg (.inr rfl)]
  simp [callEdges, List.filter_map, Function.comp_def]

/-! ## Callers -/

theorem entry_mem (hm : m ∈ cg.reachable) : ⟨m, 0⟩ ∈ (ofCallGraph p cg).nodes :=
  mem_nodes.mpr ⟨hm, Nat.succ_pos _⟩

/-- No edges lead to a method outside the graph. -/
theorem inEdges_eq_nil (hm : m ∉ cg.reachable) (i : Nat) : (ofCallGraph p cg).inEdges ⟨m, i⟩ = [] := by
  have hnumber : (ofCallGraph p cg).number ⟨m, i⟩ = (ofCallGraph p cg).nodes.size := by
    rw [number, offsets_eq, getElem?_offsetsFrom_of_notMem (Array.mem_toList_iff.not.mpr hm)]
    simp
  rw [inEdges, hnumber, Array.getD_eq_getD_getElem?, getElem?_ins, if_neg (Nat.lt_irrefl _),
    Option.getD_none]

theorem mem_callersOf (hp : p.WellFormed) (hcg : cg.Built) :
    s ∈ (ofCallGraph p cg).callersOf m ↔ m ∈ (ofCallGraph p cg).calleesOf s := by
  constructor
  · intro h
    obtain ⟨e, he, hlink⟩ := List.mem_filterMap.mp h
    by_cases hm : m ∈ cg.reachable
    · obtain ⟨hjoins, htarget⟩ := (mem_inEdges hp hcg (entry_mem hm)).mp he
      cases hjoins with
      | call hk =>
        cases htarget
        cases hlink
        exact hk
      | normal | pass | ret => cases hlink
    · rw [inEdges_eq_nil hm] at he
      cases he
  · intro h
    obtain ⟨_, _, _, hm⟩ := (mem_calleesOf hcg.consistent).mp h
    exact List.mem_filterMap.mpr ⟨_, (mem_inEdges hp hcg (entry_mem hm)).mpr ⟨.call h, rfl⟩, rfl⟩

theorem nodup_callersOf (hp : p.WellFormed) (hcg : cg.Built) (m : MethodId) :
    ((ofCallGraph p cg).callersOf m).Nodup := by
  by_cases hm : m ∈ cg.reachable
  · rw [List.nodup_iff_count_le_one]
    intro s
    -- every edge into the entry from the call `s` has the link of that call
    have hcount : ((ofCallGraph p cg).callersOf m).count s ≤
        ((edges p cg).filter (·.link = .call s m)).length := by
      rw [callersOf, List.count_eq_countP, List.countP_filterMap, inEdges_eq hp hcg (entry_mem hm),
        List.countP_filter, ← List.countP_eq_length_filter]
      refine List.countP_mono_left fun e he h => ?_
      simp only [Bool.and_eq_true, decide_eq_true_eq] at h ⊢
      obtain ⟨hlink, htarget⟩ := h
      cases (mem_edges hcg.consistent).mp he with
      | call =>
        cases htarget
        simpa using hlink
      | normal | pass | ret => simp at hlink
    refine hcount.trans ?_
    rw [filter_edges_call hcg]
    split
    · exact Nat.le_refl _
    · exact Nat.zero_le _
  · rw [callersOf, inEdges_eq_nil hm]
    exact List.nodup_nil

/-! ## All of it -/

/-- Edges that leave one node, among those that leave another. -/
theorem filter_source {P : Prop} [Decidable P] {es : List SuperEdge} {k : Node}
    (h : ∀ e ∈ es, e.source = k) :
    (if P then es else []).filter (·.source = n) = if P ∧ n = k then es else [] := by
  by_cases hP : P <;> by_cases hn : n = k
  · simpa [hP, hn] using h
  · simpa [hP, hn] using fun e he hsource => hn (hsource.symm.trans (h e he))
  · simp [hP]
  · simp [hP]

theorem faithful_ofCallGraph (hp : p.WellFormed) (hcg : cg.Built) : (ofCallGraph p cg).Faithful p cg where
  nodup_nodes := nodup_nodes hcg
  mem_nodes _ := mem_nodes
  out_ends n hn e he := by
    obtain ⟨hjoins, hsource⟩ := (mem_outEdges hcg hn).mp he
    exact ⟨hsource, hjoins.target_mem hp hcg.consistent⟩
  in_ends n hn e he := by
    obtain ⟨hjoins, htarget⟩ := (mem_inEdges hp hcg hn).mp he
    exact ⟨htarget, hjoins.source_mem hcg.consistent⟩
  converse e hsource htarget := by
    rw [inEdges_eq hp hcg htarget, outEdges_eq hcg hsource, List.count_filter (by simp),
      List.count_filter (by simp)]
  normal n hn hcall := by
    rw [Cfg.outEdges_ofMethod]
    exact filter_outEdges_normal hcg hn hcall
  pass s hs hcall := by
    rw [Cfg.outEdges_ofMethod]
    exact filter_outEdges_pass hcg hs hcall
  callees s m := by
    rw [Supergraph.mem_calleesOf hcg.consistent, CallGraph.mem_calleesOf hcg.consistent]
  call n hn s m := by
    rw [outEdges_eq hcg hn, List.filter_comm, filter_edges_call hcg, filter_source]
    simp
  ret n hn s m := by
    rw [outEdges_eq hcg hn, List.filter_comm, filter_edges_ret hcg, Cfg.outEdges_ofMethod]
    refine filter_source fun e he => ?_
    obtain ⟨a, _, rfl⟩ := List.mem_map.mp he
    rfl
  callers _ _ := mem_callersOf hp hcg
  nodup_callees := nodup_calleesOf hcg
  nodup_callers := nodup_callersOf hp hcg

end Supergraph

/-- The graph of every method of a well-formed program holds the control transfers of its statements, and
the supergraph of every call graph joins these graphs by the edges of the calls. -/
theorem controlFlow_faithful {p : Program} (hp : p.WellFormed) :
    (∀ m, (Cfg.ofMethod (p.method m)).Faithful) ∧
      ∀ cg : MethodCallGraph, cg.Built → (Supergraph.ofCallGraph p cg).Faithful p cg :=
  ⟨fun m => Cfg.faithful_ofMethod (hp.targets m), fun _ => Supergraph.faithful_ofCallGraph hp⟩

namespace Rounds

/-- `main` calls something in two of its cases, and begins again; `idle` does nothing. -/
def program : Program where
  classes := #[
    { name := "Main", super := none, isAbstract := false, isInterface := false, methods := #[0, 1] }]
  vars := #[{ name := "n", ty := .prim .int, method := 0, index := 0 }]
  methods := #[
    { name := "main", cls := 0, isStatic := true, isAbstract := false, subsig := "main(int)",
      returns := none,
      receiver := none, params := #[0], vars := #[0], pos := none,
      body := #[
        { stmt := .switch 0 [(1, 1), (2, 1)] 3, pos := none },
        { stmt := .invoke none ⟨.static, ⟨0, "main", "main(int)"⟩, none, [0]⟩, pos := none },
        { stmt := .jump 0, pos := none },
        { stmt := .nop, pos := none }] },
    { name := "idle", cls := 0, isStatic := true, isAbstract := false, subsig := "idle()",
      returns := none,
      receiver := none, params := #[], vars := #[], pos := none, body := #[] }]
  entries := [0]

theorem wellFormed : program.WellFormed := Program.wellFormed_of_methods (by decide)

/-- Both methods are reachable from the entry. -/
def methodsReached : MethodCallGraph :=
  ((({} : MethodCallGraph).addEntry 0).addReachable 0).1.addReachable 1 |>.1

/-- The call graph in which the call runs either method. -/
def callGraph : MethodCallGraph :=
  ((methodsReached.addEdge .static ⟨0, 1⟩ 0).1.addEdge .static ⟨0, 1⟩ 1).1

theorem built_methodsReached : methodsReached.Built := .reach _ (.reach _ (.entry _ .empty))

theorem built : callGraph.Built := .edge _ _ _ (.edge _ _ _ built_methodsReached)

theorem mem_reachable {m : MethodId} (hm : m ∈ [0, 1]) : m ∈ callGraph.reachable := by
  have hentry : (({} : MethodCallGraph).addEntry 0).Consistent :=
    (CallGraph.Built.entry _ .empty).consistent
  rw [callGraph, CallGraph.addEdge_reachable, CallGraph.addEdge_reachable, methodsReached,
    CallGraph.mem_addReachable (hentry.addReachable 0), CallGraph.mem_addReachable hentry]
  simpa [eq_comm] using hm

theorem mem_calleesOf {m : MethodId} (hm : m ∈ [0, 1]) : m ∈ callGraph.calleesOf ⟨0, 1⟩ := by
  rw [CallGraph.mem_calleesOf built.consistent, callGraph,
    CallGraph.hasEdge_addEdge (CallGraph.Built.edge _ _ _ built_methodsReached).consistent,
    CallGraph.hasEdge_addEdge built_methodsReached.consistent]
  have hm : m = 0 ∨ m = 1 := by simpa using hm
  tauto

end Rounds

/-- Both cases of the switch have an edge; the call that runs `main` again returns, like the one that runs
`idle`, to the statement after it, once. -/
theorem controlFlow_faithful_rounds :
    ((Cfg.ofMethod (Rounds.program.method 0)).outEdges 1).filterMap Edge.case? = [(1, 2), (2, 2)] ∧
    ∀ m ∈ [0, 1], ((Supergraph.ofCallGraph Rounds.program Rounds.callGraph).outEdges
      ⟨m, (Rounds.program.method m).exit⟩).filter (·.link = .ret ⟨0, 1⟩ m) =
        [⟨⟨m, (Rounds.program.method m).exit⟩, ⟨0, 3⟩, .ret ⟨0, 1⟩ m⟩] := by
  obtain ⟨hcfg, hsuper⟩ := controlFlow_faithful Rounds.wellFormed
  have hg := hsuper _ Rounds.built
  refine ⟨(hcfg 0).cases 0 0 [(1, 1), (2, 1)] 3 rfl, fun m hm => ?_⟩
  have hcallee : m ∈ (Supergraph.ofCallGraph Rounds.program Rounds.callGraph).calleesOf ⟨0, 1⟩ :=
    (hg.callees _ m).mpr
      ⟨Rounds.mem_reachable List.mem_cons_self, rfl, Rounds.mem_calleesOf hm, Rounds.mem_reachable hm⟩
  have hexit : ⟨m, (Rounds.program.method m).exit⟩ ∈
      (Supergraph.ofCallGraph Rounds.program Rounds.callGraph).nodes :=
    (hg.mem_nodes _).mpr ⟨Rounds.mem_reachable hm, Nat.lt_succ_self _⟩
  rw [hg.ret _ hexit, if_pos ⟨hcallee, rfl⟩, Cfg.outEdges_ofMethod]
  rfl

end WholeProgram
