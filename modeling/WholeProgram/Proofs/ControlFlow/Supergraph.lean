import WholeProgram.ControlFlow.Supergraph
import WholeProgram.Proofs.CallGraph.Views
import WholeProgram.Proofs.ControlFlow.Tables
import WholeProgram.Proofs.Program.WellFormed

/-!
# What a supergraph holds

The supergraph of a call graph numbers the nodes of the reachable methods and lists its edges under the
numbers of their ends. For a call graph that was built step by step, over a well-formed program:

* `mem_nodes`, `number_lt`, `nodeAt_number`, `number_nodeAt` — the nodes of the reachable methods are
  numbered one after the other, each once;
* `mem_calleesOf` — a call site leads to the reachable ones of its callees;
* `Joins`, `mem_edges` — the four ways in which an edge joins two nodes, and no others;
* `mem_inEdges`, `mem_outEdges` — the tables list the edges by their ends, and the ends are nodes;
* `indexed_ofCallGraph` — so the tables go together (`Indexed`).
-/

namespace WholeProgram

namespace Supergraph

variable {p : Program} {cg : MethodCallGraph} {n : Node} {m : MethodId} {s : Site} {e : SuperEdge}

/-! ## Nodes -/

/-- The nodes of a method. -/
def nodesOf (p : Program) (m : MethodId) : List Node :=
  (List.range (p.method m).numNodes).map fun n => { method := m, node := n }

theorem mem_nodesOf : n ∈ nodesOf p m ↔ n.method = m ∧ n.node < (p.method m).numNodes := by
  obtain ⟨k, i⟩ := n
  simp only [nodesOf, List.mem_map, List.mem_range, Node.mk.injEq]
  constructor
  · rintro ⟨i, hi, rfl, rfl⟩
    exact ⟨rfl, hi⟩
  · rintro ⟨rfl, hi⟩
    exact ⟨i, hi, rfl, rfl⟩

theorem toList_nodes (p : Program) (cg : MethodCallGraph) :
    (ofCallGraph p cg).nodes.toList = cg.reachable.toList.flatMap (nodesOf p) := by
  have hall : ∀ (ms : List MethodId) (acc : Array Node),
      (ms.foldl (fun acc m => (List.range (p.method m).numNodes).foldl
        (fun acc n => acc.push { method := m, node := n }) acc) acc).toList =
        acc.toList ++ ms.flatMap (nodesOf p) := by
    intro ms acc
    induction ms generalizing acc with
    | nil => simp
    | cons m ms ih =>
      rw [List.foldl_cons, ih]
      simp [nodesOf]
  exact (hall cg.reachable.toList #[]).trans (List.nil_append _)

/-- The nodes of a supergraph are those of the reachable methods. -/
theorem mem_nodes : n ∈ (ofCallGraph p cg).nodes ↔
    n.method ∈ cg.reachable ∧ n.node < (p.method n.method).numNodes := by
  rw [← Array.mem_toList_iff, toList_nodes]
  simp only [List.mem_flatMap, mem_nodesOf, Array.mem_toList_iff]
  constructor
  · rintro ⟨m, hm, rfl, hn⟩
    exact ⟨hm, hn⟩
  · rintro ⟨hm, hn⟩
    exact ⟨_, hm, rfl, hn⟩

theorem nodup_nodes (hcg : cg.Built) : (ofCallGraph p cg).nodes.toList.Nodup := by
  rw [toList_nodes]
  refine List.nodup_flatMap.mpr ⟨fun m _ => ?_, hcg.nodup_reachable.imp fun hne n hn hn' => ?_⟩
  · refine List.nodup_range.map fun i j h => ?_
    exact congrArg Node.node h
  · exact hne ((mem_nodesOf.mp hn).1.symm.trans (mem_nodesOf.mp hn').1)

/-- The number of the first node of each method, where the first of the methods starts at `k`. -/
def offsetsFrom (p : Program) (ms : List MethodId) (x : Std.HashMap MethodId Nat × Nat) :
    Std.HashMap MethodId Nat × Nat :=
  ms.foldl (fun acc m => (acc.1.insert m acc.2, acc.2 + (p.method m).numNodes)) x

theorem offsets_eq (p : Program) (cg : MethodCallGraph) :
    (ofCallGraph p cg).offsets = (offsetsFrom p cg.reachable.toList ({}, 0)).1 := rfl

theorem getElem?_offsetsFrom_of_notMem {ms : List MethodId} (hm : m ∉ ms)
    (x : Std.HashMap MethodId Nat × Nat) : (offsetsFrom p ms x).1[m]? = x.1[m]? := by
  induction ms generalizing x with
  | nil => rfl
  | cons k ms ih =>
    obtain ⟨hne, hrest⟩ := not_or.mp (List.mem_cons.not.mp hm)
    rw [offsetsFrom, List.foldl_cons, ← offsetsFrom, ih hrest]
    simp [Std.HashMap.getElem?_insert, Ne.symm hne]

/-- From the offset of a method on, the list of all nodes is that of the nodes of the method. -/
theorem getElem?_offsetsFrom {ms : List MethodId} (hms : ms.Nodup) (hm : m ∈ ms)
    (x : Std.HashMap MethodId Nat × Nat) :
    ∃ i, (offsetsFrom p ms x).1[m]? = some (x.2 + i) ∧
      ∀ n < (p.method m).numNodes, (ms.flatMap (nodesOf p))[i + n]? = some ⟨m, n⟩ := by
  induction ms generalizing x with
  | nil => cases hm
  | cons k ms ih =>
    obtain ⟨hk, hrest⟩ := List.nodup_cons.mp hms
    rw [offsetsFrom, List.foldl_cons, ← offsetsFrom, List.flatMap_cons]
    by_cases hmk : m = k
    · subst hmk
      refine ⟨0, ?_, fun n hn => ?_⟩
      · rw [getElem?_offsetsFrom_of_notMem hk]
        simp
      · rw [List.getElem?_append_left (by simpa [nodesOf] using hn)]
        simp [nodesOf, hn]
    · obtain ⟨i, hi, hnodes⟩ := ih hrest ((List.mem_cons.mp hm).resolve_left hmk)
        (x.1.insert k x.2, x.2 + (p.method k).numNodes)
      refine ⟨(p.method k).numNodes + i, by rw [hi, Nat.add_assoc], fun n hn => ?_⟩
      rw [List.getElem?_append_right (by simp [nodesOf]; omega), ← hnodes n hn]
      congr 1
      simp [nodesOf]
      omega

theorem getElem?_number (hcg : cg.Built) (hn : n ∈ (ofCallGraph p cg).nodes) :
    (ofCallGraph p cg).nodes[(ofCallGraph p cg).number n]? = some n := by
  obtain ⟨hm, hnode⟩ := mem_nodes.mp hn
  obtain ⟨i, hi, hnodes⟩ :=
    getElem?_offsetsFrom (p := p) hcg.nodup_reachable (Array.mem_toList_iff.mpr hm) ({}, 0)
  rw [number, offsets_eq, hi, ← Array.getElem?_toList, toList_nodes]
  simpa using hnodes _ hnode

theorem number_lt (hcg : cg.Built) (hn : n ∈ (ofCallGraph p cg).nodes) :
    (ofCallGraph p cg).number n < (ofCallGraph p cg).nodes.size :=
  (Array.getElem?_eq_some_iff.mp (getElem?_number hcg hn)).1

theorem nodeAt_number (hcg : cg.Built) (hn : n ∈ (ofCallGraph p cg).nodes) :
    (ofCallGraph p cg).nodeAt ((ofCallGraph p cg).number n) = n := by
  rw [nodeAt, Array.getD_eq_getD_getElem?, getElem?_number hcg hn, Option.getD_some]

theorem nodeAt_mem {i : Nat} {g : Supergraph} (hi : i < g.nodes.size) : g.nodeAt i ∈ g.nodes := by
  rw [nodeAt, Array.getD_eq_getD_getElem?, Array.getElem?_eq_getElem hi]
  exact Array.getElem_mem hi

theorem number_nodeAt (hcg : cg.Built) {i : Nat} (hi : i < (ofCallGraph p cg).nodes.size) :
    (ofCallGraph p cg).number ((ofCallGraph p cg).nodeAt i) = i := by
  have hmem := nodeAt_mem hi
  refine (List.getElem?_inj (number_lt hcg hmem) (nodup_nodes hcg)).mp ?_
  rw [Array.getElem?_toList, Array.getElem?_toList, getElem?_number hcg hmem, nodeAt,
    Array.getD_eq_getD_getElem?, Array.getElem?_eq_getElem hi]
  rfl

/-! ## Callees -/

theorem callees_eq (p : Program) (cg : MethodCallGraph) :
    (ofCallGraph p cg).callees = (cg.reachable.toList.flatMap p.sitesIn).foldl
      (fun acc s => acc.insert s ((cg.calleesOf s).filter cg.isReachable)) {} :=
  List.foldl_flatMap.symm

theorem getElem?_foldl_insert {α : Type} (f : Site → α) (sites : List Site)
    (table : Std.HashMap Site α) :
    (sites.foldl (fun acc s => acc.insert s (f s)) table)[s]? =
      if s ∈ sites then some (f s) else table[s]? := by
  induction sites generalizing table with
  | nil => rfl
  | cons t sites ih =>
    rw [List.foldl_cons, ih, Std.HashMap.getElem?_insert]
    by_cases hs : s ∈ sites
    · simp [hs]
    · by_cases hst : t = s
      · simp [hst]
      · simp [hs, hst, Ne.symm hst]

/-- A call site of a reachable method leads to its callees, as far as they are reachable too. -/
theorem calleesOf_eq (hs : s.method ∈ cg.reachable)
    (hcall : (p.callAt? s).isSome = true) :
    (ofCallGraph p cg).calleesOf s = (cg.calleesOf s).filter cg.isReachable := by
  have hmem : s ∈ cg.reachable.toList.flatMap p.sitesIn :=
    List.mem_flatMap.mpr ⟨_, Array.mem_toList_iff.mpr hs, Program.mem_sitesIn.mpr ⟨rfl, hcall⟩⟩
  rw [calleesOf, callees_eq, getElem?_foldl_insert, if_pos hmem, Option.getD_some]

theorem mem_calleesOf (hcg : cg.Consistent) :
    m ∈ (ofCallGraph p cg).calleesOf s ↔ s.method ∈ cg.reachable ∧ (p.callAt? s).isSome = true ∧
      cg.HasEdge s m ∧ m ∈ cg.reachable := by
  by_cases h : s.method ∈ cg.reachable ∧ (p.callAt? s).isSome = true
  · rw [calleesOf_eq h.1 h.2, List.mem_filter, CallGraph.mem_calleesOf hcg, hcg.reached]
    simp [h.1, h.2]
  · have hnot : s ∉ cg.reachable.toList.flatMap p.sitesIn := by
      intro hmem
      obtain ⟨k, hk, hs⟩ := List.mem_flatMap.mp hmem
      obtain ⟨rfl, hcall⟩ := Program.mem_sitesIn.mp hs
      exact h ⟨Array.mem_toList_iff.mp hk, hcall⟩
    rw [calleesOf, callees_eq, getElem?_foldl_insert, if_neg hnot]
    simp only [Std.HashMap.getElem?_empty, Option.getD_none, List.not_mem_nil, false_iff]
    rintro ⟨hs, hcall, -⟩
    exact h ⟨hs, hcall⟩

/-! ## Edges -/

/-- How the edges of a supergraph join its nodes: as the graphs of the methods do, past the calls, from
the calls to the entries of their callees, and from the exits of the callees to what follows the call. -/
inductive Joins (p : Program) (cg : MethodCallGraph) : SuperEdge → Prop
  | normal {m : MethodId} {n : Nat} {e : Edge} : m ∈ cg.reachable → e ∈ (p.method m).outEdges n →
      ((p.method m).stmtAt n).call? = none →
      Joins p cg { source := ⟨m, n⟩, target := ⟨m, e.target⟩, link := .normal e }
  | pass {s : Site} {e : Edge} : s.method ∈ cg.reachable → (p.callAt? s).isSome = true →
      e ∈ (p.method s.method).outEdges (s.index + 1) →
      Joins p cg { source := s.node, target := ⟨s.method, e.target⟩, link := .callToReturn s e }
  | call {s : Site} {m : MethodId} : m ∈ (ofCallGraph p cg).calleesOf s →
      Joins p cg { source := s.node, target := ⟨m, 0⟩, link := .call s m }
  | ret {s : Site} {m : MethodId} {e : Edge} : m ∈ (ofCallGraph p cg).calleesOf s →
      e ∈ (p.method s.method).outEdges (s.index + 1) →
      Joins p cg { source := ⟨m, (p.method m).exit⟩, target := ⟨s.method, e.target⟩, link := .ret s m }

theorem edgesAt_normal {n : Nat} (h : ((p.method m).stmtAt n).call? = none) :
    edgesAt p cg m n = ((p.method m).outEdges n).map fun e =>
      { source := ⟨m, n⟩, target := ⟨m, e.target⟩, link := .normal e } := by
  unfold edgesAt
  simp only [h]

theorem edgesAt_call (hs : s.method ∈ cg.reachable) (hcall : (p.callAt? s).isSome = true) :
    edgesAt p cg s.method (s.index + 1) =
      (((p.method s.method).outEdges (s.index + 1)).map fun e =>
        { source := s.node, target := ⟨s.method, e.target⟩, link := .callToReturn s e }) ++
      ((ofCallGraph p cg).calleesOf s).flatMap fun k =>
        { source := s.node, target := ⟨k, 0⟩, link := .call s k } ::
          ((p.method s.method).outEdges (s.index + 1)).map fun e =>
            { source := ⟨k, (p.method k).exit⟩, target := ⟨s.method, e.target⟩, link := .ret s k } := by
  obtain ⟨c, hc⟩ := Option.isSome_iff_exists.mp hcall
  rw [Program.callAt?_eq] at hc
  rw [calleesOf_eq hs hcall, edgesAt, show ((p.method s.method).stmtAt (s.index + 1)).call? = some c from hc]
  rfl

/-- A call site of a reachable method is a node. -/
theorem node_mem (hs : s.method ∈ cg.reachable) (hcall : (p.callAt? s).isSome = true) :
    s.node ∈ (ofCallGraph p cg).nodes := by
  refine mem_nodes.mpr ⟨hs, Nat.lt_succ_of_lt (Method.lt_exit_of_stmtAt_ne fun hnop => ?_)⟩
  rw [Program.callAt?_eq, show p.stmtAt s.node = .nop from hnop] at hcall
  cases hcall

/-- What is made for a node of a reachable method joins nodes in one of these ways. -/
theorem joins_of_mem_edgesAt {n : Nat} (hm : m ∈ cg.reachable) (he : e ∈ edgesAt p cg m n) :
    Joins p cg e := by
  cases hcall : ((p.method m).stmtAt n).call? with
  | none =>
    rw [edgesAt_normal hcall] at he
    obtain ⟨a, ha, rfl⟩ := List.mem_map.mp he
    exact .normal hm ha hcall
  | some c =>
    obtain _ | i := n
    · cases hcall
    let s : Site := ⟨m, i⟩
    have hs : (p.callAt? s).isSome = true := by
      rw [Program.callAt?_eq, show (p.stmtAt s.node).call? = some c from hcall]
      rfl
    rw [edgesAt_call (s := s) hm hs] at he
    rcases List.mem_append.mp he with he | he
    · obtain ⟨a, ha, rfl⟩ := List.mem_map.mp he
      exact .pass hm hs ha
    · obtain ⟨k, hk, he⟩ := List.mem_flatMap.mp he
      rcases List.mem_cons.mp he with rfl | he
      · exact .call hk
      · obtain ⟨a, ha, rfl⟩ := List.mem_map.mp he
        exact .ret hk ha

/-- An edge that joins nodes is made for the node, or the call site, that it leaves. -/
theorem Joins.exists_mem_edgesAt (hcg : cg.Consistent) (h : Joins p cg e) :
    ∃ k ∈ (ofCallGraph p cg).nodes, e ∈ edgesAt p cg k.method k.node := by
  cases h with
  | @normal m n _ hm ha hcall =>
    refine ⟨⟨m, n⟩, mem_nodes.mpr ⟨hm, Nat.lt_succ_of_lt (Method.lt_exit_of_mem_outEdges ha)⟩, ?_⟩
    rw [edgesAt_normal hcall]
    exact List.mem_map_of_mem ha
  | pass hs hcall ha =>
    refine ⟨_, node_mem hs hcall, ?_⟩
    rw [Site.node, edgesAt_call hs hcall]
    exact List.mem_append_left _ (List.mem_map_of_mem ha)
  | call hk =>
    obtain ⟨hs, hcall, -⟩ := (mem_calleesOf hcg).mp hk
    refine ⟨_, node_mem hs hcall, ?_⟩
    rw [Site.node, edgesAt_call hs hcall]
    exact List.mem_append_right _ (List.mem_flatMap.mpr ⟨_, hk, List.mem_cons_self⟩)
  | ret hk ha =>
    obtain ⟨hs, hcall, -⟩ := (mem_calleesOf hcg).mp hk
    refine ⟨_, node_mem hs hcall, ?_⟩
    rw [Site.node, edgesAt_call hs hcall]
    exact List.mem_append_right _
      (List.mem_flatMap.mpr ⟨_, hk, List.mem_cons_of_mem _ (List.mem_map_of_mem ha)⟩)

/-- A supergraph has no other edges. -/
theorem mem_edges (hcg : cg.Consistent) : e ∈ edges p cg ↔ Joins p cg e := by
  simp only [edges, List.mem_flatMap, List.mem_range, Array.mem_toList_iff]
  constructor
  · rintro ⟨m, hm, n, -, he⟩
    exact joins_of_mem_edgesAt hm he
  · intro h
    obtain ⟨k, hk, he⟩ := h.exists_mem_edgesAt hcg
    obtain ⟨hm, hn⟩ := mem_nodes.mp hk
    exact ⟨k.method, hm, k.node, hn, he⟩

theorem Joins.source_mem (hcg : cg.Consistent) (h : Joins p cg e) :
    e.source ∈ (ofCallGraph p cg).nodes := by
  cases h with
  | normal hm ha _ => exact mem_nodes.mpr ⟨hm, Nat.lt_succ_of_lt (Method.lt_exit_of_mem_outEdges ha)⟩
  | pass hs hcall _ => exact node_mem hs hcall
  | call hk =>
    obtain ⟨hs, hcall, -⟩ := (mem_calleesOf hcg).mp hk
    exact node_mem hs hcall
  | ret hk _ =>
    obtain ⟨-, -, -, hk⟩ := (mem_calleesOf hcg).mp hk
    exact mem_nodes.mpr ⟨hk, Nat.lt_succ_self _⟩

theorem Joins.target_mem (hp : p.WellFormed) (hcg : cg.Consistent) (h : Joins p cg e) :
    e.target ∈ (ofCallGraph p cg).nodes := by
  have htarget : ∀ {m : MethodId} {n : Nat} {a : Edge}, a ∈ (p.method m).outEdges n →
      a.target < (p.method m).numNodes := by
    intro m n a ha
    exact hp.targets m a (Method.mem_edges.mpr (Method.source_of_mem_outEdges ha ▸ ha))
  cases h with
  | normal hm ha _ => exact mem_nodes.mpr ⟨hm, htarget ha⟩
  | pass hs _ ha => exact mem_nodes.mpr ⟨hs, htarget ha⟩
  | call hk =>
    obtain ⟨-, -, -, hk⟩ := (mem_calleesOf hcg).mp hk
    exact mem_nodes.mpr ⟨hk, Nat.succ_pos _⟩
  | ret hk ha =>
    obtain ⟨hs, -⟩ := (mem_calleesOf hcg).mp hk
    exact mem_nodes.mpr ⟨hs, htarget ha⟩

/-! ## The tables of edges -/

theorem outs_eq (p : Program) (cg : MethodCallGraph) :
    (ofCallGraph p cg).outs = (edges p cg).foldr
      (fun e t => t.modify ((ofCallGraph p cg).number e.source) (e :: ·))
      (Array.replicate (ofCallGraph p cg).nodes.size []) := rfl

theorem ins_eq (p : Program) (cg : MethodCallGraph) :
    (ofCallGraph p cg).ins = (edges p cg).foldr
      (fun e t => t.modify ((ofCallGraph p cg).number e.target) (e :: ·))
      (Array.replicate (ofCallGraph p cg).nodes.size []) := rfl

theorem getElem?_outs (i : Nat) :
    (ofCallGraph p cg).outs[i]? = if i < (ofCallGraph p cg).nodes.size then
      some ((edges p cg).filter fun e => (ofCallGraph p cg).number e.source = i) else none := by
  rw [outs_eq, getElem?_foldr_modify fun e : SuperEdge => (ofCallGraph p cg).number e.source]

theorem getElem?_ins (i : Nat) :
    (ofCallGraph p cg).ins[i]? = if i < (ofCallGraph p cg).nodes.size then
      some ((edges p cg).filter fun e => (ofCallGraph p cg).number e.target = i) else none := by
  rw [ins_eq, getElem?_foldr_modify fun e : SuperEdge => (ofCallGraph p cg).number e.target]

theorem number_inj (hcg : cg.Built) {k : Node} (hn : n ∈ (ofCallGraph p cg).nodes)
    (hk : k ∈ (ofCallGraph p cg).nodes) :
    (ofCallGraph p cg).number n = (ofCallGraph p cg).number k ↔ n = k := by
  refine ⟨fun h => ?_, fun h => by rw [h]⟩
  rw [← nodeAt_number hcg hn, h, nodeAt_number hcg hk]

theorem mem_outEdges (hcg : cg.Built) (hn : n ∈ (ofCallGraph p cg).nodes) :
    e ∈ (ofCallGraph p cg).outEdges n ↔ Joins p cg e ∧ e.source = n := by
  rw [outEdges, Array.getD_eq_getD_getElem?, getElem?_outs, if_pos (number_lt hcg hn),
    Option.getD_some, List.mem_filter, mem_edges hcg.consistent]
  refine and_congr_right fun he => ?_
  simp only [decide_eq_true_eq]
  exact number_inj hcg (he.source_mem hcg.consistent) hn

theorem mem_inEdges (hp : p.WellFormed) (hcg : cg.Built) (hn : n ∈ (ofCallGraph p cg).nodes) :
    e ∈ (ofCallGraph p cg).inEdges n ↔ Joins p cg e ∧ e.target = n := by
  rw [inEdges, Array.getD_eq_getD_getElem?, getElem?_ins, if_pos (number_lt hcg hn),
    Option.getD_some, List.mem_filter, mem_edges hcg.consistent]
  refine and_congr_right fun he => ?_
  simp only [decide_eq_true_eq]
  exact number_inj hcg (he.target_mem hp hcg.consistent) hn

theorem joins_of_mem_outEdges (hcg : cg.Consistent) (h : e ∈ (ofCallGraph p cg).outEdges n) :
    Joins p cg e := by
  rw [outEdges, Array.getD_eq_getD_getElem?, getElem?_outs] at h
  split at h
  · exact (mem_edges hcg).mp (List.mem_filter.mp h).1
  · cases h

theorem mem_succs {k : Node} : k ∈ (ofCallGraph p cg).succs n ↔
    ∃ e ∈ (ofCallGraph p cg).outEdges n, e.target = k := by
  simp [succs]

/-- All successors are nodes. -/
theorem succs_mem (hp : p.WellFormed) (hcg : cg.Consistent) {k : Node}
    (h : k ∈ (ofCallGraph p cg).succs n) : k ∈ (ofCallGraph p cg).nodes := by
  obtain ⟨e, he, rfl⟩ := mem_succs.mp h
  exact (joins_of_mem_outEdges hcg he).target_mem hp hcg

/-- An edge into a node makes it a successor of the source. -/
theorem mem_succs_of_mem_inEdges (hp : p.WellFormed) (hcg : cg.Built)
    (hn : n ∈ (ofCallGraph p cg).nodes) (he : e ∈ (ofCallGraph p cg).inEdges n) :
    e.source ∈ (ofCallGraph p cg).nodes ∧ n ∈ (ofCallGraph p cg).succs e.source := by
  obtain ⟨hjoins, htarget⟩ := (mem_inEdges hp hcg hn).mp he
  have hsource := hjoins.source_mem hcg.consistent
  exact ⟨hsource, mem_succs.mpr ⟨e, (mem_outEdges hcg hsource).mpr ⟨hjoins, rfl⟩, htarget⟩⟩

theorem size_outs (p : Program) (cg : MethodCallGraph) :
    (ofCallGraph p cg).outs.size = (ofCallGraph p cg).nodes.size := by
  have hiff : ∀ i, (ofCallGraph p cg).outs.size ≤ i ↔ (ofCallGraph p cg).nodes.size ≤ i := by
    intro i
    rw [← Array.getElem?_eq_none_iff, getElem?_outs]
    split <;> simp_all
  exact Nat.le_antisymm ((hiff _).mpr le_rfl) ((hiff _).mp le_rfl)

/-- There are no more successors than edges. -/
theorem sum_succs_le (hcg : cg.Built) :
    ∑ i ∈ Finset.range (ofCallGraph p cg).nodes.size,
      ((ofCallGraph p cg).succs ((ofCallGraph p cg).nodeAt i)).length ≤
      (ofCallGraph p cg).outs.foldl (fun n es => n + es.length) 0 := by
  rw [← sum_length_getD, size_outs]
  refine Finset.sum_le_sum fun i hi => (length_eraseDups_le _).trans ?_
  rw [List.length_map, outEdges, number_nodeAt hcg (Finset.mem_range.mp hi)]

/-- The tables of a supergraph go together: nodes and numbers translate to each other, the edges into a
node make it a successor of their sources, and there are no more successors than edges. -/
structure Indexed (g : Supergraph) : Prop where
  number_lt : ∀ n ∈ g.nodes, g.number n < g.nodes.size
  nodeAt_number : ∀ n ∈ g.nodes, g.nodeAt (g.number n) = n
  number_nodeAt : ∀ i < g.nodes.size, g.number (g.nodeAt i) = i
  succs_mem : ∀ n, ∀ k ∈ g.succs n, k ∈ g.nodes
  mem_succs_of_mem_inEdges : ∀ n ∈ g.nodes, ∀ e ∈ g.inEdges n, e.source ∈ g.nodes ∧ n ∈ g.succs e.source
  sum_succs_le : ∑ i ∈ Finset.range g.nodes.size, (g.succs (g.nodeAt i)).length ≤
    g.outs.foldl (fun n es => n + es.length) 0

theorem indexed_ofCallGraph (hp : p.WellFormed) (hcg : cg.Built) : (ofCallGraph p cg).Indexed where
  number_lt _ := number_lt hcg
  nodeAt_number _ := nodeAt_number hcg
  number_nodeAt _ := number_nodeAt hcg
  succs_mem _ _ := succs_mem hp hcg.consistent
  mem_succs_of_mem_inEdges _ hn _ := mem_succs_of_mem_inEdges hp hcg hn
  sum_succs_le := sum_succs_le hcg

end Supergraph

end WholeProgram
