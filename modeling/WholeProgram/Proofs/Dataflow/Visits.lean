import WholeProgram.Program.Builder
import WholeProgram.Proofs.Dataflow.Liveness
import WholeProgram.Proofs.Dataflow.Refinement

/-!
# How often the solvers visit nodes

The worklist admits a node again whenever something that it depends on changed, and a visit computes
the facts of its node from scratch. What bounds the visits all the same is that outputs only climb:
every visit takes something off the potential of the worklist (`System.potential_turn`), so that a run
that ends has visited no more nodes than were waiting, and than its outputs have woken on their way up
(`System.solve_iterations_le`).

How far outputs can climb depends on how many variables they are about. Within a method these are the
variables that occur in it; over a supergraph an output is below what holds within the method of its
node, and so about these variables too (`Interprocedural.mem_mentioned_of_output`). A method that uses
only variables of its own has no more of them than it declares.

From below, a run that ends has visited every node that waited, and once more the nodes behind those whose
output has changed (`System.le_solve_iterations`). So a method that uses variables of another may be
visited more often than its own variables allow (`not_within_bounds_doubled`).
-/

namespace WholeProgram

/-! ## Visits of a worklist -/

namespace System

variable {F ε : Type} [Inhabited F] [DecidableEq F] {S : System F ε} {limit : Int} {fuel : Nat}
  {s t : SolverState F} {rank : F → Nat} {height : Nat} {U : Set F}

/-- How many nodes the outputs can have woken on their way up. -/
def spent (S : System F ε) (rank : F → Nat) (s : Facts F) : Nat :=
  ∑ n ∈ Finset.range S.size, rank (s.output n) * (S.dependents n).length

omit [DecidableEq F] in
/-- What the outputs have climbed and what is left to climb is the whole way up. -/
theorem spent_add_climb (f : Facts F) (h : ∀ n, rank (f.output n) ≤ height) :
    S.spent rank f + S.climb rank height f =
      height * ∑ n ∈ Finset.range S.size, (S.dependents n).length := by
  rw [spent, climb, ← Finset.sum_add_distrib, Finset.mul_sum]
  refine Finset.sum_congr rfl fun n _ => ?_
  have hn := h n
  rw [← Nat.add_mul]
  congr 1
  omega

omit [DecidableEq F] in
/-- No way up is longer than the whole. -/
theorem climb_le (S : System F ε) (rank : F → Nat) (height : Nat) (f : Facts F) :
    S.climb rank height f ≤ height * ∑ n ∈ Finset.range S.size, (S.dependents n).length := by
  rw [climb, Finset.mul_sum]
  exact Finset.sum_le_sum fun n _ => Nat.mul_le_mul_right _ (Nat.sub_le _ _)

/-- How many entries of the worklist it takes to wake the nodes behind those that have another output than
at the start. -/
def awakened (S : System F ε) (f : Facts F) : Nat :=
  ∑ n ∈ Finset.range S.size, if f.output n = S.start n then 0 else
    ((S.dependents n).filter fun d => !S.isBoundary d).length

/-- A visit makes as many nodes wait as are behind the node that it gives another output. -/
theorem awakened_revise {f : Facts F} (houts : f.outs.size = S.size) (n : Nat) :
    S.awakened (S.revise f n) ≤ S.awakened f + (S.woken f n).length := by
  by_cases hchanged : n < S.size ∧ S.result f n ≠ f.output n
  · obtain ⟨hlt, hne⟩ := hchanged
    rw [woken, if_neg hne]
    calc S.awakened (S.revise f n)
        ≤ ∑ k ∈ Finset.range S.size, ((if f.output k = S.start k then 0 else
            ((S.dependents k).filter fun d => !S.isBoundary d).length) +
          if k = n then ((S.dependents n).filter fun d => !S.isBoundary d).length else 0) := by
          refine Finset.sum_le_sum fun k _ => ?_
          by_cases hkn : k = n
          · subst hkn
            rw [if_pos rfl]
            split
            · exact Nat.zero_le _
            · exact Nat.le_add_left _ _
          · rw [if_neg hkn, output_revise_of_ne hkn, Nat.add_zero]
      _ = _ := by
          rw [Finset.sum_add_distrib, Finset.sum_ite_eq', if_pos (Finset.mem_range.mpr hlt), awakened]
  · have hsame : ∀ k, (S.revise f n).output k = f.output k := by
      rcases not_and_or.mp hchanged with hge | heq
      · exact output_revise_of_ge houts (Nat.le_of_not_lt hge)
      · exact output_revise_of_same houts (not_not.mp heq)
    simp only [awakened, hsame]
    exact Nat.le_add_right _ _

/-- The solver visits every node that waits at the start, and the nodes behind one with another output
than at the start once more. -/
theorem le_solve_iterations (h : S.solve limit = (t, none)) :
    S.begin.waiting.toList.length + S.awakened t.facts ≤ t.iterations := by
  have hstart : S.awakened S.begin.facts = 0 := by
    refine Finset.sum_eq_zero fun n hn => ?_
    rw [if_pos (output_begin S (Finset.mem_range.mp hn))]
  have hkept := loop_keeps (P := fun x k => x.1.outs.size = S.size ∧
    S.begin.waiting.toList.length + S.awakened x.1 ≤ k + x.2.length) ?_ ⟨by simp [begin], ?_⟩ h
  · simpa using hkept.2
  · rintro f n rest k _ ⟨houts, hcount⟩
    have hwoken : S.awakened (S.revise f n) ≤ S.awakened f + (S.woken f n).length :=
      awakened_revise houts n
    refine ⟨size_outs_revise.trans houts, ?_⟩
    simp only [List.length_append, List.length_cons] at hcount ⊢
    omega
  · rw [hstart]
    exact Nat.le_add_left _ _

/-- Where the solver ends, no node has a fault. -/
theorem fault_eq_none (h : S.solve limit = (t, none)) {n : Nat} (hn : n < S.size)
    (hb : S.isBoundary n = false) : S.fault n (t.facts.input n) = none := by
  have hkept := loop_keeps (P := fun x _ => x.1.ins.size = S.size ∧
    ∀ n < S.size, S.isBoundary n = false → n ∉ x.2 → S.fault n (x.1.input n) = none) ?_
    ⟨by simp [begin], ?_⟩ h
  · exact hkept.2 n hn hb List.not_mem_nil
  · intro f k rest _ hfault hk
    refine ⟨size_ins_revise.trans hk.1, fun n hn hb hnot => ?_⟩
    by_cases hkn : n = k
    · subst hkn
      rwa [input_revise_self hk.1 hn]
    · rw [input_revise_of_ne hkn]
      refine hk.2 n hn hb fun hmem => hnot (List.mem_append_left _ ?_)
      exact (List.mem_cons.mp hmem).resolve_left hkn
  · exact fun n hn hb hnot => absurd (S.mem_waiting_begin.mpr ⟨hn, hb⟩) hnot

variable [PartialOrder F]

/-- What a loop that ends has visited is paid for by the potential that it used up. -/
theorem loop_iterations (hS : S.Lawful) (hU : S.Keeps U) (hr : Ranked U rank height)
    (hs : S.Inv (s.facts, s.waiting.toList)) (hw : Within U (s.facts, s.waiting.toList))
    (h : S.loop limit fuel s = (t, none)) :
    t.iterations + S.climb rank height t.facts ≤
      s.iterations + S.potential rank height (s.facts, s.waiting.toList) := by
  have hkept := loop_keeps (P := fun x k => S.Inv x ∧ Within U x ∧ k + S.potential rank height x ≤
    s.iterations + S.potential rank height (s.facts, s.waiting.toList)) ?_ ⟨hs, hw, le_rfl⟩ h
  · simpa [potential] using hkept.2.2
  · rintro f n rest k _ ⟨hinv, hwithin, hpaid⟩
    have hturn : S.Turn (f, n :: rest) _ := .visit (List.Perm.refl _)
    have hless := potential_turn hS hU hr hinv hwithin hturn
    exact ⟨hinv.turn hS hturn, hwithin.turn hS hU hinv hturn, by omega⟩

/-- The solver visits no more nodes than were waiting, and than its outputs have woken on their way
up. -/
theorem solve_iterations_le (hS : S.Lawful) (hU : S.Keeps U) (hr : Ranked U rank height)
    (h : S.solve limit = (t, none)) : t.iterations ≤ S.size + S.spent rank t.facts := by
  have hvisits := loop_iterations hS hU hr (inv_begin hS (List.Perm.refl _)) (within_begin hS hU) h
  have hwithin := (outcome_of_solve h).within hS hU
  have hspent := spent_add_climb (S := S) t.facts fun n => hr.rank_le _ (hwithin.output n)
  have hwhole := S.climb_le rank height S.begin.facts
  have hwaiting : S.begin.waiting.toList.length ≤ S.size := by
    simpa [begin] using List.length_filter_le (fun n => !S.isBoundary n) (List.range S.size)
  have hstart : S.begin.iterations = 0 := rfl
  unfold potential at hvisits
  dsimp only at hvisits
  omega

/-- Where no output climbs further than `level` of its node, the visits are within this bound. -/
theorem solve_iterations_le_of_level (hS : S.Lawful) (hU : S.Keeps U) (hr : Ranked U rank height)
    (h : S.solve limit = (t, none)) (level : Nat → Nat)
    (hlevel : ∀ n < S.size, rank (t.facts.output n) ≤ level n) :
    t.iterations ≤ S.size + ∑ n ∈ Finset.range S.size, level n * (S.dependents n).length := by
  refine (solve_iterations_le hS hU hr h).trans (Nat.add_le_add_left ?_ _)
  exact Finset.sum_le_sum fun n hn => Nat.mul_le_mul_right _ (hlevel n (Finset.mem_range.mp hn))

end System

/-! ## The variables of a method -/

namespace Method

/-- The variables that the method has to do with, each once. -/
def scope (m : Method) : List VarId := m.mentioned.dedup

/-- The method uses only variables of its own. -/
def OwnVars (m : Method) : Prop := ∀ v ∈ m.mentioned, v ∈ m.vars

instance (m : Method) : Decidable m.OwnVars :=
  decidable_of_iff (∀ v ∈ m.mentioned, v ∈ m.vars.toList) (by simp [OwnVars])

variable {m : Method}

@[simp]
theorem mem_scope {v : VarId} : v ∈ m.scope ↔ v ∈ m.mentioned := List.mem_dedup

/-- A method that uses only variables of its own has to do with no more than it has. -/
theorem OwnVars.length_scope_le (h : m.OwnVars) : m.scope.length ≤ m.vars.size := by
  have hsub : m.scope ⊆ m.vars.toList := fun v hv =>
    Array.mem_toList_iff.mpr (h v (mem_scope.mp hv))
  have hlen := ((List.nodup_dedup m.mentioned).subperm hsub).length_le
  rwa [Array.length_toList] at hlen

end Method

/-! ## Within a method -/

variable {p : Program} {cg : MethodCallGraph} {k : MethodId} {limit : Int} {c : Solution Fact}
  {live : Solution IdSet}

/-- Constant propagation visits the nodes of a method no more often than this. -/
theorem Constants.iterations_le (h : (analyze p k limit).start.1 = .ok c) :
    c.iterations ≤ (p.method k).numNodes + ∑ n ∈ Finset.range (p.method k).numNodes,
      2 * (p.method k).scope.length * ((Cfg.ofMethod (p.method k)).succs n).length := by
  rw [(analyze_yields p k limit).start] at h
  obtain ⟨s, rfl, hs⟩ := System.solve_of_verdict h
  have hr : System.Ranked {f | Plausible p (p.method k) f} _ (2 * (p.method k).scope.length) :=
    ranked_of_support fun f hf v hv => Method.mem_scope.mpr (hf.mentioned v hv)
  have hwithin := (System.outcome_of_solve hs).within (lawful p _) (keeps p _)
  exact System.solve_iterations_le_of_level (lawful p _) (keeps p _) hr hs _ fun n _ =>
    hr.rank_le _ (hwithin.output n)

/-- Liveness visits the nodes of a method no more often than this. -/
theorem Liveness.iterations_le (h : (analyze p k limit).start.1 = .ok live) :
    live.iterations ≤ (p.method k).numNodes + ∑ n ∈ Finset.range (p.method k).numNodes,
      (p.method k).scope.length * ((Cfg.ofMethod (p.method k)).preds n).length := by
  rw [(analyze_yields p k limit).start] at h
  obtain ⟨s, rfl, hs⟩ := System.solve_of_verdict h
  have hr : System.Ranked {live | ∀ v ∈ live, v ∈ (p.method k).mentioned} _ (p.method k).scope.length :=
    ranked_of_support fun live hlive v hv => Method.mem_scope.mpr (hlive v hv)
  have hwithin := (System.outcome_of_solve hs).within (lawful _) (keeps _)
  exact System.solve_iterations_le_of_level (lawful _) (keeps _) hr hs _ fun n _ =>
    hr.rank_le _ (hwithin.output n)

/-! ## Over a supergraph -/

namespace Interprocedural

/-- The levels of the variables of a fact about a list of variables add up to two for each at most, over
however many variables they are added. -/
theorem sum_level_le {f : Fact} {vs : List VarId} (hf : ∀ v, f.get v ≠ .undefined → v ∈ vs) (size : Nat) :
    ((List.range size).map fun v => (f.get v).level).sum ≤ 2 * vs.length := by
  have hsum : ((List.range size).map fun v => (f.get v).level).sum =
      ∑ v ∈ Finset.range size, (f.get v).level := rfl
  calc ((List.range size).map fun v => (f.get v).level).sum
      ≤ ∑ v ∈ Finset.range size, if v ∈ vs then 2 else 0 := by
        rw [hsum]
        refine Finset.sum_le_sum fun v _ => ?_
        by_cases hv : f.get v = .undefined
        · rw [hv]
          exact Nat.zero_le _
        · rw [if_pos (hf v hv)]
          exact Value.level_le_two _
    _ ≤ ∑ v ∈ vs.toFinset, 2 := by
        rw [← Finset.sum_filter]
        refine Finset.sum_le_sum_of_subset fun v hv => ?_
        exact List.mem_toFinset.mpr (Finset.mem_filter.mp hv).2
    _ ≤ 2 * vs.length := by
        rw [Finset.sum_const, Nat.nsmul_eq_mul, Nat.mul_comm]
        exact Nat.mul_le_mul_left _ vs.toFinset_card_le

/-- What holds after a node of a supergraph is about the variables of the method of the node. -/
theorem mem_mentioned_of_output (hp : p.WellFormed) (hcg : cg.Built) {s : Facts Fact}
    (h : (system p (.ofCallGraph p cg)).Outcome s) {n : Node}
    (hn : n ∈ (Supergraph.ofCallGraph p cg).nodes) {v : VarId}
    (hv : (s.output ((Supergraph.ofCallGraph p cg).number n)).get v ≠ .undefined) :
    v ∈ (p.method n.method).mentioned := by
  obtain ⟨a, ha⟩ := Constants.exists_outcomes p
  have hle := output_le_within hp hcg h ha hn v
  have hplausible := ((ha n.method).within (Constants.lawful p _) (Constants.keeps p _)).output n.node
  refine hplausible.mentioned v fun hundefined => hv ?_
  rw [hundefined] at hle
  exact Value.eq_undefined_of_le hle

/-- A result is that of a run of the solver, with its number of visits. -/
theorem solve_of_analyze {g : Supergraph} (h : (analyze p g limit).start.1 = .ok c) :
    ∃ s, (system p g).solve limit = (s, none) ∧ c.iterations = s.iterations := by
  rw [analyze, (solve_yields p g (system p g) limit).start] at h
  split at h
  · cases h
  · obtain ⟨s, rfl, hs⟩ := System.solve_of_verdict h
    exact ⟨s, hs, rfl⟩

/-- Constant propagation visits the nodes of a supergraph no more often than this. -/
theorem iterations_le (hp : p.WellFormed) (hcg : cg.Built)
    (h : (analyze p (.ofCallGraph p cg) limit).start.1 = .ok c) :
    c.iterations ≤ (Supergraph.ofCallGraph p cg).nodes.size +
      ∑ i ∈ Finset.range (Supergraph.ofCallGraph p cg).nodes.size,
        2 * (p.method ((Supergraph.ofCallGraph p cg).nodeAt i).method).scope.length *
          ((Supergraph.ofCallGraph p cg).succs ((Supergraph.ofCallGraph p cg).nodeAt i)).length := by
  set g := Supergraph.ofCallGraph p cg with hgraph
  have hg : g.Indexed := Supergraph.indexed_ofCallGraph hp hcg
  obtain ⟨s, hs, hcount⟩ := solve_of_analyze h
  have hbound := System.solve_iterations_le_of_level (lawful hg) (keeps hp) (ranked p) hs
    (fun i => 2 * (p.method (g.nodeAt i).method).scope.length) fun i hi => ?_
  · rw [hcount]
    simpa only [system, List.length_map] using hbound
  · -- the facts after a node are about the variables of its method
    refine sum_level_le (fun v hv => Method.mem_scope.mpr ?_) _
    refine mem_mentioned_of_output hp hcg (System.outcome_of_solve hs) (Supergraph.nodeAt_mem hi) ?_
    rwa [hg.number_nodeAt i hi]

end Interprocedural

/-! ## A method that uses the variables of another -/

namespace Doubled

def main : MethodId := 0

def other : MethodId := 1

/-- `main` sets a variable to one and applies an operator to it twice. Its variables belong to the method
`owner`. -/
def builder (op : BinaryOp) (owner : MethodId) : Builder :=
  let b := (({} : Builder).addClass "Main" .concrete none []).1
  let b := (b.addMethod 0 { name := "main", isStatic := true }).1
  let b := (b.addMethod 0 { name := "other", isStatic := true }).1
  let b := (b.addVar owner "one" (.prim .int)).1
  let b := (b.addVar owner "two" (.prim .int)).1
  let b := b.add main (.literal 0 1)
  let b := b.add main (.binary 1 op 0 0)
  let b := b.add main (.ret none)
  b.add other (.ret none)

/-- What the builder makes of it. -/
def program (op : BinaryOp) (owner : MethodId) : Program where
  classes := #[
    { name := "Main", super := none, isAbstract := false, isInterface := false, methods := #[0, 1] }]
  fields := #[]
  vars := #[
    { name := "one", ty := .prim .int, method := owner, index := 0 },
    { name := "two", ty := .prim .int, method := owner, index := 1 }]
  methods := #[
    { name := "main", cls := 0, isStatic := true, isAbstract := false, subsig := "main()",
      returns := none, receiver := none, params := #[],
      vars := if owner = main then #[0, 1] else #[], pos := none,
      body := #[
        { stmt := .literal 0 1, pos := none },
        { stmt := .binary 1 op 0 0, pos := none },
        { stmt := .ret none, pos := none }] },
    { name := "other", cls := 0, isStatic := true, isAbstract := false, subsig := "other()",
      returns := none, receiver := none, params := #[],
      vars := if owner = other then #[0, 1] else #[], pos := none,
      body := #[{ stmt := .ret none, pos := none }] }]
  entries := [0]
  index :=
    { vars := #[{}, {}]
      bodies := #[
        { indices := #[0, 1, 2], entry := some (-1), exit := some 3 },
        { indices := #[0], entry := some (-1), exit := some 1 }] }

theorem build_undeclared : (builder (.undeclared 99) main).build = .ok (program (.undeclared 99) main) := by
  decide +kernel

theorem build_other : (builder .add other).build = .ok (program .add other) := by decide +kernel

variable {op : BinaryOp} {owner : MethodId} {s : Facts Fact}

theorem statements_eq : (program op owner).statements =
    [(⟨main, 0⟩, .literal 0 1), (⟨main, 1⟩, .binary 1 op 0 0), (⟨main, 2⟩, .ret none),
      (⟨other, 0⟩, .ret none)] := rfl

theorem callAt?_eq (site : Site) : (program op owner).callAt? site = none := by
  rw [Option.eq_none_iff_forall_ne_some]
  intro call hcall
  obtain ⟨x, hs⟩ := Program.stmt?_of_callAt? hcall
  simpa [statements_eq] using Program.mem_statements hs

theorem op_eq {n : Node} {x y z : VarId} {op' : BinaryOp}
    (h : (program op owner).stmtAt n = .binary x op' y z) : op' = op := by
  obtain ⟨i, -, hs⟩ := Method.exists_stmt?_of_stmtAt h nofun
  have hstmt : (program op owner).stmt? ⟨n.method, i⟩ = some (.binary x op' y z) := hs
  have hmem := Program.mem_statements hstmt
  simp only [statements_eq, List.mem_cons, Prod.mk.injEq, Stmt.binary.injEq, reduceCtorEq, and_false,
    false_or, List.not_mem_nil, or_false] at hmem
  exact hmem.2.2.1

/-- Only `main` is reachable. -/
def callGraph : MethodCallGraph := ((({} : MethodCallGraph).addEntry main).addReachable main).1

theorem built : callGraph.Built := .reach _ (.entry _ .empty)

theorem reachable_eq : callGraph.reachable = #[main] := by
  have hentry : (({} : MethodCallGraph).addEntry main).Consistent :=
    (CallGraph.Built.entry _ .empty).consistent
  rcases CallGraph.addReachable_eq hentry main with ⟨hmem, -⟩ | ⟨-, heq⟩
  · simp at hmem
  · rw [callGraph, heq]
    simp

def graph (op : BinaryOp) (owner : MethodId) : Supergraph := .ofCallGraph (program op owner) callGraph

theorem entries_eq : (graph op owner).entries = [main] := by
  simp [graph, Supergraph.ofCallGraph, callGraph, CallGraph.addEntry]

theorem toList_nodes_eq : (graph op owner).nodes.toList = (List.range 5).map fun n => ⟨main, n⟩ := by
  rw [graph, Supergraph.toList_nodes, reachable_eq]
  rfl

theorem size_nodes : (graph op owner).nodes.size = 5 := by
  rw [← Array.length_toList, toList_nodes_eq]
  rfl

theorem nodeAt_eq {n : Nat} (hn : n < 5) : (graph op owner).nodeAt n = ⟨main, n⟩ := by
  rw [Supergraph.nodeAt, Array.getD_eq_getD_getElem?, ← Array.getElem?_toList, toList_nodes_eq]
  simp [hn]

theorem node_mem {n : Nat} (hn : n < 5) : ⟨main, n⟩ ∈ (graph op owner).nodes := by
  rw [← nodeAt_eq hn]
  exact Supergraph.nodeAt_mem (size_nodes ▸ hn)

theorem indexed (hp : (program op owner).WellFormed) : (graph op owner).Indexed :=
  Supergraph.indexed_ofCallGraph hp built

theorem number_eq {n : Nat} (hn : n < 5) : (graph op owner).number ⟨main, n⟩ = n := by
  rw [← nodeAt_eq hn]
  exact Supergraph.number_nodeAt built (size_nodes ▸ hn)

/-- The equations of `main`. -/
abbrev system (op : BinaryOp) (owner : MethodId) : System Fact BinaryOp :=
  Interprocedural.system (program op owner) (graph op owner)

theorem size_eq : (system op owner).size = 5 := size_nodes

theorem isBoundary_eq {n : Nat} (hn : n < 5) : (system op owner).isBoundary n = (n == 0) := by
  show Interprocedural.isBoundary (graph op owner) ((graph op owner).nodeAt n) = _
  simp [Interprocedural.isBoundary, nodeAt_eq hn, entries_eq]

/-- Control falls through the first two statements. -/
theorem edge_mem (hp : (program op owner).WellFormed) {n : Nat} (hn : n = 1 ∨ n = 2) :
    ⟨⟨main, n⟩, ⟨main, n + 1⟩, .normal ⟨.fallThrough, n, n + 1⟩⟩ ∈
      (graph op owner).inEdges ((graph op owner).nodeAt (n + 1)) := by
  have hmain : main ∈ callGraph.reachable := by simp [reachable_eq]
  rw [nodeAt_eq (by omega)]
  refine (Supergraph.mem_inEdges hp built (node_mem (by omega))).mpr ⟨?_, rfl⟩
  rcases hn with rfl | rfl
  · exact .normal (n := 1) (e := ⟨.fallThrough, 1, 2⟩) hmain (List.mem_singleton.mpr rfl) rfl
  · exact .normal (n := 2) (e := ⟨.fallThrough, 2, 3⟩) hmain (List.mem_singleton.mpr rfl) rfl

theorem input_eq (hs : (system op owner).Solves s) {n : Nat} (hn : n < 5) (hpos : n ≠ 0) :
    s.input n = (system op owner).input s n :=
  hs.input n (size_eq ▸ hn) (by simpa [isBoundary_eq hn])

/-- After each node there is the effect of its statement. -/
theorem output_eq (hs : (system op owner).Solves s) {n : Nat} (hn : n < 5) (hpos : n ≠ 0) :
    s.output n = Interprocedural.transfer (program op owner) ((program op owner).stmtAt ⟨main, n⟩)
      (s.input n) := by
  rw [← nodeAt_eq hn]
  exact hs.output n (size_eq ▸ hn) (by simpa [isBoundary_eq hn])

theorem output_one (hs : (system op owner).Solves s) : (s.output 1).get 0 = .const 1 := by
  have hvar : (program op owner).holdsInt 0 = true := rfl
  rw [output_eq hs (by omega) (by omega),
    show (program op owner).stmtAt ⟨main, 1⟩ = .literal 0 1 from rfl]
  simp [Interprocedural.transfer, Constants.transfer, Constants.rhsValue, Stmt.call?, Stmt.defined?, hvar,
    Fact.get_update_self]

/-- Nothing else leads to the second statement. -/
theorem eq_of_mem_inEdges (hp : (program op owner).WellFormed) {e : SuperEdge}
    (he : e ∈ (graph op owner).inEdges ((graph op owner).nodeAt 2)) :
    e = ⟨⟨main, 1⟩, ⟨main, 2⟩, .normal ⟨.fallThrough, 1, 2⟩⟩ := by
  rw [nodeAt_eq (by omega)] at he
  obtain ⟨hjoins, htarget⟩ := (Supergraph.mem_inEdges hp built (node_mem (by omega))).mp he
  have hcall : ∀ {site k}, k ∈ (graph op owner).calleesOf site → False := by
    intro site k hk
    obtain ⟨-, hcall, -⟩ := (Supergraph.mem_calleesOf built.consistent).mp hk
    simp [callAt?_eq] at hcall
  cases hjoins with
  | @normal m n a hm ha _ =>
    obtain rfl : m = main := by simpa [reachable_eq] using hm
    obtain rfl := Method.source_of_mem_outEdges ha
    have hedge := Method.mem_edges.mpr ha
    rw [show ((program op owner).method main).edges = [⟨.entry, 0, 1⟩, ⟨.fallThrough, 1, 2⟩,
      ⟨.fallThrough, 2, 3⟩, ⟨.ret, 3, 4⟩] from rfl] at hedge
    simp only [Node.mk.injEq, true_and] at htarget
    simp only [List.mem_cons, List.not_mem_nil, or_false] at hedge
    rcases hedge with rfl | rfl | rfl | rfl <;> first | rfl | cases htarget
  | pass _ hsome => simp [callAt?_eq] at hsome
  | call hk => exact (hcall hk).elim
  | ret hk => exact (hcall hk).elim

theorem input_two (hp : (program op owner).WellFormed) (hs : (system op owner).Solves s) :
    s.input 2 = s.output 1 := by
  rw [input_eq hs (by omega) (by omega)]
  have hflow : s.output ((graph op owner).number ⟨main, 1⟩) = s.output 1 :=
    congrArg s.output (number_eq (by omega))
  refine (Interprocedural.isLUB_input s 2).unique ⟨?_, fun f hf => ?_⟩
  · rintro f ⟨e, he, rfl⟩
    obtain rfl := eq_of_mem_inEdges hp he
    exact hflow.le
  · exact hf ⟨_, edge_mem hp (Or.inl rfl), hflow⟩

theorem stmtAt_two : (program op owner).stmtAt ((graph op owner).nodeAt 2) = .binary 1 op 0 0 := by
  rw [nodeAt_eq (by omega)]
  rfl

/-- Both statements leave the first variable with its constant. -/
theorem output_const (hp : (program op owner).WellFormed) (hs : (system op owner).Solves s) {n : Nat}
    (hn : n = 1 ∨ n = 2) : (s.output n).get 0 = .const 1 := by
  rcases hn with rfl | rfl
  · exact output_one hs
  · have hvar : (program op owner).holdsInt 1 = true := rfl
    rw [← output_one hs, ← input_two hp hs, output_eq hs (by omega) (by omega), ← nodeAt_eq (by omega),
      stmtAt_two]
    simp [Interprocedural.transfer, Constants.transfer, Stmt.call?, Stmt.defined?, hvar,
      Fact.get_update_of_ne]

theorem succ_mem_dependents (hp : (program op owner).WellFormed) {n : Nat} (hn : n = 1 ∨ n = 2) :
    n + 1 ∈ ((system op owner).dependents n).filter fun d => !(system op owner).isBoundary d := by
  have hlt : n + 1 < (graph op owner).nodes.size := by
    rw [size_nodes]
    omega
  have hwakes := Interprocedural.source_wakes (p := program op owner) (indexed hp) hlt (edge_mem hp hn)
  rw [number_eq (by omega)] at hwakes
  refine List.mem_filter.mpr ⟨hwakes, ?_⟩
  rw [isBoundary_eq (by omega)]
  rfl

theorem length_waiting : (system op owner).begin.waiting.toList.length = 4 := by
  have hlist : (system op owner).begin.waiting.toList = (List.range 5).filter fun n => !(n == 0) := by
    simp only [System.begin, Queue.toList_ofList, size_eq]
    exact List.filter_congr fun n hn => by rw [isBoundary_eq (List.mem_range.mp hn)]
  rw [hlist]
  rfl

/-- The solver visits all four nodes behind the entry, and two of them twice. -/
theorem six_le_iterations (hp : (program op owner).WellFormed) {limit : Int} {t : SolverState Fact}
    (h : (system op owner).solve limit = (t, none)) : 6 ≤ t.iterations := by
  have hs := (System.outcome_of_solve h).solves (Interprocedural.lawful (indexed hp))
  -- a changed output makes the next node wait
  have hterm : ∀ n, n = 1 ∨ n = 2 → 1 ≤ (if t.facts.output n = (system op owner).start n then 0 else
      (((system op owner).dependents n).filter fun d => !(system op owner).isBoundary d).length) := by
    intro n hn
    have hbound : (system op owner).isBoundary n = false := by
      rcases hn with rfl | rfl <;> exact isBoundary_eq (by omega)
    rw [if_neg]
    · exact List.length_pos_of_mem (succ_mem_dependents hp hn)
    · intro heq
      have hconst := output_const hp hs hn
      rw [heq, (Interprocedural.lawful (indexed hp)).start_eq n hbound] at hconst
      cases hconst
  have hawakened : 2 ≤ (system op owner).awakened t.facts := by
    calc 2 ≤ ∑ n ∈ {1, 2}, _ := ?_
      _ ≤ (system op owner).awakened t.facts := Finset.sum_le_sum_of_subset ?_
    · rw [Finset.sum_pair (by decide)]
      exact Nat.add_le_add (hterm 1 (Or.inl rfl)) (hterm 2 (Or.inr rfl))
    · rw [size_eq]
      decide
  have hle := System.le_solve_iterations h
  rw [length_waiting] at hle
  omega

/-- An operator that does not exist is applied to constants. -/
theorem fault_two (hp : (program op owner).WellFormed) (hs : (system op owner).Solves s)
    (hop : op.isDeclared = false) : (system op owner).fault 2 (s.input 2) = some op := by
  have hvar : (program op owner).holdsInt 1 = true := rfl
  show Interprocedural.fault _ ((program op owner).stmtAt ((graph op owner).nodeAt 2)) _ = _
  rw [stmtAt_two, input_two hp hs]
  simp [Interprocedural.fault, Constants.fault, Stmt.call?, Value.faulty, Value.isConst, output_one hs,
    hvar, hop]

/-- So the analysis fails. -/
theorem analyze_undeclared (hp : (program op owner).WellFormed) (hop : op.isDeclared = false) :
    (Interprocedural.analyze (program op owner) (graph op owner) 0).start.1 =
      .error (.unknownOperator op) := by
  have hends := Interprocedural.analyze_ends hp (indexed hp) (le_refl 0)
  cases hr : (Interprocedural.analyze (program op owner) (graph op owner) 0).start.1 with
  | ok c =>
    obtain ⟨t, ht, -⟩ := Interprocedural.solve_of_analyze hr
    have hs := (System.outcome_of_solve ht).solves (Interprocedural.lawful (indexed hp))
    have hnone := System.fault_eq_none ht (n := 2) (size_eq ▸ by omega) (isBoundary_eq (by omega))
    cases hnone.symm.trans (fault_two hp hs hop)
  | error e =>
    rw [hr] at hends
    cases hends with
    | noEntry hnone => cases entries_eq.symm.trans hnone
    | operator _ hs _ => rw [op_eq hs]

/-- Where the variables belong to the other method, the bound for those of `main` is the number of nodes. -/
theorem bound_eq : (graph op other).nodes.size + ∑ i ∈ Finset.range (graph op other).nodes.size,
    2 * ((program op other).method ((graph op other).nodeAt i).method).vars.size *
      ((graph op other).succs ((graph op other).nodeAt i)).length = 5 := by
  rw [size_nodes, Nat.add_eq_left]
  refine Finset.sum_eq_zero fun i hi => ?_
  rw [nodeAt_eq (Finset.mem_range.mp hi), show ((program op other).method main).vars.size = 0 from rfl,
    Nat.mul_zero, Nat.zero_mul]

end Doubled

/-! ## The bounds of the lattices -/

/-- Sums of products grow with their first factors. -/
theorem sum_mul_le {size : Nat} {f f' : Nat → Nat} (h : ∀ i < size, f i ≤ f' i) (w : Nat → Nat) :
    ∑ i ∈ Finset.range size, f i * w i ≤ ∑ i ∈ Finset.range size, f' i * w i :=
  Finset.sum_le_sum fun i hi => Nat.mul_le_mul_right _ (h i (Finset.mem_range.mp hi))

/-- Without a limit the solvers stop within the bounds of their lattices. Within a method that uses only
variables of its own, constant propagation climbs two steps for every variable, and liveness one. Over a
supergraph constant propagation stops too; its bound counts the variables that occur in the method of
each node, which are no more than its own where it uses no others. -/
theorem iterations_within_lattice (p : Program) :
    (∀ k, (p.method k).OwnVars → ∀ limit ≤ 0,
      ((p.method k).Declared → ∃ c, (Constants.analyze p k limit).start.1 = .ok c ∧
        c.iterations ≤ (p.method k).numNodes + ∑ n ∈ Finset.range (p.method k).numNodes,
          2 * (p.method k).vars.size * ((Cfg.ofMethod (p.method k)).succs n).length) ∧
      ∃ live, (Liveness.analyze p k limit).start.1 = .ok live ∧
        live.iterations ≤ (p.method k).numNodes + ∑ n ∈ Finset.range (p.method k).numNodes,
          (p.method k).vars.size * ((Cfg.ofMethod (p.method k)).preds n).length) ∧
    ∀ cg g, p.WellFormed → cg.Built → g = Supergraph.ofCallGraph p cg → ∀ limit ≤ 0,
      Interprocedural.Ends p g (Interprocedural.analyze p g limit).start.1 ∧
      ∀ c, (Interprocedural.analyze p g limit).start.1 = .ok c →
        c.iterations ≤ g.nodes.size + ∑ i ∈ Finset.range g.nodes.size,
          2 * (p.method (g.nodeAt i).method).scope.length * (g.succs (g.nodeAt i)).length ∧
        ((∀ m ∈ g.methods, (p.method m).OwnVars) →
          c.iterations ≤ g.nodes.size + ∑ i ∈ Finset.range g.nodes.size,
            2 * (p.method (g.nodeAt i).method).vars.size * (g.succs (g.nodeAt i)).length) := by
  constructor
  · intro k hown limit hlimit
    have hscope := hown.length_scope_le
    constructor
    · intro hops
      obtain ⟨c, hc⟩ := Constants.analyze_succeeds hops hlimit
      refine ⟨c, hc, (Constants.iterations_le hc).trans (Nat.add_le_add_left ?_ _)⟩
      exact sum_mul_le (fun _ _ => Nat.mul_le_mul_left 2 hscope) _
    · obtain ⟨live, hlive⟩ := Liveness.analyze_succeeds p k hlimit
      refine ⟨live, hlive, (Liveness.iterations_le hlive).trans (Nat.add_le_add_left ?_ _)⟩
      exact sum_mul_le (fun _ _ => hscope) _
  · rintro cg g hp hcg rfl limit hlimit
    have hg := Supergraph.indexed_ofCallGraph hp hcg
    refine ⟨Interprocedural.analyze_ends hp hg hlimit, fun c hc => ?_⟩
    have hbound := Interprocedural.iterations_le hp hcg hc
    refine ⟨hbound, fun hown => hbound.trans (Nat.add_le_add_left ?_ _)⟩
    refine sum_mul_le (fun i hi => Nat.mul_le_mul_left 2 (hown _ ?_).length_scope_le) _
    exact Array.mem_toList_iff.mpr (Supergraph.mem_nodes.mp (Supergraph.nodeAt_mem hi)).1

/-- The solvers stop within their bounds on a loop, and across the call that puts a number into a
box. -/
theorem iterations_within_lattice_boxed :
    (∃ c, (Constants.analyze Countdown.program 0 0).start.1 = .ok c ∧
      c.iterations ≤ 7 + ∑ n ∈ Finset.range 7,
        2 * 3 * ((Cfg.ofMethod (Countdown.program.method 0)).succs n).length) ∧
    ∃ c, (Interprocedural.analyze Boxed.program Boxed.graph 0).start.1 = .ok c ∧
      c.iterations ≤ Boxed.graph.nodes.size + ∑ i ∈ Finset.range Boxed.graph.nodes.size,
        2 * (Boxed.program.method (Boxed.graph.nodeAt i).method).vars.size *
          (Boxed.graph.succs (Boxed.graph.nodeAt i)).length := by
  constructor
  · obtain ⟨hwithin, -⟩ := iterations_within_lattice Countdown.program
    exact (hwithin 0 (by decide) 0 le_rfl).1 Countdown.declared
  · obtain ⟨-, hacross⟩ := iterations_within_lattice Boxed.program
    obtain ⟨hends, hbound⟩ := hacross Boxed.callGraph Boxed.graph Boxed.wellFormed Boxed.built rfl 0 le_rfl
    obtain ⟨c, hc⟩ := hends.solved Boxed.entries_ne_nil Boxed.declared
    refine ⟨c, hc, (hbound c hc).2 fun m hm => ?_⟩
    rcases Boxed.mem_reachable.mp (Array.mem_toList_iff.mp hm) with rfl | rfl <;> decide

/-- Two programs that the builder accepts. In the first, `main` applies an operator that does not exist to
constants, and the analysis over its supergraph fails. In the second, `main` has no variables but uses two
of another method, and the analysis over its supergraph visits more nodes than there are. -/
theorem not_within_bounds_doubled :
    Doubled.callGraph.Built ∧
    ((Doubled.builder (.undeclared 99) Doubled.main).build =
        .ok (Doubled.program (.undeclared 99) Doubled.main) ∧
      (Interprocedural.analyze (Doubled.program (.undeclared 99) Doubled.main)
        (Doubled.graph (.undeclared 99) Doubled.main) 0).start.1 =
        .error (.unknownOperator (.undeclared 99))) ∧
    (Doubled.builder .add Doubled.other).build = .ok (Doubled.program .add Doubled.other) ∧
    ∃ c, (Interprocedural.analyze (Doubled.program .add Doubled.other)
        (Doubled.graph .add Doubled.other) 0).start.1 = .ok c ∧
      (Doubled.graph .add Doubled.other).nodes.size +
          ∑ i ∈ Finset.range (Doubled.graph .add Doubled.other).nodes.size,
            2 * ((Doubled.program .add Doubled.other).method
                ((Doubled.graph .add Doubled.other).nodeAt i).method).vars.size *
              ((Doubled.graph .add Doubled.other).succs ((Doubled.graph .add Doubled.other).nodeAt i)).length <
        c.iterations := by
  have hundeclared : (Doubled.program (.undeclared 99) Doubled.main).WellFormed :=
    Program.wellFormed_of_methods (by decide)
  have hother : (Doubled.program .add Doubled.other).WellFormed := Program.wellFormed_of_methods (by decide)
  refine ⟨Doubled.built, ⟨Doubled.build_undeclared, Doubled.analyze_undeclared hundeclared rfl⟩,
    Doubled.build_other, ?_⟩
  obtain ⟨c, hc⟩ := (Interprocedural.analyze_ends hother (Doubled.indexed hother) (le_refl 0)).solved
    (by simp [Doubled.entries_eq]) (Interprocedural.declared_of_methods (by decide))
  obtain ⟨t, ht, hcount⟩ := Interprocedural.solve_of_analyze hc
  refine ⟨c, hc, ?_⟩
  rw [Doubled.bound_eq, hcount]
  exact Doubled.six_le_iterations hother ht

end WholeProgram
