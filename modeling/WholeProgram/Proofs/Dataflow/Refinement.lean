import WholeProgram.Proofs.Dataflow.Aliases

/-!
# Each constant propagation refines the one before it

Constants within the methods, over a supergraph, and with the aliases of a pointer analysis are least
solutions of different equations. A solution of the coarser equations gives facts that are no further
down than the finer ones ask for, and the finer analysis stays below all of these.

* `enterCallee_le`, `flow_le` — what flows along an edge is below what holds within a method before its
  target;
* `bounds_of_methods` — solutions within all methods bound those over the supergraph;
* `bounds_of_plain` — a solution without aliases bounds those with them;
* `analyses_refine` — so the results refine each other.
-/

namespace WholeProgram

variable {p : Program} {g : Supergraph} {cg : MethodCallGraph}

namespace Interprocedural

/-! ## Within the methods and across them -/

/-- What enters a callee is about its receiver and its parameters. -/
theorem enterCallee_le (p : Program) (s : Site) (k : MethodId) (f : Fact) :
    enterCallee p s k f ≤ Constants.entryFact (p.method k) := by
  refine enterCallee_induction (P := (· ≤ Constants.entryFact (p.method k))) bot_le
    fun c x a hc hx v => ?_
  by_cases hv : x = v
  · subst hv
    rw [Constants.get_entryFact, if_pos hx]
    exact Value.le_nac _
  · rw [Fact.get_update_of_ne _ _ hv]
    exact hc v

/-- The fact after a call within a method does not know the result. -/
theorem get_result_eq_nac {a : Assignment Fact} {s : Site} {x : VarId}
    (h : Constants.Equations p (p.method s.method) a) (hx : p.resultOf? s = some x)
    (hint : p.holdsInt x = true) (hcall : (p.callAt? s).isSome = true) :
    (a.after (s.index + 1)).get x = .nac := by
  rw [Program.resultOf?_eq] at hx
  rw [Program.callAt?_eq] at hcall
  have hlt : s.index + 1 < (p.method s.method).numNodes := by
    refine Nat.lt_succ_of_lt (Method.lt_exit_of_stmtAt_ne fun hnop => ?_)
    rw [show p.stmtAt s.node = .nop from hnop] at hcall
    cases hcall
  rw [h.after _ hlt (Nat.succ_ne_zero _)]
  refine (Constants.get_transfer_defined _ hx hint).trans ?_
  cases hs : p.stmtAt s.node with
  | invoke => rfl
  | _ =>
    rw [hs] at hcall
    cases hcall

theorem passCall_le {a : Assignment Fact} {s : Site}
    (h : Constants.Equations p (p.method s.method) a) (hcall : (p.callAt? s).isSome = true) :
    passCall p g s (a.after (s.index + 1)) ≤ a.after (s.index + 1) := by
  intro v
  rw [get_passCall]
  split
  · rename_i hx
    split
    · rename_i hnone
      rw [get_result_eq_nac h hx (Bool.and_eq_true_iff.mp hnone).2 hcall]
    · exact Value.undefined_le _
  · exact le_rfl

theorem leaveCallee_le {a : Assignment Fact} {s : Site}
    (h : Constants.Equations p (p.method s.method) a) (hcall : (p.callAt? s).isSome = true)
    (k : MethodId) (f : Fact) : leaveCallee p s k f ≤ a.after (s.index + 1) := by
  unfold leaveCallee
  split
  · exact bot_le
  · rename_i x hx
    split
    · rename_i hint
      have hupdate : ∀ d, Fact.empty.update x d ≤ a.after (s.index + 1) := by
        intro d v
        by_cases hv : x = v
        · subst hv
          rw [get_result_eq_nac h hx hint hcall]
          exact Value.le_nac _
        · rw [Fact.get_update_of_ne _ _ hv, Fact.get_empty]
          exact Value.undefined_le _
      split <;> exact hupdate _
    · exact bot_le

/-- What happens at a call within a method includes what happens there between the methods. -/
theorem transfer_le (p : Program) (s : Stmt Nat) (f : Fact) : transfer p s f ≤ Constants.transfer p s f := by
  unfold transfer
  split
  · rename_i c hc
    cases s with
    | invoke x =>
      intro v
      by_cases hv : x = some v
      · by_cases hint : p.holdsInt v = true
        · rw [Constants.get_transfer_defined f (s := .invoke x _) hv hint]
          exact Value.le_nac _
        · rw [Constants.get_transfer_untracked f hint]
      · rw [Constants.get_transfer_of_ne f (s := .invoke x _) hv]
    | _ => cases hc
  · exact le_rfl

/-- What holds within a method before a node; before an entry, what holds after it. -/
def beforeWithin (a : MethodId → Assignment Fact) (n : Node) : Fact :=
  if n.node = 0 then (a n.method).after 0 else (a n.method).before n.node

/-- What holds within a method after a node. -/
def afterWithin (a : MethodId → Assignment Fact) (n : Node) : Fact := (a n.method).after n.node

variable {a : MethodId → Assignment Fact}

theorem flow_le (hp : p.WellFormed) (hcg : cg.Built)
    (ha : ∀ m, Constants.Equations p (p.method m) (a m)) {e : SuperEdge}
    (he : Supergraph.Joins p cg e) :
    flow p g e.link (afterWithin a e.source) ≤ beforeWithin a e.target := by
  have hstep : ∀ {m : MethodId} {n : Nat} {e : Edge}, e ∈ (p.method m).outEdges n →
      (a m).after n ≤ beforeWithin a ⟨m, e.target⟩ := by
    intro m n e he
    have hsource := Method.source_of_mem_outEdges he
    have hmem : e ∈ (p.method m).edges := Method.mem_edges.mpr (hsource ▸ he)
    have hne := Method.target_ne_zero_of_mem_outEdges he
    rw [beforeWithin, if_neg hne]
    exact ((ha m).before _ (hp.targets m e hmem) hne).1 ⟨e, hmem, rfl, by rw [hsource]⟩
  cases he with
  | normal _ he _ => exact hstep he
  | pass _ hcall he => exact (passCall_le (ha _) hcall).trans (hstep he)
  | call hk =>
    refine (enterCallee_le _ _ _ _).trans_eq ?_
    exact (ha _).entry.symm
  | ret hk he =>
    obtain ⟨-, hcall, -⟩ := (Supergraph.mem_calleesOf hcg.consistent).mp hk
    exact (leaveCallee_le (ha _) hcall _ _).trans (hstep he)

/-- Solutions within all methods are no further down than the equations over the supergraph ask for. -/
theorem bounds_of_methods (hp : p.WellFormed) (hcg : cg.Built)
    (ha : ∀ m, Constants.Equations p (p.method m) (a m)) :
    (system p (.ofCallGraph p cg)).Bounds (Facts.ofFns (Supergraph.ofCallGraph p cg).nodes.size
      (fun i => beforeWithin a ((Supergraph.ofCallGraph p cg).nodeAt i))
      (fun i => afterWithin a ((Supergraph.ofCallGraph p cg).nodeAt i))) := by
  set g := Supergraph.ofCallGraph p cg
  have hg : g.Indexed := Supergraph.indexed_ofCallGraph hp hcg
  refine ⟨fun i hi hb => ?_, fun i hi hb => ?_, fun i hi hb => ?_⟩ <;>
    have hi : i < g.nodes.size := hi
  · rw [Facts.output_ofFns _ _ hi]
    refine (if_pos hb).trans_le ?_
    have hzero : (g.nodeAt i).node = 0 := by simpa using (Bool.and_eq_true_iff.mp hb).1
    rw [afterWithin, hzero, (ha _).entry]
  · rw [Facts.input_ofFns _ _ hi]
    refine (isLUB_input _ i).2 ?_
    rintro f ⟨e, he, rfl⟩
    obtain ⟨hjoins, htarget⟩ := (Supergraph.mem_inEdges hp hcg (Supergraph.nodeAt_mem hi)).mp he
    have hsource := hjoins.source_mem hcg.consistent
    rw [Facts.output_ofFns _ _ (hg.number_lt _ hsource), hg.nodeAt_number _ hsource, ← htarget]
    exact flow_le hp hcg ha hjoins
  · rw [Facts.input_ofFns _ _ hi, Facts.output_ofFns _ _ hi]
    refine (transfer_le p _ _).trans ?_
    rcases hn : g.nodeAt i with ⟨m, _ | k⟩
    · exact le_rfl
    · refine le_of_eq ?_
      have hlt := (Supergraph.mem_nodes.mp (Supergraph.nodeAt_mem hi)).2
      rw [hn] at hlt
      exact ((ha m).after _ hlt (Nat.succ_ne_zero _)).symm

end Interprocedural

namespace Aliases

/-! ## With aliases and without -/

/-- Without aliases nothing is known of what is loaded. -/
theorem update_le_transfer {s : Stmt Nat} {x : VarId} (hx : intLoad? p s = some x) (f : Fact) (d : Value) :
    f.update x d ≤ Interprocedural.transfer p s f := by
  obtain ⟨hdef, hint⟩ := intLoad?_spec hx
  have hplain : Interprocedural.transfer p s f = Constants.transfer p s f ∧
      Constants.rhsValue s f = .nac := by
    unfold intLoad? at hx
    split at hx
    · exact ⟨rfl, rfl⟩
    · exact ⟨rfl, rfl⟩
    · cases hx
  rw [hplain.1]
  intro v
  by_cases hv : x = v
  · subst hv
    rw [Constants.get_transfer_defined f hdef hint, hplain.2]
    exact Value.le_nac _
  · rw [Fact.get_update_of_ne _ _ hv, Constants.get_transfer_of_ne f]
    rw [hdef]
    exact mt Option.some.inj hv

/-- A solution without aliases is no further down than the equations with them ask for. -/
theorem bounds_of_plain {pts : VarId → IdSet} {s : Facts Fact}
    (h : (Interprocedural.system p g).Solves s) : (system p g pts).Bounds s where
  boundary := h.bounds.boundary
  input := h.bounds.input
  output i hi hb := by
    refine le_trans ?_ (h.bounds.output i hi hb)
    rw [transfer_eq]
    show _ ≤ Interprocedural.transfer p (p.stmtAt (g.nodeAt i)) (s.input i)
    cases hx : intLoad? p (p.stmtAt (g.nodeAt i)) with
    | none => exact le_rfl
    | some x => exact update_le_transfer hx _ _

end Aliases

/-! ## The analyses -/

variable {r : PointsTo.Result} {limit limit' : Int} {c c' : Solution Fact}

/-- What holds after a node over the supergraph is no more than what holds there within its method. -/
theorem Interprocedural.output_le_within (hp : p.WellFormed) (hcg : cg.Built) {t : Facts Fact}
    (ht : (system p (.ofCallGraph p cg)).Outcome t) {s : MethodId → Facts Fact}
    (hs : ∀ m, (Constants.systemOf p (p.method m)).Outcome (s m)) {n : Node}
    (hn : n ∈ (Supergraph.ofCallGraph p cg).nodes) :
    t.output ((Supergraph.ofCallGraph p cg).number n) ≤ (s n.method).output n.node := by
  have hg := Supergraph.indexed_ofCallGraph hp hcg
  have hequations : ∀ m, Constants.Equations p (p.method m) ⟨(s m).input, (s m).output⟩ := fun m =>
    (Constants.leastSolution_of_outcome (hs m)).solves
  have hbelow := ht.below (lawful hg) (bounds_of_methods hp hcg hequations)
  have hle := hbelow.output ((Supergraph.ofCallGraph p cg).number n)
  rwa [Facts.output_ofFns _ _ (hg.number_lt n hn), hg.nodeAt_number n hn] at hle

/-- Every method has its solution, whatever becomes of the analysis of it. -/
theorem Constants.exists_outcomes (p : Program) :
    ∃ s : MethodId → Facts Fact, ∀ m, (systemOf p (p.method m)).Outcome (s m) :=
  Classical.axiomOfChoice fun m =>
    System.exists_outcome (lawful p (p.method m)) (keeps p _) (ranked p _)

/-- What is known after a node over the supergraph is known within its method or more. -/
theorem Interprocedural.outFact_le (hp : p.WellFormed) (hcg : cg.Built) {n : Node}
    (hn : n ∈ (Supergraph.ofCallGraph p cg).nodes)
    (hc : (Constants.analyze p n.method limit).start.1 = .ok c)
    (hc' : (analyze p (.ofCallGraph p cg) limit').start.1 = .ok c') :
    c'.outFact ((Supergraph.ofCallGraph p cg).number n) ≤ c.outFact n.node := by
  obtain ⟨s, hs⟩ := Constants.exists_outcomes p
  have hle := output_le_within hp hcg (outcome_of_solve hc') hs hn
  rwa [(hs n.method).unique (Constants.lawful p _) (Constants.outcome_of_ok hc)] at hle

/-- What is known before and after a node without aliases is known with them or more. -/
theorem Aliases.facts_le (hg : g.Indexed)
    (hc : (Interprocedural.analyze p g limit).start.1 = .ok c)
    (hc' : (analyze p g r limit').start.1 = .ok c') {n : Node} (hn : n ∈ g.nodes) :
    c'.inFact (g.number n) ≤ c.inFact (g.number n) ∧ c'.outFact (g.number n) ≤ c.outFact (g.number n) := by
  have hsolves := (Interprocedural.outcome_of_solve hc).solves (Interprocedural.lawful hg)
  have hbelow := (Interprocedural.outcome_of_solve (S := system p g (pointsToTable p r)) hc').below
    (lawful hg) (bounds_of_plain hsolves)
  exact ⟨hbelow.input _ (hg.number_lt n hn), hbelow.output _⟩

/-- Where all operators exist, the analyses of the methods of a supergraph have results. -/
theorem Constants.analyze_succeeds_of_graph {m : MethodId} (hm : m ∈ cg.reachable)
    (hops : Interprocedural.Declared p (.ofCallGraph p cg)) (hlimit : limit ≤ 0) :
    ∃ c, (analyze p m limit).start.1 = .ok c := by
  refine analyze_succeeds (fun n x op y z hs => ?_) hlimit
  have hlt := Method.lt_exit_of_stmtAt_ne (m := p.method m) (n := n) (by rw [hs]; nofun)
  exact hops ⟨m, n⟩ (Supergraph.mem_nodes.mpr ⟨hm, Nat.lt_succ_of_lt hlt⟩) x op y z hs

/-- Each constant propagation refines the one before it, at every node and for every variable. Without a
limit all of them have results, unless there is no entry or an operator does not exist. -/
theorem analyses_refine (hp : p.WellFormed) (hcg : cg.Built) (r : PointsTo.Result) :
    (∀ n ∈ (Supergraph.ofCallGraph p cg).nodes, ∀ limit plain,
      (Interprocedural.analyze p (.ofCallGraph p cg) limit).start.1 = .ok plain → ∀ v,
      (∀ limit c, (Constants.analyze p n.method limit).start.1 = .ok c →
        (plain.outFact ((Supergraph.ofCallGraph p cg).number n)).get v ≤ (c.outFact n.node).get v) ∧
      ∀ limit c, (Aliases.analyze p (.ofCallGraph p cg) r limit).start.1 = .ok c →
        (c.inFact ((Supergraph.ofCallGraph p cg).number n)).get v ≤
          (plain.inFact ((Supergraph.ofCallGraph p cg).number n)).get v ∧
        (c.outFact ((Supergraph.ofCallGraph p cg).number n)).get v ≤
          (plain.outFact ((Supergraph.ofCallGraph p cg).number n)).get v) ∧
    ((Supergraph.ofCallGraph p cg).entries ≠ [] → Interprocedural.Declared p (.ofCallGraph p cg) →
      ∀ limit ≤ 0,
        (∀ m ∈ (Supergraph.ofCallGraph p cg).methods, ∃ c, (Constants.analyze p m limit).start.1 = .ok c) ∧
        (∃ c, (Interprocedural.analyze p (.ofCallGraph p cg) limit).start.1 = .ok c) ∧
        ∃ c, (Aliases.analyze p (.ofCallGraph p cg) r limit).start.1 = .ok c) := by
  have hg := Supergraph.indexed_ofCallGraph hp hcg
  constructor
  · intro n hn limit plain hplain v
    refine ⟨fun limit c hc => Interprocedural.outFact_le hp hcg hn hc hplain v, fun limit c hc => ?_⟩
    obtain ⟨hin, hout⟩ := Aliases.facts_le hg hplain hc hn
    exact ⟨hin v, hout v⟩
  · intro hentry hops limit hlimit
    refine ⟨fun m hm => ?_, ?_, ?_⟩
    · exact Constants.analyze_succeeds_of_graph (Array.mem_toList_iff.mp hm) hops hlimit
    · exact (Interprocedural.analyze_ends hp hg hlimit).solved hentry hops
    · exact (Aliases.analyze_ends hp hg hlimit).solved hentry hops

/-- What is found in the box is at most what the coarser analyses say. -/
theorem analyses_refine_boxed :
    ∃ r c plain aliases, (PointsTo.analyze Boxed.program {}).start.1 = .ok r ∧
      (Constants.analyze Boxed.program 0 0).start.1 = .ok c ∧
      (Interprocedural.analyze Boxed.program Boxed.graph 0).start.1 = .ok plain ∧
      (Aliases.analyze Boxed.program Boxed.graph r 0).start.1 = .ok aliases ∧
      (plain.outFact (Boxed.graph.number ⟨0, 5⟩)).get 3 ≤ (c.outFact 5).get 3 ∧
      (aliases.outFact (Boxed.graph.number ⟨0, 5⟩)).get 3 ≤
        (plain.outFact (Boxed.graph.number ⟨0, 5⟩)).get 3 := by
  obtain ⟨r, hr⟩ := Boxed.exists_pointers
  obtain ⟨hrefine, hexists⟩ := analyses_refine Boxed.wellFormed Boxed.built r
  obtain ⟨hall, ⟨plain, hplain⟩, aliases, haliases⟩ :=
    hexists Boxed.entries_ne_nil Boxed.declared 0 le_rfl
  obtain ⟨c, hc⟩ := hall 0 (Array.mem_toList_iff.mpr (Boxed.mem_reachable.mpr (Or.inl rfl)))
  obtain ⟨hcoarse, hfine⟩ := hrefine ⟨0, 5⟩ (Boxed.node_mem (Or.inl rfl) (by decide)) 0 plain hplain 3
  exact ⟨r, c, plain, aliases, hr, hc, hplain, haliases, hcoarse 0 c hc, (hfine 0 aliases haliases).2⟩

end WholeProgram
