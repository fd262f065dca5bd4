import WholeProgram.Dataflow.Interprocedural
import WholeProgram.Proofs.ControlFlow.Supergraph
import WholeProgram.Proofs.Dataflow.Constants

/-!
# The equations of interprocedural constant propagation

* `Flows` — what the facts before the nodes of a supergraph are to satisfy; `Equations` adds what the
  facts after them are to satisfy;
* `flow_mono`, `isLUB_input` — what flows along an edge depends monotonically on what is after its
  source, and the input of a node is the join over the edges into it;
* `lawful`, `keeps` — the system has the laws that make the solver find the least solution, and its
  facts are about the variables of the program;
* `leastSolution_of_outcome`, `analyze_ends` — so it does, and without a limit it has one unless there
  is no entry or an operator does not exist.
-/

namespace WholeProgram.Interprocedural

/-- Before the nodes of a supergraph: the receiver and the parameters of the entry methods are unknown,
and what holds before another node is the join of what flows along the edges into it. -/
structure Flows (p : Program) (g : Supergraph) (a : Assignment Fact) : Prop where
  entry : ∀ n ∈ g.nodes, isBoundary g n = true →
    a.after (g.number n) = Constants.entryFact (p.method n.method)
  before : ∀ n ∈ g.nodes, isBoundary g n = false →
    IsLUB {f | ∃ e ∈ g.inEdges n, flow p g e.link (a.after (g.number e.source)) = f}
      (a.before (g.number n))

/-- The facts of interprocedural constant propagation: after a node there is the effect of its
statement on what is before it. -/
structure Equations (p : Program) (g : Supergraph) (a : Assignment Fact) : Prop
    extends Flows p g a where
  after : ∀ n ∈ g.nodes, isBoundary g n = false →
    a.after (g.number n) = transfer p (p.stmtAt n) (a.before (g.number n))

variable {p : Program} {g : Supergraph}

/-- A node with a statement is no boundary. -/
theorem isBoundary_eq_false {n : Node} (h : p.stmtAt n ≠ .nop) : isBoundary g n = false := by
  obtain ⟨m, _ | i⟩ := n
  · exact absurd rfl h
  · rfl

/-! ## Flows -/

theorem get_passCall (s : Site) (f : Fact) (v : VarId) :
    (passCall p g s f).get v =
      if p.resultOf? s = some v then
        if (g.calleesOf s).isEmpty && p.holdsInt v then .nac else .undefined
      else f.get v := by
  unfold passCall
  cases hx : p.resultOf? s with
  | none => simp
  | some x =>
    dsimp only
    by_cases hempty : ((g.calleesOf s).isEmpty && p.holdsInt x) = true
    · rw [if_pos hempty, Fact.get_update]
      by_cases hv : x = v
      · rw [if_pos hv, if_pos (congrArg some hv), if_pos (hv ▸ hempty)]
      · rw [if_neg hv, if_neg (mt Option.some.inj hv)]
    · rw [if_neg hempty]
      refine (Fact.get_update f x v .undefined).trans ?_
      by_cases hv : x = v
      · rw [if_pos hv, if_pos (congrArg some hv), if_neg (hv ▸ hempty)]
      · rw [if_neg hv, if_neg (mt Option.some.inj hv)]

theorem passCall_mono (s : Site) {f f' : Fact} (h : f ≤ f') : passCall p g s f ≤ passCall p g s f' := by
  intro v
  rw [get_passCall, get_passCall]
  split
  · exact le_rfl
  · exact h v

/-- What enters a callee binds its receiver and its parameters only. -/
theorem enterCallee_induction {P : Fact → Prop} {s : Site} {k : MethodId} {f : Fact}
    (hempty : P Fact.empty)
    (hbind : ∀ c x a, P c → x ∈ (p.method k).receiver.toList ++ (p.method k).params.toList →
      P (c.update x a)) : P (enterCallee p s k f) := by
  have hfold : ∀ (bs : List (VarId × VarId)) (c : Fact), P c →
      (∀ b ∈ bs, b.2 ∈ (p.method k).params.toList) →
      P (bs.foldl (fun c b => if p.holdsInt b.2 then c.update b.2 (f.get b.1) else c) c) := by
    intro bs c hc hbs
    refine List.foldlRecOn bs _ hc fun c hc b hb => ?_
    split
    · exact hbind _ _ _ hc (List.mem_append_right _ (hbs b hb))
    · exact hc
  unfold enterCallee
  split
  · exact hempty
  · refine hfold _ _ ?_ fun b hb => (List.of_mem_zip hb).2
    split
    · rename_i r _ hr _
      exact hbind _ _ _ hempty (List.mem_append_left _ (by simp [hr]))
    · exact hempty

theorem enterCallee_mono (s : Site) (k : MethodId) {f f' : Fact} (h : f ≤ f') :
    enterCallee p s k f ≤ enterCallee p s k f' := by
  have hfold : ∀ (bs : List (VarId × VarId)) (c c' : Fact), c ≤ c' →
      bs.foldl (fun c b => if p.holdsInt b.2 then c.update b.2 (f.get b.1) else c) c ≤
        bs.foldl (fun c b => if p.holdsInt b.2 then c.update b.2 (f'.get b.1) else c) c' := by
    intro bs
    induction bs with
    | nil => exact fun _ _ hc => hc
    | cons b bs ih =>
      intro c c' hc
      refine ih _ _ ?_
      dsimp only
      split
      · exact Fact.update_mono _ hc (h _)
      · exact hc
  unfold enterCallee
  split
  · exact le_rfl
  · refine hfold _ _ _ ?_
    split
    · exact Fact.update_mono _ le_rfl (h _)
    · exact le_rfl

theorem leaveCallee_mono (s : Site) (k : MethodId) {f f' : Fact} (h : f ≤ f') :
    leaveCallee p s k f ≤ leaveCallee p s k f' := by
  unfold leaveCallee
  split
  · exact le_rfl
  · split
    · split
      · exact le_rfl
      · exact Fact.update_mono _ le_rfl (foldl_sup_mono (f := f.get) (g := f'.get) _ fun r _ => h r)
    · exact le_rfl

theorem flow_mono (link : Link) {f f' : Fact} (h : f ≤ f') : flow p g link f ≤ flow p g link f' := by
  cases link with
  | normal => exact h
  | callToReturn s _ => exact passCall_mono s h
  | call s k => exact enterCallee_mono s k h
  | ret s k => exact leaveCallee_mono s k h

theorem transfer_mono (s : Stmt Nat) {f f' : Fact} (h : f ≤ f') : transfer p s f ≤ transfer p s f' := by
  unfold transfer
  split
  · exact h
  · exact Constants.transfer_mono p s h

/-- A statement that defines nothing, and a call, change nothing. -/
theorem transfer_idle {s : Stmt Nat} (h : s.defined? = none ∨ s.call?.isSome = true) (f : Fact) :
    transfer p s f = f := by
  unfold transfer Constants.transfer
  rcases h with h | h
  · rw [h]
    split <;> rfl
  · obtain ⟨c, hc⟩ := Option.isSome_iff_exists.mp h
    rw [hc]

/-- Every other statement does what it does within its method. -/
theorem transfer_eq {s : Stmt Nat} (h : s.call? = none) (f : Fact) :
    transfer p s f = Constants.transfer p s f := by
  unfold transfer
  rw [h]

/-! ## The variables of the program -/

/-- A fact about the variables of the program. -/
def About (p : Program) (f : Fact) : Prop := ∀ v, f.get v ≠ .undefined → v < p.vars.size

theorem about_empty (p : Program) : About p Fact.empty := fun v h => absurd (Fact.get_empty v) h

theorem About.update {f : Fact} (hf : About p f) {x : VarId} (hx : x < p.vars.size) (a : Value) :
    About p (f.update x a) := by
  intro v hv
  by_cases hxv : x = v
  · exact hxv ▸ hx
  · rw [Fact.get_update_of_ne _ _ hxv] at hv
    exact hf v hv

theorem About.sup {f f' : Fact} (hf : About p f) (hf' : About p f') : About p (f ⊔ f') := by
  intro v hv
  rw [← Fact.join_eq_sup, Fact.get_join] at hv
  by_cases hfv : f.get v = .undefined
  · refine hf' v fun hundef => hv ?_
    rw [hfv, hundef]
    rfl
  · exact hf v hfv

theorem about_entryFact (hp : p.WellFormed) (m : MethodId) :
    About p (Constants.entryFact (p.method m)) :=
  fun v hv => hp.declared m v (Constants.plausible_entryFact (p := p).mentioned v hv)

theorem About.enterCallee (hp : p.WellFormed) (s : Site) (k : MethodId) (f : Fact) :
    About p (enterCallee p s k f) :=
  enterCallee_induction (about_empty p) fun _ x a hc hx =>
    hc.update (hp.declared k x (List.mem_append_left _ hx)) a

theorem About.flow (hp : p.WellFormed) {f : Fact} (hf : About p f) (link : Link) :
    About p (flow p g link f) := by
  cases link with
  | normal => exact hf
  | callToReturn s e =>
    intro v hv
    rw [Interprocedural.flow, get_passCall] at hv
    split at hv
    · split at hv
      · rename_i hint
        exact Program.lt_of_holdsInt (Bool.and_eq_true_iff.mp hint).2
      · exact absurd rfl hv
    · exact hf v hv
  | call s k => exact About.enterCallee hp s k f
  | ret s k =>
    show About p (leaveCallee p s k f)
    unfold leaveCallee
    split
    · exact about_empty p
    · split
      · rename_i hint
        split <;> exact (about_empty p).update (Program.lt_of_holdsInt hint) _
      · exact about_empty p

theorem About.transfer {f : Fact} (hf : About p f) (s : Stmt Nat) : About p (transfer p s f) := by
  unfold Interprocedural.transfer Constants.transfer
  split
  · exact hf
  · split
    · exact hf
    · split
      · rename_i hint
        exact hf.update (Program.lt_of_holdsInt hint) _
      · exact hf

/-- Facts about the variables of the program have a rank. -/
theorem ranked (p : Program) :
    System.Ranked {f | About p f} (fun f => ((List.range p.vars.size).map fun v => (f.get v).level).sum)
      (2 * p.vars.size) := by
  have hsupport : ∀ f ∈ {f | About p f}, ∀ v, f.get v ≠ .undefined → v ∈ List.range p.vars.size :=
    fun f hf v hv => List.mem_range.mpr (hf v hv)
  simpa using Constants.ranked_of_support hsupport

/-! ## The system -/

theorem input_eq (s : Facts Fact) (i : Nat) :
    (system p g).input s i = (g.inEdges (g.nodeAt i)).foldl
      (fun acc e => acc ⊔ flow p g e.link (s.output (g.number e.source))) ⊥ := by
  show (g.inEdges (g.nodeAt i)).foldl
    (fun acc e => (flow p g e.link (s.output (g.number e.source))).join acc) Fact.empty = _
  congr 1
  funext acc e
  exact sup_comm _ _

theorem isLUB_input (s : Facts Fact) (i : Nat) :
    IsLUB {f | ∃ e ∈ g.inEdges (g.nodeAt i), flow p g e.link (s.output (g.number e.source)) = f}
      ((system p g).input s i) := by
  rw [input_eq]
  exact isLUB_foldl_sup _ _

theorem mem_dependents (hg : g.Indexed) {i k : Nat} (h : k ∈ (system p g).dependents i) :
    k < g.nodes.size := by
  obtain ⟨n, hn, rfl⟩ := List.mem_map.mp h
  exact hg.number_lt n (hg.succs_mem _ n hn)

/-- The edges into a node come from nodes that wake it. -/
theorem source_wakes (hg : g.Indexed) {i : Nat} (hi : i < g.nodes.size) {e : SuperEdge}
    (he : e ∈ g.inEdges (g.nodeAt i)) : i ∈ (system p g).dependents (g.number e.source) := by
  obtain ⟨hsource, hsucc⟩ := hg.mem_succs_of_mem_inEdges _ (Supergraph.nodeAt_mem hi) e he
  show i ∈ (g.succs (g.nodeAt (g.number e.source))).map g.number
  rw [hg.nodeAt_number _ hsource]
  exact List.mem_map.mpr ⟨_, hsucc, hg.number_nodeAt i hi⟩

theorem lawful (hg : g.Indexed) : (system p g).Lawful where
  initial_le _ := bot_le
  default_eq := rfl
  start_eq i hb := if_neg (ne_true_of_eq_false hb)
  input_mono s t i h := by
    rw [input_eq, input_eq]
    exact foldl_sup_mono _ fun e _ => flow_mono _ (h _)
  input_congr s t i hi h := by
    rw [input_eq, input_eq]
    refine foldl_sup_congr fun e he => ?_
    rw [h _ fun _ => source_wakes hg hi he]
  transfer_mono _ _ _ _ _ _ h := transfer_mono _ h
  transfer_congr _ _ _ _ _ _ := rfl
  dependents_eq_nil _ _ hge hmem := absurd (mem_dependents hg hmem) (Nat.not_lt.mpr hge)

theorem keeps (hp : p.WellFormed) : (system p g).Keeps {f | About p f} where
  initial_mem := about_empty p
  start_mem i := by
    show About p (if isBoundary g (g.nodeAt i) then Constants.entryFact _ else Fact.empty)
    split
    · exact about_entryFact hp _
    · exact about_empty p
  input_mem s i h := by
    rw [input_eq]
    exact foldl_sup_induction (about_empty p) (fun hf hf' => hf.sup hf') _ fun e _ => (h _).flow hp _
  transfer_mem _ _ _ hf := hf.transfer _

/-! ## Solutions -/

/-- What the boundary and the inputs of a solution are to be, node by node. -/
theorem flows_of_facts (hg : g.Indexed) {s : Facts Fact}
    (hboundary : ∀ i < g.nodes.size, (system p g).isBoundary i = true →
      s.output i = (system p g).start i)
    (hinput : ∀ i < g.nodes.size, (system p g).isBoundary i = false →
      s.input i = (system p g).input s i) : Flows p g ⟨s.input, s.output⟩ where
  entry n hn hb := by
    have hnode := hg.nodeAt_number n hn
    refine (hboundary _ (hg.number_lt n hn) ((congrArg _ hnode).trans hb)).trans ?_
    simp only [system, hnode, hb, if_true]
  before n hn hb := by
    have hnode := hg.nodeAt_number n hn
    have hlub := isLUB_input (p := p) (g := g) s (g.number n)
    rw [← hinput _ (hg.number_lt n hn) ((congrArg _ hnode).trans hb), hnode] at hlub
    exact hlub

/-- Facts with these flows are no further down than the boundary and the edges ask for. -/
theorem Flows.bounds (hg : g.Indexed) {a : Assignment Fact} (h : Flows p g a) {i : Nat}
    (hi : i < g.nodes.size) :
    ((system p g).isBoundary i = true → (system p g).start i ≤ a.after i) ∧
    ((system p g).isBoundary i = false →
      (system p g).input (Facts.ofFns g.nodes.size a.before a.after) i ≤ a.before i) := by
  have hmem := Supergraph.nodeAt_mem hi
  have hnumber := hg.number_nodeAt i hi
  constructor
  · intro hb
    have hentry := h.entry _ hmem hb
    rw [hnumber] at hentry
    rw [hentry]
    exact (if_pos hb).le
  · intro hb
    refine (isLUB_input _ i).2 ?_
    rintro f ⟨e, he, rfl⟩
    have hsource := (hg.mem_succs_of_mem_inEdges _ hmem e he).1
    rw [Facts.output_ofFns _ _ (hg.number_lt _ hsource)]
    have hle := (h.before _ hmem hb).1 ⟨e, he, rfl⟩
    rwa [hnumber] at hle

theorem equations_of_solves (hg : g.Indexed) {s : Facts Fact} (h : (system p g).Solves s) :
    Equations p g ⟨s.input, s.output⟩ where
  toFlows := flows_of_facts hg h.boundary h.input
  after n hn hb := by
    have hnode := hg.nodeAt_number n hn
    have hout := h.output _ (hg.number_lt n hn) ((congrArg _ hnode).trans hb)
    simpa only [system, hnode] using hout

theorem bounds_of_equations (hg : g.Indexed) {a : Assignment Fact} (h : Equations p g a) :
    (system p g).Bounds (Facts.ofFns g.nodes.size a.before a.after) where
  boundary i hi hb := by
    have hi : i < g.nodes.size := hi
    rw [Facts.output_ofFns _ _ hi]
    exact (h.toFlows.bounds hg hi).1 hb
  input i hi hb := by
    have hi : i < g.nodes.size := hi
    rw [Facts.input_ofFns _ _ hi]
    exact (h.toFlows.bounds hg hi).2 hb
  output i hi hb := by
    have hi : i < g.nodes.size := hi
    rw [Facts.input_ofFns _ _ hi, Facts.output_ofFns _ _ hi]
    have hout := h.after _ (Supergraph.nodeAt_mem hi) hb
    rw [hg.number_nodeAt i hi] at hout
    exact hout.ge

theorem leastSolution_of_outcome (hg : g.Indexed) {s : Facts Fact} (h : (system p g).Outcome s) :
    LeastSolution g.nodes.size (Equations p g) ⟨s.input, s.output⟩ :=
  h.leastSolution (lawful hg) (equations_of_solves hg) fun _ => bounds_of_equations hg

/-! ## The solver -/

variable {S : System Fact BinaryOp} {limit : Int} {c : Solution Fact}

theorem solve_yields (p : Program) (g : Supergraph) (S : System Fact BinaryOp) (limit : Int) :
    (solve p g S limit).Yields (if g.entries.isEmpty then .error .noEntryMethod else
      (S.verdict limit).map fun s =>
        { before := s.facts.ins, after := s.facts.outs, iterations := s.iterations }) := by
  unfold solve
  by_cases hempty : g.entries.isEmpty = true
  · rw [if_pos hempty, if_pos hempty]
    exact (Logged.Yields.throw _).bind_error
  · rw [if_neg hempty, if_neg hempty]
    exact (System.report_yields _ _ _ _).map _

/-- What the solver returns is an outcome of the worklist. -/
theorem outcome_of_solve (h : (solve p g S limit).start.1 = .ok c) :
    S.Outcome ⟨c.before, c.after⟩ := by
  rw [(solve_yields p g S limit).start] at h
  split at h
  · cases h
  · obtain ⟨s, rfl, hs⟩ := System.outcome_of_verdict h
    exact hs

/-- What the solver ends with when there is no limit: a solution, or an error where there is no entry,
or an operation whose operator does not exist. -/
inductive Ends (p : Program) (g : Supergraph) : Except AnalysisError (Solution Fact) → Prop
  | solution (c : Solution Fact) : Ends p g (.ok c)
  | noEntry : g.entries = [] → Ends p g (.error .noEntryMethod)
  | operator {n : Node} {x y z : VarId} {op : BinaryOp} : n ∈ g.nodes →
      p.stmtAt n = .binary x op y z → op.isDeclared = false →
      Ends p g (.error (.unknownOperator op))

theorem not_declared_of_fault {s : Stmt Nat} {f : Fact} {op : BinaryOp} (h : fault p s f = some op) :
    ∃ x y z, s = .binary x op y z ∧ op.isDeclared = false := by
  unfold fault Constants.fault at h
  split at h
  · cases h
  · split at h
    · split at h
      · rename_i x op' y z hfaulty
        cases h
        refine ⟨_, _, _, rfl, ?_⟩
        simpa [Value.faulty] using (Bool.and_eq_true_iff.mp (Bool.and_eq_true_iff.mp hfaulty).2).2
      · cases h
    · cases h

/-- Where a system over the nodes of a supergraph halts, the faults of its statements are all that can
have kept it from a solution. -/
theorem solve_ends (hsize : S.size = g.nodes.size)
    (hfault : ∀ i f, S.fault i f = fault p (p.stmtAt (g.nodeAt i)) f)
    (hdep : ∀ i k, k ∈ S.dependents i → k < g.nodes.size)
    (hhalts : S.Halts (S.solve limit).2) : Ends p g (solve p g S limit).start.1 := by
  rw [(solve_yields p g S limit).start]
  split
  · rename_i hempty
    exact .noEntry (List.isEmpty_iff.mp hempty)
  · rcases hhalts with hnone | ⟨i, f, op, hi, hop, hstop⟩
    · rw [System.verdict_eq_ok.mpr (Prod.ext rfl hnone)]
      exact .solution _
    · have hlt : i < g.nodes.size := by
        by_contra hge
        obtain ⟨k, hk⟩ := hi (hsize ▸ Nat.le_of_not_lt hge)
        exact hge (hdep k i hk)
      rw [hfault] at hop
      obtain ⟨x, y, z, hs, hundeclared⟩ := not_declared_of_fault hop
      rw [System.verdict_eq_error hstop]
      exact .operator (Supergraph.nodeAt_mem hlt) hs hundeclared

/-- Without a limit the solver ends. -/
theorem solve_halts (hp : p.WellFormed) (hg : g.Indexed) (hlimit : limit ≤ 0) :
    (system p g).Halts ((system p g).solve limit).2 := by
  refine System.solve_halts (lawful hg) (keeps hp) (ranked p) hlimit ?_
  have hsum : ∑ i ∈ Finset.range g.nodes.size, ((system p g).dependents i).length ≤
      g.outs.foldl (fun n es => n + es.length) 0 := by
    simpa only [system, List.length_map] using hg.sum_succs_le
  calc g.nodes.size + 2 * p.vars.size * _
      ≤ g.nodes.size + (2 * p.vars.size + 1) * g.outs.foldl (fun n es => n + es.length) 0 :=
        Nat.add_le_add_left (Nat.mul_le_mul (Nat.le_succ _) hsum) _
    _ ≤ (system p g).visits := Nat.le_succ _

theorem analyze_ends (hp : p.WellFormed) (hg : g.Indexed) (hlimit : limit ≤ 0) :
    Ends p g (analyze p g limit).start.1 :=
  solve_ends rfl (fun _ _ => rfl) (fun _ _ => mem_dependents hg) (solve_halts hp hg hlimit)

/-- The operators of a supergraph exist. -/
def Declared (p : Program) (g : Supergraph) : Prop :=
  ∀ n ∈ g.nodes, ∀ x op y z, p.stmtAt n = .binary x op y z → op.isDeclared = true

theorem declared_of_methods (h : ∀ m ∈ p.methods.toList, m.body.toList.all fun i =>
    match i.stmt with
    | .binary _ op _ _ => op.isDeclared
    | _ => true) : Declared p g := by
  intro n _ x op y z hs
  obtain ⟨m, hm, i, hi, hstmt⟩ := Program.exists_instr_of_stmtAt (by rw [hs]; nofun)
  simpa [hstmt, hs] using List.all_eq_true.mp (h m hm) i hi

/-- Where there is an entry and all operators exist, there is a solution. -/
theorem Ends.solved {r : Except AnalysisError (Solution Fact)} (h : Ends p g r)
    (hentry : g.entries ≠ []) (hops : Declared p g) : ∃ c, r = .ok c := by
  cases h with
  | solution c => exact ⟨c, rfl⟩
  | noEntry hnone => exact absurd hnone hentry
  | operator hn hs hundeclared =>
    rw [hops _ hn _ _ _ _ hs] at hundeclared
    cases hundeclared

end WholeProgram.Interprocedural

namespace WholeProgram.Boxed

/-- `main` puts seven into a box, lets `twice` double it, and takes it out again. -/
def program : Program where
  classes := #[
    { name := "Main", super := none, isAbstract := false, isInterface := false, methods := #[0, 1] },
    { name := "Box", super := none, isAbstract := false, isInterface := false, fields := #[0] }]
  fields := #[{ name := "content", cls := 1, ty := .prim .int, isStatic := false }]
  vars := #[
    { name := "n", ty := .prim .int, method := 0, index := 0 },
    { name := "box", ty := .ref 1, method := 0, index := 1 },
    { name := "doubled", ty := .prim .int, method := 0, index := 2 },
    { name := "found", ty := .prim .int, method := 0, index := 3 },
    { name := "x", ty := .prim .int, method := 1, index := 0 },
    { name := "sum", ty := .prim .int, method := 1, index := 1 }]
  methods := #[
    { name := "main", cls := 0, isStatic := true, isAbstract := false, subsig := "main()",
      returns := none,
      receiver := none, params := #[], vars := #[0, 1, 2, 3], pos := none,
      body := #[
        { stmt := .literal 0 7, pos := none },
        { stmt := .new 1 (.ref 1), pos := none },
        { stmt := .storeField (some 1) 0 0, pos := none },
        { stmt := .invoke (some 2) ⟨.static, ⟨0, "twice", "twice(int)"⟩, none, [0]⟩, pos := none },
        { stmt := .loadField 3 (some 1) 0, pos := none }] },
    { name := "twice", cls := 0, isStatic := true, isAbstract := false, subsig := "twice(int)",
      returns := some (.prim .int),
      receiver := none, params := #[4], vars := #[4, 5], pos := none,
      body := #[
        { stmt := .binary 5 .add 4 4, pos := none },
        { stmt := .ret (some 5), pos := none }] }]
  entries := [0]

theorem wellFormed : program.WellFormed := Program.wellFormed_of_methods (by decide)

/-- Both methods are reachable from the entry. -/
def methodsReached : MethodCallGraph :=
  ((({} : MethodCallGraph).addEntry 0).addReachable 0).1.addReachable 1 |>.1

/-- The call graph: `main` is the entry and calls `twice`. -/
def callGraph : MethodCallGraph := (methodsReached.addEdge .static ⟨0, 3⟩ 1).1

theorem built_methodsReached : methodsReached.Built := .reach _ (.reach _ (.entry _ .empty))

theorem built : callGraph.Built := .edge _ _ _ built_methodsReached

theorem mem_reachable {m : MethodId} : m ∈ callGraph.reachable ↔ m = 0 ∨ m = 1 := by
  have hentry : (({} : MethodCallGraph).addEntry 0).Consistent :=
    (CallGraph.Built.entry _ .empty).consistent
  rw [callGraph, CallGraph.addEdge_reachable, methodsReached,
    CallGraph.mem_addReachable (hentry.addReachable 0), CallGraph.mem_addReachable hentry]
  simp [eq_comm]

theorem hasEdge_iff {s : Site} {m : MethodId} : callGraph.HasEdge s m ↔ s = ⟨0, 3⟩ ∧ m = 1 := by
  rw [callGraph, CallGraph.hasEdge_addEdge built_methodsReached.consistent]
  have hnone : methodsReached.edges = #[] := by simp [methodsReached]
  simp [CallGraph.HasEdge, hnone, eq_comm]

def graph : Supergraph := .ofCallGraph program callGraph

theorem node_mem {m : MethodId} (hm : m = 0 ∨ m = 1) {n : Nat}
    (hn : n < (program.method m).numNodes) : ⟨m, n⟩ ∈ graph.nodes :=
  Supergraph.mem_nodes.mpr ⟨mem_reachable.mpr hm, hn⟩

theorem entries_eq : graph.entries = [0] := by
  simp [graph, Supergraph.ofCallGraph, callGraph, methodsReached, CallGraph.addEntry]

theorem entries_ne_nil : graph.entries ≠ [] := by simp [entries_eq]

theorem declared : Interprocedural.Declared program graph :=
  Interprocedural.declared_of_methods (by decide)

end WholeProgram.Boxed
