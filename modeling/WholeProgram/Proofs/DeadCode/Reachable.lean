import WholeProgram.Proofs.DeadCode.Walk
import WholeProgram.Proofs.Dataflow.ConstantSoundness
import WholeProgram.Proofs.Dataflow.Liveness

/-!
# What runs is reachable

Where a method copies and computes integers from integers only, a run takes edges that the constants
leave feasible (`mem_feasibleEdges`), so that every statement that it executes is reachable
(`reachable_of_run`) and no such statement is reported as unreachable (`analyze_spares_runs`).

Without that condition a statement that runs can be reported. References are not tracked, so that a
comparison of two of them is undefined, and where it joins a constant the constant remains
(`Comparison.program`).
-/

namespace WholeProgram

theorem Value.binary_eq_const {op : BinaryOp} {a b : Value} {c : Int64}
    (h : binary op a b = const c) : ∃ x y, a = const x ∧ b = const y := by
  cases a with
  | const x =>
    cases b with
    | const y => exact ⟨x, y, rfl, rfl⟩
    | _ => cases h
  | _ => cases b <;> cases h

namespace DeadCode

open Body Constants

variable {p : Program} {m : Method} {k : MethodId} {limit : Int} {c : Solution Fact} {n : Nat}

/-! ## Feasible edges -/

theorem entry_mem_reachable (m : Method) (c : Solution Fact) : 0 ∈ reachable (Cfg.ofMethod m) c :=
  mem_reachable_iff.mpr .refl

theorem target_mem_reachable {e : Edge} (hn : n ∈ reachable (Cfg.ofMethod m) c)
    (he : e ∈ feasibleEdges (Cfg.ofMethod m) n (c.inFact n)) :
    e.target ∈ reachable (Cfg.ofMethod m) c :=
  mem_reachable_iff.mpr ((mem_reachable_iff.mp hn).tail ⟨e, he, rfl⟩)

/-- Known operands are integers, and hold what is known of them. -/
theorem eq_int_of_get {f : Fact} {vars : Vars} {v : VarId} {d : Datum} {x : Int64}
    (hf : Plausible p m f) (hcov : Covers p f vars) (hv : vars v = some d)
    (hx : f.get v = .const x) : d = .int x := by
  have hallows := hcov v d hv (hf.holdsInt v x hx)
  rw [hx] at hallows
  exact hallows.eq_int

/-- The outcome of a condition with known operands. -/
theorem decides_of_binary {f : Fact} {vars : Vars} {op : BinaryOp} {y z : VarId} {d e r : Datum}
    {x : Int64} {b : Bool} (hf : Plausible p m f) (hcov : Covers p f vars) (hy : vars y = some d)
    (hz : vars z = some e) (hx : Value.binary op (f.get y) (f.get z) = .const x)
    (hcomp : Computes op d e (some r)) (hdec : Decides r b) : b = decide (x ≠ 0) := by
  obtain ⟨i, j, hi, hj⟩ := Value.binary_eq_const hx
  obtain rfl := eq_int_of_get hf hcov hy hi
  obtain rfl := eq_int_of_get hf hcov hz hj
  have hallows := Value.allows_binary hcomp (Value.allows_const i) (Value.allows_const j)
  rw [← hi, ← hj, hx] at hallows
  exact hdec x hallows.eq_int

theorem mem_cases_of_mem_outEdges {v : VarId} {cases : List (Int64 × Nat)} {t : Nat} {e : Edge}
    {i : Int64} (hs : m.stmtAt n = .switch v cases t) (he : e ∈ m.outEdges n)
    (hkind : e.kind = .switchCase i) : i ∈ cases.map (·.1) := by
  cases n with
  | zero => cases hs
  | succ j =>
    simp only [Method.stmtAt] at hs
    cases hstmt : m.stmt? j with
    | none =>
      rw [hstmt] at hs
      cases hs
    | some s =>
      rw [hstmt] at hs
      obtain rfl : s = .switch v cases t := hs
      simp only [Method.outEdges, hstmt] at he
      rcases List.mem_append.mp he with he | he
      · obtain ⟨a, ha, rfl⟩ := List.mem_map.mp he
        exact List.mem_map.mpr ⟨a, ha, EdgeKind.switchCase.inj hkind⟩
      · obtain rfl := List.mem_singleton.mp he
        cases hkind

section

variable {f : Fact} {vars : Vars} {kind : EdgeKind} {e : Edge}

theorem branch_mem_feasibleEdges {op : BinaryOp} {x y : VarId} {t : Nat} {d₁ d₂ r : Datum}
    {b : Bool} (hf : Plausible p m f) (hcov : Covers p f vars)
    (hs : m.stmtAt n = .branch op x y t) (hx : vars x = some d₁) (hy : vars y = some d₂)
    (hcomp : Computes op d₁ d₂ (some r)) (hdec : Decides r b) (he : e ∈ m.outEdges n)
    (hkind : e.kind = if b then .ifTrue else .ifFalse) :
    e ∈ feasibleEdges (Cfg.ofMethod m) n f := by
  simp only [feasibleEdges, Cfg.method_ofMethod, Cfg.outEdges_ofMethod, hs]
  cases hval : Value.binary op (f.get x) (f.get y) with
  | undefined | nac => exact he
  | const i =>
    have hb := decides_of_binary hf hcov hx hy hval hcomp hdec
    refine List.mem_filter.mpr ⟨he, ?_⟩
    rw [hkind, hb]
    by_cases hi : i = 0 <;> simp [hi]

theorem switch_mem_feasibleEdges {v : VarId} {cases : List (Int64 × Nat)} {t : Nat} {d : Datum}
    (hf : Plausible p m f) (hcov : Covers p f vars) (hs : m.stmtAt n = .switch v cases t)
    (hv : vars v = some d) (hsel : Selects cases d kind) (he : e ∈ m.outEdges n)
    (hkind : e.kind = kind) : e ∈ feasibleEdges (Cfg.ofMethod m) n f := by
  simp only [feasibleEdges, Cfg.method_ofMethod, Cfg.outEdges_ofMethod, hs]
  cases hval : f.get v with
  | undefined | nac => exact he
  | const i =>
    have hk := hsel i (eq_int_of_get hf hcov hv hval)
    dsimp only
    by_cases hcase : i ∈ cases.map (·.1)
    · have hin : e ∈ (m.outEdges n).filter fun e => e.kind == .switchCase i := by
        refine List.mem_filter.mpr ⟨he, ?_⟩
        rw [hkind, hk, if_pos hcase]
        exact beq_self_eq_true _
      rw [if_neg fun h => List.ne_nil_of_mem hin (List.isEmpty_iff.mp h)]
      exact hin
    · -- no edge has the value of a case that does not exist
      have hnone : (m.outEdges n).filter (fun e => e.kind == .switchCase i) = [] := by
        rw [List.filter_eq_nil_iff]
        intro e' he' hk'
        exact hcase (mem_cases_of_mem_outEdges hs he' (by simpa using hk'))
      rw [if_pos (List.isEmpty_iff.mpr hnone)]
      refine List.mem_filter.mpr ⟨he, ?_⟩
      rw [hkind, hk, if_neg hcase]
      exact beq_self_eq_true _

/-- A step takes an edge that the constants leave feasible. -/
theorem mem_feasibleEdges {ds : List Datum} {d : Option Datum} (hf : Plausible p m f)
    (hcov : Covers p f vars) (hreads : vars.Reads (m.stmtAt n).uses ds)
    (hacts : Acts (m.stmtAt n) ds kind d)
    (hfind : (m.outEdges n).find? (·.kind = kind) = some e) :
    e ∈ feasibleEdges (Cfg.ofMethod m) n f := by
  have hmem := List.mem_of_find?_eq_some hfind
  have hkind : e.kind = kind := (edge_of_find? hfind).2.2
  cases hs : m.stmtAt n with
  | branch op x y t =>
    rw [hs] at hreads hacts
    cases hacts with
    | branch b hcomp hdec =>
      obtain ⟨hx, hy⟩ := Vars.reads_two.mp hreads
      exact branch_mem_feasibleEdges hf hcov hs hx hy hcomp hdec hmem hkind
    | produce _ h => cases h
    | store h => cases h
  | switch v cases t =>
    rw [hs] at hreads hacts
    cases hacts with
    | switch hsel =>
      exact switch_mem_feasibleEdges hf hcov hs (Vars.reads_one.mp hreads) hsel hmem hkind
    | produce _ h => cases h
    | store h => cases h
  | _ =>
    -- every other statement keeps all its edges but that of a return
    simp only [feasibleEdges, Cfg.method_ofMethod, Cfg.outEdges_ofMethod, hs]
    refine List.mem_filter.mpr ⟨hmem, ?_⟩
    rw [hkind]
    rw [hs] at hacts
    cases hacts <;> rfl

end

/-- Every statement that a run is about to execute is reachable. -/
theorem reachable_of_run {vars vars' : Vars} {es : List Event}
    (hc : (Constants.analyze p k limit).start.1 = .ok c) (hint : (p.method k).IntOperands p)
    (hstart : Starts (p.method k) vars) (hrun : Run (p.method k) vars es (.running n vars'))
    (hn : n < (p.method k).numNodes) : n ∈ reachable (Cfg.ofMethod (p.method k)) c := by
  generalize hs : State.running n vars' = s at hrun
  induction hrun generalizing n vars' with
  | start =>
    cases hs
    have hentry : (⟨.entry, 0, 1⟩ : Edge) ∈
        feasibleEdges (Cfg.ofMethod (p.method k)) 0 (c.inFact 0) := by
      refine List.mem_filter.mpr ⟨?_, rfl⟩
      rw [Cfg.outEdges_ofMethod]
      exact List.mem_cons_self
    exact target_mem_reachable (entry_mem_reachable _ c) hentry
  | step hrun hstep ih =>
    cases hstep with
    | @go j _ _ _ _ e hreads hacts hfind =>
      cases hs
      obtain ⟨he, hsource, _⟩ := edge_of_find? hfind
      have hj : j < (p.method k).numNodes := hsource ▸ Method.source_lt_of_mem_edges he
      have hcov := covers_run (equations_of_ok hc) hint hstart hrun hj
      exact target_mem_reachable (ih hj rfl)
        (mem_feasibleEdges (plausible_inFact hc j) hcov hreads hacts hfind)
    | ret | stop => cases hs

/-! ## What is reported -/

theorem mem_detect {live : Solution IdSet} {opts : Options} {i : Nat} :
    i ∈ detect (Cfg.ofMethod m) c live opts ↔ i < m.body.size ∧
      (¬ i + 1 ∈ reachable (Cfg.ofMethod m) c ∨
        opts.ignoreAssignments = false ∧
          isDeadAssignment (m.stmtAt (i + 1)) (live.outFact (i + 1)) = true ∧
          (opts.skipSideEffects = false ∨
            hasNoSideEffect (m.stmtAt (i + 1)) (c.inFact (i + 1)) = true)) := by
  unfold detect
  rw [List.mem_filter, List.mem_range, Cfg.method_ofMethod]
  simp only [Bool.or_eq_true, Bool.and_eq_true, Bool.not_eq_true', and_assoc]
  rw [← Bool.not_eq_true]
  exact Iff.rfl

variable {live : Solution IdSet} {opts : Options} {dead : List Nat}

theorem analyze_yields (hc : (Constants.analyze p k opts.limit).Yields (.ok c))
    (hlive : (Liveness.analyze p k opts.limit).Yields (.ok live)) :
    (analyze p k opts).Yields (.ok (detect (Cfg.ofMethod (p.method k)) c live opts)) := by
  have hc := AnalysisError.inPart_yields
    ("constant propagation of " ++ p.methodText k ++ " failed") hc
  have hlive := AnalysisError.inPart_yields
    ("live variable analysis of " ++ p.methodText k ++ " failed") hlive
  exact hc.bind_ok (hlive.bind_ok ((Logged.Yields.say _ _).bind_ok (.pure _)))

/-- The report rests on the results of the two analyses. -/
theorem analyze_ok (h : (analyze p k opts).start.1 = .ok dead) :
    ∃ c live, (Constants.analyze p k opts.limit).start.1 = .ok c ∧
      (Liveness.analyze p k opts.limit).start.1 = .ok live ∧
      dead = detect (Cfg.ofMethod (p.method k)) c live opts := by
  have hc := Constants.analyze_yields p k opts.limit
  have hlive := Liveness.analyze_yields p k opts.limit
  rw [hc.start, hlive.start]
  generalize ((Constants.systemOf p (p.method k)).verdict opts.limit).map _ = rc at hc
  generalize ((Liveness.systemOf (p.method k)).verdict opts.limit).map _ = rl at hlive
  have hpart := AnalysisError.inPart_yields
    ("constant propagation of " ++ p.methodText k ++ " failed") hc
  have hpart' := AnalysisError.inPart_yields
    ("live variable analysis of " ++ p.methodText k ++ " failed") hlive
  cases rc with
  | error e =>
    have herror : (analyze p k opts).Yields _ := hpart.bind_error
    rw [herror.start] at h
    cases h
  | ok c =>
    cases rl with
    | error e =>
      have herror : (analyze p k opts).Yields _ := hpart.bind_ok hpart'.bind_error
      rw [herror.start] at h
      cases h
    | ok live =>
      rw [(analyze_yields hc hlive).start] at h
      exact ⟨c, live, rfl, rfl, (Except.ok.inj h).symm⟩

theorem analyze_succeeds (hops : (p.method k).Declared) (hlimit : opts.limit ≤ 0) :
    ∃ dead, (analyze p k opts).start.1 = .ok dead := by
  obtain ⟨c, hc⟩ := Constants.analyze_succeeds hops hlimit
  obtain ⟨live, hlive⟩ := Liveness.analyze_succeeds p k hlimit
  exact ⟨_, (analyze_yields ((Constants.analyze_yields p k opts.limit).of_start hc)
    ((Liveness.analyze_yields p k opts.limit).of_start hlive)).start⟩

/-- Integers from integers only: a statement that a run is about to execute is reachable, and it is not
reported where only unreachable statements are. -/
theorem analyze_spares_runs {vars vars' : Vars} {es : List Event} {i : Nat}
    (hint : (p.method k).IntOperands p)
    (hc : (Constants.analyze p k opts.limit).start.1 = .ok c)
    (hdead : (analyze p k opts).start.1 = .ok dead) (hstart : Starts (p.method k) vars)
    (hrun : Run (p.method k) vars es (.running (i + 1) vars')) (hi : i < (p.method k).body.size) :
    i + 1 ∈ reachable (Cfg.ofMethod (p.method k)) c ∧
      (opts.ignoreAssignments = true → i ∉ dead) := by
  have hn : i + 1 < (p.method k).numNodes := by
    unfold Method.numNodes
    omega
  have hreach := reachable_of_run hc hint hstart hrun hn
  refine ⟨hreach, fun hignore hmem => ?_⟩
  obtain ⟨c', live, hc', _, rfl⟩ := analyze_ok hdead
  obtain rfl : c' = c := Except.ok.inj (hc'.symm.trans hc)
  rcases (mem_detect.mp hmem).2 with hnot | ⟨hassign, _⟩
  · exact hnot hreach
  · rw [hignore] at hassign
    cases hassign

theorem analyze_spares_runs_countdown :
    ∃ c dead, (Constants.analyze Countdown.program 0 0).start.1 = .ok c ∧
      (analyze Countdown.program 0 { ignoreAssignments := true }).start.1 = .ok dead ∧
      2 ∈ reachable (Cfg.ofMethod (Countdown.program.method 0)) c ∧ 1 ∉ dead := by
  have hlimit : ({ ignoreAssignments := true } : Options).limit ≤ 0 := Int.le_refl 0
  obtain ⟨c, hc⟩ := Constants.analyze_succeeds Countdown.declared hlimit
  obtain ⟨dead, hdead⟩ := analyze_succeeds Countdown.declared hlimit
  obtain ⟨hreach, hspare⟩ := analyze_spares_runs Countdown.intOperands hc hdead Countdown.starts
    Countdown.run (by decide)
  exact ⟨c, dead, hc, hdead, hreach, hspare rfl⟩

end DeadCode

/-! ## A comparison of references -/

namespace Comparison

open Body DeadCode

/-- `main` sets `b` to one, or to whether two new objects are the same, and then executes a `nop` if `b`
is not one. -/
def program : Program where
  classes := #[
    { name := "Main", super := none, isAbstract := false, isInterface := false, methods := #[0] },
    { name := "A", super := none, isAbstract := false, isInterface := false }]
  vars := #[
    { name := "p", ty := .prim .int, method := 0, index := 0 },
    { name := "r", ty := .ref 1, method := 0, index := 1 },
    { name := "s", ty := .ref 1, method := 0, index := 2 },
    { name := "one", ty := .prim .int, method := 0, index := 3 },
    { name := "b", ty := .prim .boolean, method := 0, index := 4 }]
  methods := #[
    { name := "main", cls := 0, isStatic := true, isAbstract := false, subsig := "main(int)",
      returns := none,
      receiver := none, params := #[0], vars := #[0, 1, 2, 3, 4], pos := none,
      body := #[
        { stmt := .new 1 (.ref 1), pos := none },
        { stmt := .new 2 (.ref 1), pos := none },
        { stmt := .literal 3 1, pos := none },
        { stmt := .literal 4 1, pos := none },
        { stmt := .branch .eq 0 3 6, pos := none },
        { stmt := .binary 4 .eq 1 2, pos := none },
        { stmt := .branch .eq 4 3 8, pos := none },
        { stmt := .nop, pos := none },
        { stmt := .ret none, pos := none }] }]
  entries := [0]

def vars : Vars := Vars.put (fun _ => none) (some 0) (some (.int 2))

theorem starts : Starts (program.method 0) vars := starts_of_param rfl _

/-- With another parameter than one, the comparison comes out false and the `nop` is executed. -/
theorem run : ∃ es vars', Run (program.method 0) vars es (.running 8 vars') := by
  have hnew : Acts (.new 1 (.ref 1)) [] .fallThrough (some (.other 0)) := .produce _ rfl
  have hnew' : Acts (.new 2 (.ref 1)) [] .fallThrough (some (.other 1)) := .produce _ rfl
  have hparam : Computes .eq (.int 2) (.int 1) (some (.int 0)) := .ints rfl
  have hdiffer : Computes .eq (.other 0) (.other 1) (some (.int 0)) :=
    .compared false (fun x y h => by cases h.1) rfl
  have hb : Computes .eq (.int 0) (.int 1) (some (.int 0)) := .ints rfl
  have hfalse : Decides (.int 0) false := by
    rintro c hc
    cases hc
    rfl
  have h1 : Run (program.method 0) vars [] (.running 1 vars) := .start
  obtain ⟨_, h2⟩ := h1.advance hnew rfl rfl rfl
  obtain ⟨_, h3⟩ := h2.advance hnew' rfl rfl rfl
  obtain ⟨_, h4⟩ := h3.advance (.literal (x := 3) (c := 1)) rfl rfl rfl
  obtain ⟨_, h5⟩ := h4.advance (.literal (x := 4) (c := 1)) rfl rfl rfl
  obtain ⟨_, h6⟩ := h5.advance (.branch (x := 0) (y := 3) (t := 6) false hparam hfalse) rfl rfl rfl
  obtain ⟨_, h7⟩ := h6.advance (.binary (x := 4) (y := 1) (z := 2) hdiffer) rfl rfl rfl
  obtain ⟨_, h8⟩ := h7.advance (.branch (x := 4) (y := 3) (t := 8) false hb hfalse) rfl rfl rfl
  exact ⟨_, _, h8⟩

/-- The constants leave out the branch that the run takes. -/
theorem not_reachable {c : Solution Fact} (hc : (Constants.analyze program 0 0).start.1 = .ok c) :
    ¬ 8 ∈ reachable (Cfg.ofMethod (program.method 0)) c := by
  have heval : ((Constants.analyze program 0 0).start.1.map fun c =>
      decide (8 ∈ reachable (Cfg.ofMethod (program.method 0)) c)).toOption = some false := by
    decide +kernel
  rw [hc] at heval
  exact of_decide_eq_false (Option.some.inj heval)

/-- The `nop` is executed, and reported as unreachable. -/
theorem reports_executed :
    ∃ vars es vars', Starts (program.method 0) vars ∧
      Run (program.method 0) vars es (.running 8 vars') ∧
      ∃ c dead, (Constants.analyze program 0 0).start.1 = .ok c ∧
        (analyze program 0 { ignoreAssignments := true }).start.1 = .ok dead ∧
        8 ∉ reachable (Cfg.ofMethod (program.method 0)) c ∧ 7 ∈ dead := by
  obtain ⟨es, vars', hrun⟩ := run
  have hops : (program.method 0).Declared := Method.declared_of_body (by decide)
  have hlimit : ({ ignoreAssignments := true } : Options).limit ≤ 0 := Int.le_refl 0
  obtain ⟨dead, hdead⟩ := analyze_succeeds hops hlimit
  obtain ⟨c, live, hc, _, hdetect⟩ := analyze_ok hdead
  have hnot := not_reachable hc
  refine ⟨vars, es, vars', starts, hrun, c, dead, hc, hdead, hnot, ?_⟩
  rw [hdetect]
  exact mem_detect.mpr ⟨by decide, Or.inl hnot⟩

end Comparison

end WholeProgram
