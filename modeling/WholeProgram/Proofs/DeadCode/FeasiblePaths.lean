import WholeProgram.Proofs.ControlFlow.Transfers
import WholeProgram.Proofs.DeadCode.Reachable

/-!
# Dead code and feasible paths

`Infeasible` says edge by edge what the constants rule out. The edges that a walk takes are the others
(`mem_feasibleEdges_iff`), so that it reaches a node exactly if a path of other edges leads there, in
whatever order it takes the nodes (`walks_exact`).
-/

namespace WholeProgram

namespace DeadCode

/-- The edges that a walk leaves out: returns, the way of a branch that its constant condition does not
select, the cases of a switch on a constant with another value, and its default if some case has that
value. -/
inductive Infeasible (m : Method) (c : Solution Fact) (e : Edge) : Prop
  | ret : e.kind = .ret → Infeasible m c e
  | taken {op : BinaryOp} {x y : VarId} {t : Nat} : m.stmtAt e.source = .branch op x y t →
      Value.binary op ((c.inFact e.source).get x) ((c.inFact e.source).get y) = .const 0 →
      e.kind = .ifTrue → Infeasible m c e
  | passed {op : BinaryOp} {x y : VarId} {t : Nat} {i : Int64} : m.stmtAt e.source = .branch op x y t →
      Value.binary op ((c.inFact e.source).get x) ((c.inFact e.source).get y) = .const i → i ≠ 0 →
      e.kind = .ifFalse → Infeasible m c e
  | case {x : VarId} {cases : List (Int64 × Nat)} {d : Nat} {i v : Int64} :
      m.stmtAt e.source = .switch x cases d → (c.inFact e.source).get x = .const i →
      e.kind = .switchCase v → v ≠ i → Infeasible m c e
  | default {x : VarId} {cases : List (Int64 × Nat)} {d : Nat} {i : Int64} :
      m.stmtAt e.source = .switch x cases d → (c.inFact e.source).get x = .const i →
      e.kind = .switchDefault → i ∈ cases.map (·.1) → Infeasible m c e

/-- Edges that are not infeasible lead from the entry to a node. -/
def FeasiblePath (m : Method) (c : Solution Fact) (n : Nat) : Prop :=
  Relation.ReflTransGen (fun k l => ∃ e ∈ m.edges, e.source = k ∧ e.target = l ∧ ¬ Infeasible m c e) 0 n

variable {m : Method} {c : Solution Fact} {n : Nat} {e : Edge}

/-! ## Kinds of edges -/

theorem stmtAt_succ {i : Nat} {s : Stmt Nat} (h : m.stmt? i = some s) : m.stmtAt (i + 1) = s := by
  rw [Method.stmtAt, h, Option.getD_some]

/-- A branch has an edge for either outcome. -/
theorem kind_of_branch {op : BinaryOp} {x y : VarId} {t : Nat} (he : e ∈ m.outEdges n)
    (hs : m.stmtAt n = .branch op x y t) : e.kind = .ifTrue ∨ e.kind = .ifFalse := by
  obtain ⟨htransfer, rfl⟩ := Method.mem_outEdges_iff.mp he
  cases htransfer with
  | entry => cases hs
  | next h hnext =>
    rw [stmtAt_succ h] at hs
    subst hs
    cases hnext
  | jump h | case h _ | default h | ret h =>
    rw [stmtAt_succ h] at hs
    cases hs
  | branchTaken => exact Or.inl rfl
  | branchPassed => exact Or.inr rfl

/-- A switch has an edge for each case, and one for the default. -/
theorem kind_of_switch {x : VarId} {cases : List (Int64 × Nat)} {d : Nat} (he : e ∈ m.outEdges n)
    (hs : m.stmtAt n = .switch x cases d) : (∃ v, e.kind = .switchCase v) ∨ e.kind = .switchDefault := by
  obtain ⟨htransfer, rfl⟩ := Method.mem_outEdges_iff.mp he
  cases htransfer with
  | entry => cases hs
  | next h hnext =>
    rw [stmtAt_succ h] at hs
    subst hs
    cases hnext
  | jump h | branchTaken h | branchPassed h | ret h =>
    rw [stmtAt_succ h] at hs
    cases hs
  | case => exact Or.inl ⟨_, rfl⟩
  | default => exact Or.inr rfl

theorem exists_case_edge {x : VarId} {cases : List (Int64 × Nat)} {d : Nat} {i : Int64}
    (hs : m.stmtAt n = .switch x cases d) (hi : i ∈ cases.map (·.1)) :
    ∃ e ∈ m.outEdges n, e.kind = .switchCase i := by
  obtain ⟨a, ha, rfl⟩ := List.mem_map.mp hi
  cases n with
  | zero => cases hs
  | succ j =>
    cases hstmt : m.stmt? j with
    | none =>
      rw [Method.stmtAt, hstmt] at hs
      cases hs
    | some s =>
      rw [stmtAt_succ hstmt] at hs
      subst hs
      exact ⟨_, (Method.Transfer.case hstmt ha).mem_outEdges, rfl⟩

/-! ## The edges that a walk takes -/

theorem infeasible_branch_iff {op : BinaryOp} {x y : VarId} {t : Nat} (he : e ∈ m.outEdges e.source)
    (hs : m.stmtAt e.source = .branch op x y t) :
    Infeasible m c e ↔
      ∃ i, Value.binary op ((c.inFact e.source).get x) ((c.inFact e.source).get y) = .const i ∧
        e.kind ≠ if i = 0 then .ifFalse else .ifTrue := by
  have hkind := kind_of_branch he hs
  constructor
  · intro h
    cases h with
    | ret hret => rcases hkind with hkind | hkind <;> rw [hkind] at hret <;> cases hret
    | taken hs' hval htrue =>
      obtain ⟨rfl, rfl, rfl, rfl⟩ := Stmt.branch.inj (hs.symm.trans hs')
      exact ⟨0, hval, by simp [htrue]⟩
    | passed hs' hval hne hfalse =>
      obtain ⟨rfl, rfl, rfl, rfl⟩ := Stmt.branch.inj (hs.symm.trans hs')
      exact ⟨_, hval, by simp [hfalse, hne]⟩
    | case hs' | default hs' =>
      rw [hs] at hs'
      cases hs'
  · rintro ⟨i, hval, hne⟩
    by_cases hi : i = 0
    · subst hi
      exact .taken hs hval (hkind.resolve_right (by simpa using hne))
    · exact .passed hs hval hi (hkind.resolve_left (by simpa [hi] using hne))

theorem infeasible_switch_iff {x : VarId} {cases : List (Int64 × Nat)} {d : Nat}
    (he : e ∈ m.outEdges e.source) (hs : m.stmtAt e.source = .switch x cases d) :
    Infeasible m c e ↔
      ∃ i, (c.inFact e.source).get x = .const i ∧
        e.kind ≠ if i ∈ cases.map (·.1) then .switchCase i else .switchDefault := by
  have hkind := kind_of_switch he hs
  constructor
  · intro h
    cases h with
    | ret hret => rcases hkind with ⟨v, hkind⟩ | hkind <;> rw [hkind] at hret <;> cases hret
    | taken hs' | passed hs' =>
      rw [hs] at hs'
      cases hs'
    | case hs' hval hcase hne =>
      obtain ⟨rfl, rfl, rfl⟩ := Stmt.switch.inj (hs.symm.trans hs')
      refine ⟨_, hval, ?_⟩
      rw [hcase]
      split <;> simp [hne]
    | default hs' hval hdefault hmem =>
      obtain ⟨rfl, rfl, rfl⟩ := Stmt.switch.inj (hs.symm.trans hs')
      refine ⟨_, hval, ?_⟩
      rw [hdefault, if_pos hmem]
      nofun
  · rintro ⟨i, hval, hne⟩
    rcases hkind with ⟨v, hcase⟩ | hdefault
    · refine .case hs hval hcase fun hv => hne ?_
      subst hv
      rw [if_pos (mem_cases_of_mem_outEdges hs he hcase), hcase]
    · refine .default hs hval hdefault ?_
      by_contra hmem
      exact hne (by rw [if_neg hmem, hdefault])

/-- An edge of another statement is infeasible only as a return. -/
theorem infeasible_iff_ret (hbranch : ∀ op x y t, m.stmtAt e.source ≠ .branch op x y t)
    (hswitch : ∀ x cases d, m.stmtAt e.source ≠ .switch x cases d) :
    Infeasible m c e ↔ e.kind = .ret := by
  constructor
  · intro h
    cases h with
    | ret hret => exact hret
    | taken hs | passed hs => exact absurd hs (hbranch _ _ _ _)
    | case hs | default hs => exact absurd hs (hswitch _ _ _)
  · exact .ret

theorem branch_feasible_iff {op : BinaryOp} {x y : VarId} {t : Nat} (he : e ∈ m.outEdges e.source)
    (hs : m.stmtAt e.source = .branch op x y t) :
    e ∈ feasibleEdges (Cfg.ofMethod m) e.source (c.inFact e.source) ↔ ¬ Infeasible m c e := by
  rw [infeasible_branch_iff he hs]
  simp only [feasibleEdges, Cfg.method_ofMethod, Cfg.outEdges_ofMethod, hs]
  cases hval : Value.binary op ((c.inFact e.source).get x) ((c.inFact e.source).get y) with
  | undefined | nac => simp [he]
  | const i => simp [he]

theorem switch_feasible_iff {x : VarId} {cases : List (Int64 × Nat)} {d : Nat}
    (he : e ∈ m.outEdges e.source) (hs : m.stmtAt e.source = .switch x cases d) :
    e ∈ feasibleEdges (Cfg.ofMethod m) e.source (c.inFact e.source) ↔ ¬ Infeasible m c e := by
  rw [infeasible_switch_iff he hs]
  simp only [feasibleEdges, Cfg.method_ofMethod, Cfg.outEdges_ofMethod, hs]
  cases hval : (c.inFact e.source).get x with
  | undefined | nac => simp [he]
  | const i =>
    have hempty : ((m.outEdges e.source).filter fun e => e.kind == .switchCase i).isEmpty = true ↔
        i ∉ cases.map (·.1) := by
      rw [List.isEmpty_iff, List.filter_eq_nil_iff]
      constructor
      · intro hnone hi
        obtain ⟨e', he', hkind⟩ := exists_case_edge hs hi
        exact hnone e' he' (by simp [hkind])
      · intro hi e' he' hkind
        exact hi (mem_cases_of_mem_outEdges hs he' (by simpa using hkind))
    dsimp only
    by_cases hi : i ∈ cases.map (·.1)
    · rw [if_neg fun h => hempty.mp h hi, List.mem_filter]
      simp [he, hi]
    · rw [if_pos (hempty.mpr hi), List.mem_filter]
      simp [he, hi]

/-- A walk goes along the edges that are not infeasible. -/
theorem mem_feasibleEdges_iff :
    e ∈ feasibleEdges (Cfg.ofMethod m) n (c.inFact n) ↔ e ∈ m.edges ∧ e.source = n ∧ ¬ Infeasible m c e := by
  by_cases hout : e ∈ m.outEdges n
  · obtain rfl : e.source = n := Method.source_of_mem_outEdges hout
    simp only [Method.mem_edges, hout, true_and]
    cases hs : m.stmtAt e.source with
    | branch => exact branch_feasible_iff hout hs
    | switch => exact switch_feasible_iff hout hs
    | _ =>
      rw [infeasible_iff_ret (fun _ _ _ _ h => by cases hs.symm.trans h) (fun _ _ _ h => by cases hs.symm.trans h)]
      simp only [feasibleEdges, Cfg.method_ofMethod, Cfg.outEdges_ofMethod, hs]
      simp [hout]
  · constructor
    · intro h
      have hmem := (feasibleEdges_sublist (Cfg.ofMethod m) n (c.inFact n)).subset h
      rw [Cfg.outEdges_ofMethod] at hmem
      exact absurd hmem hout
    · rintro ⟨h, rfl, -⟩
      exact absurd (Method.mem_edges.mp h) hout

/-! ## Paths -/

theorem leads_iff {k : Nat} : Leads (Cfg.ofMethod m) c n k ↔
    ∃ e ∈ m.edges, e.source = n ∧ e.target = k ∧ ¬ Infeasible m c e := by
  constructor
  · rintro ⟨e, he, htarget⟩
    obtain ⟨hedge, hsource, hfeasible⟩ := mem_feasibleEdges_iff.mp he
    exact ⟨e, hedge, hsource, htarget, hfeasible⟩
  · rintro ⟨e, hedge, hsource, htarget, hfeasible⟩
    exact ⟨e, mem_feasibleEdges_iff.mpr ⟨hedge, hsource, hfeasible⟩, htarget⟩

theorem onPath_iff : OnPath (Cfg.ofMethod m) c n ↔ FeasiblePath m c n := by
  have hleads : Leads (Cfg.ofMethod m) c =
      fun k l => ∃ e ∈ m.edges, e.source = k ∧ e.target = l ∧ ¬ Infeasible m c e := by
    funext k l
    exact propext leads_iff
  rw [OnPath, FeasiblePath, hleads]

/-- At first, a walk may take every edge of the method. -/
theorem potential_entry (m : Method) :
    (Walk.mk [0] ∅).potential (Cfg.ofMethod m) = m.edges.length + 1 := by
  have hat : edgesAt (Cfg.ofMethod m) ∅ = fun n => (m.outEdges n).length := by
    funext n
    simp [edgesAt, Cfg.outEdges_ofMethod]
  have hahead : edgesAhead (Cfg.ofMethod m) ∅ = m.edges.length := by
    rw [edgesAhead, hat, Method.edges, List.length_flatMap, List.sum_eq_foldr, List.foldr_map]
    simp [Cfg.ofMethod]
  rw [Walk.potential, hahead]
  exact Nat.add_comm _ _

/-- The walk reaches exactly the nodes on feasible paths. So does one that takes the waiting nodes in
another order: it takes no more nodes than there are edges, and one for the entry, and does not stop
before nothing waits. What is reported as unreachable is what lies on no such path; the other reports are
assignments. -/
theorem walks_exact (m : Method) (c : Solution Fact) :
    (∀ n, n ∈ reachable (Cfg.ofMethod m) c ↔ FeasiblePath m c n) ∧
    (∃ k, Rounds (Cfg.ofMethod m) c k ⟨[0], ∅⟩ ⟨[], reachable (Cfg.ofMethod m) c⟩) ∧
    (∀ k s, Rounds (Cfg.ofMethod m) c k ⟨[0], ∅⟩ s →
      k ≤ m.edges.length + 1 ∧
      (s.waiting ≠ [] → ∃ t, Round (Cfg.ofMethod m) c s t) ∧
      (s.waiting = [] → ∀ n, n ∈ s.reached ↔ FeasiblePath m c n)) ∧
    (∀ live opts i, i ∈ detect (Cfg.ofMethod m) c live opts ↔ i < m.body.size ∧
      (¬ FeasiblePath m c (i + 1) ∨
        FeasiblePath m c (i + 1) ∧ opts.ignoreAssignments = false ∧
          isDeadAssignment (m.stmtAt (i + 1)) (live.outFact (i + 1)) = true ∧
          (opts.skipSideEffects = false ∨
            hasNoSideEffect (m.stmtAt (i + 1)) (c.inFact (i + 1)) = true))) := by
  have hreachable : ∀ n, n ∈ reachable (Cfg.ofMethod m) c ↔ FeasiblePath m c n :=
    fun n => mem_reachable_iff.trans onPath_iff
  refine ⟨hreachable, rounds_walk _ c [0] ∅, fun k s hrounds => ⟨?_, exists_round, fun hdone n => ?_⟩,
    fun live opts i => ?_⟩
  · have hle := hrounds.le_potential
    rw [potential_entry] at hle
    omega
  · exact (((explored_entry _ c).rounds hrounds).mem_reached_iff hdone).trans onPath_iff
  · rw [mem_detect, hreachable]
    tauto

end DeadCode

namespace Menu

open DeadCode

/-- `main` switches on two: two cases have that value, and the other case leads where the default does. -/
def program : Program where
  classes := #[
    { name := "Main", super := none, isAbstract := false, isInterface := false, methods := #[0] }]
  vars := #[{ name := "choice", ty := .prim .int, method := 0, index := 0 }]
  methods := #[
    { name := "main", cls := 0, isStatic := true, isAbstract := false, subsig := "main()", returns := none,
      receiver := none, params := #[], vars := #[0], pos := none,
      body := #[
        { stmt := .literal 0 2, pos := none },
        { stmt := .switch 0 [(1, 2), (2, 3), (2, 4)] 2, pos := none },
        { stmt := .nop, pos := none },
        { stmt := .ret none, pos := none },
        { stmt := .ret none, pos := none }] }]
  entries := [0]

theorem reachable_eq {c : Solution Fact} (hc : (Constants.analyze program 0 0).start.1 = .ok c) :
    [3, 4, 5].map (fun n => decide (n ∈ reachable (Cfg.ofMethod (program.method 0)) c)) = [false, true, true] := by
  have heval : ((Constants.analyze program 0 0).start.1.map fun c =>
      [3, 4, 5].map fun n => decide (n ∈ reachable (Cfg.ofMethod (program.method 0)) c)).toOption =
        some [false, true, true] := by
    decide +kernel
  rw [hc] at heval
  exact Option.some.inj heval

end Menu

theorem DeadCode.walks_exact_menu : ∃ c, (Constants.analyze Menu.program 0 0).start.1 = .ok c ∧
    ¬ FeasiblePath (Menu.program.method 0) c 3 ∧ FeasiblePath (Menu.program.method 0) c 4 ∧
    FeasiblePath (Menu.program.method 0) c 5 ∧
    (∃ k ≤ 10, Rounds (Cfg.ofMethod (Menu.program.method 0)) c k ⟨[0], ∅⟩
      ⟨[], reachable (Cfg.ofMethod (Menu.program.method 0)) c⟩) ∧
    ∀ live opts, 2 ∈ detect (Cfg.ofMethod (Menu.program.method 0)) c live opts := by
  have hops : (Menu.program.method 0).Declared := Method.declared_of_body (by decide)
  obtain ⟨c, hc⟩ := Constants.analyze_succeeds hops (Int.le_refl 0)
  obtain ⟨hreachable, ⟨k, hrounds⟩, hbound, hdetect⟩ := walks_exact (Menu.program.method 0) c
  have heval := Menu.reachable_eq hc
  simp only [List.map_cons, List.map_nil, List.cons.injEq, decide_eq_false_iff_not, decide_eq_true_eq,
    hreachable] at heval
  obtain ⟨hcase, hfirst, hsecond, -⟩ := heval
  refine ⟨c, hc, hcase, hfirst, hsecond, ⟨k, (hbound k _ hrounds).1, hrounds⟩, fun live opts => ?_⟩
  exact (hdetect live opts 2).mpr ⟨by decide, Or.inl hcase⟩

end WholeProgram
