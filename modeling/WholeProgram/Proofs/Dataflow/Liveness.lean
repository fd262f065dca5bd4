import Mathlib.Algebra.Order.BigOperators.Group.List
import WholeProgram.Dataflow.Liveness
import WholeProgram.Proofs.ControlFlow.Tables
import WholeProgram.Proofs.Dataflow.Constants
import WholeProgram.Proofs.Dataflow.Equations

/-!
# The equations of liveness

* `Equations` — what the live variables of a method are to satisfy;
* `lawful`, `ranked` — its system has the laws that make the solver find the least solution;
* `leastSolution_of_outcome`, `analyze_succeeds` — it does, and it always has one.

Without a limit on the visits, constant propagation and liveness both have a result, and it is the least
solution of their equations (`analyses_least`). The worklist leads to it whichever of the waiting nodes it
takes.
-/

namespace WholeProgram.Liveness

/-- The live variables of a method: none at the exit, after another node those that are live before one
of its successors, and before it those that its statement makes of them. -/
structure Equations (m : Method) (a : Assignment IdSet) : Prop where
  exit : a.before m.exit = ∅
  after : ∀ n < m.exit,
    IsLUB {live | ∃ e ∈ m.edges, e.source = n ∧ a.before e.target = live} (a.after n)
  before : ∀ n < m.exit, a.before n = transfer (m.stmtAt n) (a.after n)

/-- The system of a method over its own graph. -/
abbrev systemOf (m : Method) : System IdSet BinaryOp := system m (Cfg.ofMethod m)

variable {m : Method} {n : Nat}

theorem mem_transfer {s : Stmt Nat} {live : IdSet} {v : VarId} :
    v ∈ transfer s live ↔ v ∈ s.uses ∨ v ∈ live ∧ s.defined? ≠ some v := by
  unfold transfer
  rw [IdSet.mem_foldl_insert]
  cases s.defined? with
  | none => simp
  | some x => simp [eq_comm]

theorem transfer_mono (s : Stmt Nat) {live live' : IdSet} (h : live ≤ live') :
    transfer s live ≤ transfer s live' := by
  intro v hv
  rw [mem_transfer] at hv ⊢
  exact hv.imp_right fun hlive => ⟨h v hlive.1, hlive.2⟩

/-! ## The system -/

theorem isBoundary_eq_false : (systemOf m).isBoundary n = false ↔ n ≠ m.exit := by
  simp [system]

theorem lt_exit (hn : n < m.numNodes) (hb : (systemOf m).isBoundary n = false) : n < m.exit := by
  have hne := isBoundary_eq_false.mp hb
  unfold Method.numNodes at hn
  unfold Method.exit at hne ⊢
  omega

theorem input_eq (s : Facts IdSet) (n : Nat) :
    (systemOf m).input s n =
      ((Cfg.ofMethod m).succs n).foldl (fun acc k => acc ⊔ s.output k) ⊥ := rfl

theorem isLUB_input (s : Facts IdSet) (n : Nat) :
    IsLUB {live | ∃ e ∈ m.edges, e.source = n ∧ s.output e.target = live}
      ((systemOf m).input s n) := by
  have hsuccs : {live | ∃ e ∈ m.edges, e.source = n ∧ s.output e.target = live} =
      {live | ∃ k ∈ (Cfg.ofMethod m).succs n, s.output k = live} := by
    refine Set.ext fun live => ⟨?_, ?_⟩
    · rintro ⟨e, he, rfl, hlive⟩
      exact ⟨e.target, Cfg.mem_succs.mpr ⟨e, Method.mem_edges.mp he, rfl⟩, hlive⟩
    · rintro ⟨k, hk, hlive⟩
      obtain ⟨e, he, rfl⟩ := Cfg.mem_succs.mp hk
      have hsource := Method.source_of_mem_outEdges he
      exact ⟨e, Method.mem_edges.mpr (hsource ▸ he), hsource, hlive⟩
  rw [hsuccs, input_eq]
  exact isLUB_foldl_sup s.output _

theorem lawful (m : Method) : (systemOf m).Lawful where
  initial_le _ := bot_le
  default_eq := rfl
  start_eq _ _ := rfl
  input_mono s t n h := by
    rw [input_eq, input_eq]
    exact foldl_sup_mono _ fun k _ => h k
  input_congr s t n hn h := by
    rw [input_eq, input_eq]
    exact foldl_sup_congr fun k hk => h k fun hlt => Cfg.mem_preds_of_mem_succs hlt hk
  transfer_mono _ _ n _ _ _ h := transfer_mono (m.stmtAt n) h
  transfer_congr _ _ _ _ _ _ := rfl
  dependents_eq_nil _ _ hn _ := Cfg.preds_eq_nil hn

theorem keeps (m : Method) : (systemOf m).Keeps {live | ∀ v ∈ live, v ∈ m.mentioned} where
  initial_mem v hv := absurd hv (IdSet.not_mem_empty v)
  start_mem _ v hv := absurd hv (IdSet.not_mem_empty v)
  input_mem s n h := by
    rw [input_eq]
    refine foldl_sup_induction (fun v hv => absurd hv (IdSet.not_mem_empty v)) ?_ _ fun k _ => h k
    intro live live' hlive hlive' v hv
    exact ((IdSet.mem_union _ _ _).mp hv).elim (hlive v) (hlive' v)
  transfer_mem _ n live hlive v hv := by
    rcases mem_transfer.mp hv with huse | ⟨hv, _⟩
    · exact Method.mem_mentioned (Or.inr huse)
    · exact hlive v hv

/-- Sets of members of a list have a rank: the number of their members. -/
theorem ranked_of_support {U : Set IdSet} {vs : List VarId} (hU : ∀ live ∈ U, ∀ v ∈ live, v ∈ vs) :
    System.Ranked U (fun live : IdSet => (vs.map fun v => if v ∈ live then 1 else 0).sum) vs.length where
  rank_lt live _ live' hlive' hlt := by
    have hle : ∀ v ∈ vs, (if v ∈ live then 1 else 0) ≤ (if v ∈ live' then 1 else 0 : Nat) := by
      intro v _
      by_cases hv : v ∈ live
      · rw [if_pos hv, if_pos (hlt.le v hv)]
      · rw [if_neg hv]
        exact Nat.zero_le _
    refine List.sum_lt_sum _ _ hle ?_
    -- a member of the greater set alone is counted there alone
    obtain ⟨v, hv', hv⟩ : ∃ v, v ∈ live' ∧ ¬ v ∈ live := by
      by_contra hall
      exact hlt.not_ge fun v hv' => by_contra fun hv => hall ⟨v, hv', hv⟩
    refine ⟨v, hU live' hlive' v hv', ?_⟩
    rw [if_neg hv, if_pos hv']
    exact Nat.zero_lt_one
  rank_le live _ := by
    have h := List.sum_le_card_nsmul (vs.map fun v => if v ∈ live then 1 else 0) 1 ?_
    · simpa using h
    · intro l hl
      obtain ⟨v, _, rfl⟩ := List.mem_map.mp hl
      split <;> omega

theorem ranked (m : Method) :
    System.Ranked {live | ∀ v ∈ live, v ∈ m.mentioned}
      (fun live : IdSet => (m.mentioned.map fun v => if v ∈ live then 1 else 0).sum)
      m.mentioned.length :=
  ranked_of_support fun _ hlive => hlive

/-! ## The solver -/

theorem equations_of_solves {s : Facts IdSet} (h : (systemOf m).Solves s) :
    Equations m ⟨s.output, s.input⟩ where
  exit := h.boundary m.exit (Nat.lt_succ_self _) (by simp [system])
  after n hn := by
    show IsLUB _ (s.input n)
    rw [h.input n (Nat.lt_succ_of_lt hn) (isBoundary_eq_false.mpr hn.ne)]
    exact isLUB_input s n
  before n hn := h.output n (Nat.lt_succ_of_lt hn) (isBoundary_eq_false.mpr hn.ne)

theorem bounds_of_equations {a : Assignment IdSet} (h : Equations m a) :
    (systemOf m).Bounds (Facts.ofFns m.numNodes a.after a.before) where
  boundary _ _ _ := bot_le
  input n hn hb := by
    have hn : n < m.numNodes := hn
    rw [Facts.input_ofFns _ _ hn]
    refine (isLUB_input _ n).2 ?_
    rintro live ⟨e, he, hsource, rfl⟩
    by_cases ht : e.target < m.numNodes
    · rw [Facts.output_ofFns _ _ ht]
      exact (h.after n (lt_exit hn hb)).1 ⟨e, he, hsource, rfl⟩
    · rw [Facts.output_eq_default (by simpa [Facts.ofFns] using ht)]
      exact bot_le
  output n hn hb := by
    have hn : n < m.numNodes := hn
    rw [Facts.input_ofFns _ _ hn, Facts.output_ofFns _ _ hn]
    exact (h.before n (lt_exit hn hb)).ge

theorem leastSolution_of_outcome {s : Facts IdSet} (h : (systemOf m).Outcome s) :
    LeastSolution m.numNodes (Equations m) ⟨s.output, s.input⟩ := by
  -- what is given to a node is what is live after it
  have hleast : LeastSolution m.numNodes (fun a => Equations m ⟨a.after, a.before⟩) ⟨s.input, s.output⟩ :=
    h.leastSolution (lawful m) equations_of_solves fun _ => bounds_of_equations
  exact ⟨hleast.solves, fun b hb n hn => (hleast.least ⟨b.after, b.before⟩ hb n hn).symm⟩

theorem settles_of_outcome {s : Facts IdSet} (h : (systemOf m).Outcome s) :
    (systemOf m).Settles s :=
  h.settles (lawful m) (keeps m) (ranked m)

variable {p : Program} {k : MethodId} {limit : Int} {live : Solution IdSet}

theorem analyze_yields (p : Program) (k : MethodId) (limit : Int) :
    (analyze p k limit).Yields
      (((systemOf (p.method k)).verdict limit).map fun s =>
        { before := s.facts.outs, after := s.facts.ins, iterations := s.iterations }) :=
  (System.report_yields _ _ _ _).map _

/-- What the analysis returns is an outcome of the worklist. -/
theorem outcome_of_ok (h : (analyze p k limit).start.1 = .ok live) :
    (systemOf (p.method k)).Outcome ⟨live.after, live.before⟩ := by
  rw [(analyze_yields p k limit).start] at h
  obtain ⟨s, rfl, hs⟩ := System.outcome_of_verdict h
  exact hs

theorem equations_of_ok (h : (analyze p k limit).start.1 = .ok live) :
    Equations (p.method k) live.assignment :=
  (leastSolution_of_outcome (outcome_of_ok h)).solves

theorem visits_suffice (m : Method) :
    m.numNodes + m.mentioned.length * ∑ n ∈ Finset.range m.numNodes, ((Cfg.ofMethod m).preds n).length ≤
      (systemOf m).visits :=
  Nat.add_le_add_left (Nat.mul_le_mul_left _ (Cfg.sum_preds_le _)) _

/-- Without a limit the solver ends. -/
theorem solve_halts (m : Method) (hlimit : limit ≤ 0) :
    (systemOf m).Halts ((systemOf m).solve limit).2 :=
  System.solve_halts (lawful m) (keeps m) (ranked m) hlimit (visits_suffice m)

/-- Without a limit, the analysis has a result. -/
theorem analyze_succeeds (p : Program) (k : MethodId) (hlimit : limit ≤ 0) :
    ∃ live, (analyze p k limit).start.1 = .ok live := by
  obtain ⟨t, ht⟩ := System.solve_ends (lawful (p.method k)) (keeps _) (ranked _)
    (fun _ _ => rfl) hlimit (visits_suffice _)
  rw [(analyze_yields p k limit).start, System.verdict_eq_ok.mpr ht]
  exact ⟨_, rfl⟩

end WholeProgram.Liveness

/-! # The solutions of the analyses of one method -/

namespace WholeProgram

variable {p : Program} {m : MethodId} {limit : Int}

/-- Where all operators exist, both analyses find the least solution of their equations, and they would
find it in any order of the worklist. -/
theorem analyses_least (hops : (p.method m).Declared) (hlimit : limit ≤ 0) :
    (∃ c, (Constants.analyze p m limit).start.1 = .ok c ∧
      LeastSolution (p.method m).numNodes (Constants.Equations p (p.method m)) c.assignment ∧
      (Constants.systemOf p (p.method m)).Settles ⟨c.before, c.after⟩) ∧
    ∃ live, (Liveness.analyze p m limit).start.1 = .ok live ∧
      LeastSolution (p.method m).numNodes (Liveness.Equations (p.method m)) live.assignment ∧
      (Liveness.systemOf (p.method m)).Settles ⟨live.after, live.before⟩ := by
  obtain ⟨c, hc⟩ := Constants.analyze_succeeds hops hlimit
  obtain ⟨live, hlive⟩ := Liveness.analyze_succeeds p m hlimit
  have hcons := Constants.outcome_of_ok hc
  have hvars := Liveness.outcome_of_ok hlive
  constructor
  · exact ⟨c, hc, Constants.leastSolution_of_outcome hcons, Constants.settles_of_outcome hcons⟩
  · exact ⟨live, hlive, Liveness.leastSolution_of_outcome hvars, Liveness.settles_of_outcome hvars⟩

theorem analyses_least_countdown :
    (∃ c, (Constants.analyze Countdown.program 0 0).start.1 = .ok c ∧
      LeastSolution 7 (Constants.Equations Countdown.program (Countdown.program.method 0))
        c.assignment) ∧
    ∃ live, (Liveness.analyze Countdown.program 0 0).start.1 = .ok live ∧
      LeastSolution 7 (Liveness.Equations (Countdown.program.method 0)) live.assignment := by
  obtain ⟨⟨c, hc, hcons, _⟩, live, hlive, hvars, _⟩ :=
    analyses_least Countdown.declared (Int.le_refl 0)
  exact ⟨⟨c, hc, hcons⟩, live, hlive, hvars⟩

end WholeProgram
