import Mathlib.Algebra.Order.BigOperators.Group.List
import WholeProgram.Dataflow.Constants
import WholeProgram.Proofs.ControlFlow.Tables
import WholeProgram.Proofs.Dataflow.Equations

/-!
# The equations of constant propagation

* `Equations` — what the facts of a method are to satisfy;
* `lawful`, `ranked` — its system has the laws that make the solver find the least solution;
* `leastSolution_of_outcome`, `analyze_succeeds` — it does, and it has one whenever all operators
  exist;
* `plausible_inFact` — facts bind variables of the method only, and those without integers never to a
  constant.
-/

namespace WholeProgram

namespace Fact

/-- Nothing is known of these variables, and no value was seen of the others. -/
def unknown (vs : List VarId) : Fact := vs.foldl (fun f v => f.update v .nac) empty

theorem get_unknown (vs : List VarId) (v : VarId) :
    (unknown vs).get v = if v ∈ vs then .nac else .undefined := by
  have hfold : ∀ f : Fact, (vs.foldl (fun f v => f.update v .nac) f).get v =
      if v ∈ vs then .nac else f.get v := by
    induction vs with
    | nil => simp
    | cons w vs ih =>
      intro f
      rw [List.foldl_cons, ih, get_update]
      by_cases hv : v ∈ vs
      · simp [hv]
      · by_cases hw : w = v
        · simp [hw]
        · simp [hv, hw, Ne.symm hw]
  rw [unknown, hfold, get_empty]

end Fact

namespace Constants

/-- The facts of constant propagation: the receiver and the parameters are unknown at the entry, what
holds before another node is the join of what holds after its predecessors, and what holds after it is
the effect of its statement. -/
structure Equations (p : Program) (m : Method) (a : Assignment Fact) : Prop where
  entry : a.after 0 = entryFact m
  before : ∀ n < m.numNodes, n ≠ 0 →
    IsLUB {f | ∃ e ∈ m.edges, e.target = n ∧ a.after e.source = f} (a.before n)
  after : ∀ n < m.numNodes, n ≠ 0 → a.after n = transfer p (m.stmtAt n) (a.before n)

/-- The system of a method over its own graph. -/
abbrev systemOf (p : Program) (m : Method) : System Fact BinaryOp := system p m (Cfg.ofMethod m)

variable {p : Program} {m : Method} {n : Nat}

/-! ## The effect of a statement -/

theorem rhsValue_mono (s : Stmt Nat) {f g : Fact} (h : f ≤ g) : rhsValue s f ≤ rhsValue s g := by
  cases s with
  | copy x y => exact h y
  | binary x op y z => exact Value.binary_mono op (h y) (h z)
  | _ => exact le_rfl

theorem transfer_mono (p : Program) (s : Stmt Nat) {f g : Fact} (h : f ≤ g) :
    transfer p s f ≤ transfer p s g := by
  unfold transfer
  split
  · exact h
  · split
    · exact Fact.update_mono _ h (rhsValue_mono s h)
    · exact h

theorem get_transfer_of_ne {s : Stmt Nat} {v : VarId} (f : Fact) (h : s.defined? ≠ some v) :
    (transfer p s f).get v = f.get v := by
  unfold transfer
  split
  · rfl
  · rename_i x hx
    split
    · exact Fact.get_update_of_ne _ _ fun hxv => h (hxv ▸ hx)
    · rfl

theorem get_transfer_defined {s : Stmt Nat} {v : VarId} (f : Fact) (h : s.defined? = some v)
    (hint : p.holdsInt v = true) : (transfer p s f).get v = rhsValue s f := by
  unfold transfer
  rw [h]
  simp [hint]

theorem get_transfer_untracked {s : Stmt Nat} {v : VarId} (f : Fact)
    (hint : p.holdsInt v ≠ true) : (transfer p s f).get v = f.get v := by
  unfold transfer
  split
  · rfl
  · split
    · rename_i x _ hx
      exact Fact.get_update_of_ne _ _ fun hxv => hint (hxv ▸ hx)
    · rfl

/-! ## The system -/

theorem input_eq (s : Facts Fact) (n : Nat) :
    (systemOf p m).input s n =
      ((Cfg.ofMethod m).preds n).foldl (fun acc k => acc ⊔ s.output k) ⊥ := by
  show ((Cfg.ofMethod m).preds n).foldl (fun acc k => (s.output k).join acc) Fact.empty = _
  congr 1
  funext acc k
  exact sup_comm _ _

theorem isLUB_input (s : Facts Fact) (hn : n < m.numNodes) :
    IsLUB {f | ∃ e ∈ m.edges, e.target = n ∧ s.output e.source = f} ((systemOf p m).input s n) := by
  have hpreds : {f | ∃ e ∈ m.edges, e.target = n ∧ s.output e.source = f} =
      {f | ∃ k ∈ (Cfg.ofMethod m).preds n, s.output k = f} := by
    refine Set.ext fun f => ⟨?_, ?_⟩
    · rintro ⟨e, he, htarget, hf⟩
      exact ⟨e.source, (Cfg.mem_preds hn).mpr ⟨e, he, htarget, rfl⟩, hf⟩
    · rintro ⟨k, hk, hf⟩
      obtain ⟨e, he, htarget, rfl⟩ := (Cfg.mem_preds hn).mp hk
      exact ⟨e, he, htarget, hf⟩
  rw [hpreds, input_eq]
  exact isLUB_foldl_sup s.output _

theorem lawful (p : Program) (m : Method) : (systemOf p m).Lawful where
  initial_le _ := bot_le
  default_eq := rfl
  start_eq n hb := by
    have hn : n ≠ 0 := by simpa [system] using hb
    simp [system, hn]
  input_mono s t n h := by
    rw [input_eq, input_eq]
    exact foldl_sup_mono _ fun k _ => h k
  input_congr s t n hn h := by
    rw [input_eq, input_eq]
    refine foldl_sup_congr fun k hk => h k fun _ => ?_
    exact Cfg.mem_succs_of_mem_preds hk
  transfer_mono _ _ n f g _ h := transfer_mono p (m.stmtAt n) h
  transfer_congr _ _ _ _ _ _ := rfl
  dependents_eq_nil n _ hn _ := Cfg.succs_eq_nil (Nat.le_of_succ_le hn)

/-! ## The facts of a method -/

/-- A fact about the variables of the method, in which only integers are constants. -/
structure Plausible (p : Program) (m : Method) (f : Fact) : Prop where
  mentioned : ∀ v, f.get v ≠ .undefined → v ∈ m.mentioned
  holdsInt : ∀ v c, f.get v = .const c → p.holdsInt v = true

theorem plausible_empty : Plausible p m Fact.empty where
  mentioned v h := absurd (Fact.get_empty v) h
  holdsInt v c h := by simp at h

theorem Plausible.sup {f g : Fact} (hf : Plausible p m f) (hg : Plausible p m g) :
    Plausible p m (f ⊔ g) where
  mentioned v h := by
    rw [← Fact.join_eq_sup, Fact.get_join] at h
    by_cases hfv : f.get v = .undefined
    · refine hg.mentioned v fun hgv => h ?_
      rw [hfv, hgv]
      rfl
    · exact hf.mentioned v hfv
  holdsInt v c h := by
    rw [← Fact.join_eq_sup, Fact.get_join] at h
    cases hfv : f.get v with
    | const d => exact hf.holdsInt v d hfv
    | nac =>
      rw [hfv] at h
      cases g.get v <;> simp [Value.join] at h
    | undefined =>
      refine hg.holdsInt v c ?_
      rw [hfv] at h
      cases hgv : g.get v <;> simp_all [Value.join]

/-- The fact at the entry binds the receiver and the parameters to no constant. -/
theorem get_entryFact (m : Method) (v : VarId) :
    (entryFact m).get v = if v ∈ m.receiver.toList ++ m.params.toList then .nac else .undefined :=
  Fact.get_unknown _ v

theorem plausible_entryFact : Plausible p m (entryFact m) where
  mentioned v h := by
    rw [get_entryFact] at h
    by_cases hv : v ∈ m.receiver.toList ++ m.params.toList
    · exact List.mem_append_left _ hv
    · simp [hv] at h
  holdsInt v c h := by
    rw [get_entryFact] at h
    split at h <;> cases h

theorem Plausible.transfer {f : Fact} (hf : Plausible p m f) (n : Nat) :
    Plausible p m (transfer p (m.stmtAt n) f) where
  mentioned v h := by
    by_cases hv : (m.stmtAt n).defined? = some v
    · exact Method.mem_mentioned (Or.inl hv)
    · rw [get_transfer_of_ne f hv] at h
      exact hf.mentioned v h
  holdsInt v c h := by
    by_contra hint
    rw [get_transfer_untracked f hint] at h
    exact hint (hf.holdsInt v c h)

theorem keeps (p : Program) (m : Method) : (systemOf p m).Keeps {f | Plausible p m f} where
  initial_mem := plausible_empty
  start_mem n := by
    show Plausible p m (if n = 0 then entryFact m else Fact.empty)
    split
    · exact plausible_entryFact
    · exact plausible_empty
  input_mem s n h := by
    rw [input_eq]
    exact foldl_sup_induction plausible_empty (fun hf hg => hf.sup hg) _ fun k _ => h k
  transfer_mem _ n _ hf := hf.transfer n

/-- Facts about a list of variables have a rank: the sum of the levels of the variables. -/
theorem ranked_of_support {U : Set Fact} {vs : List VarId}
    (hU : ∀ f ∈ U, ∀ v, f.get v ≠ .undefined → v ∈ vs) :
    System.Ranked U (fun f => (vs.map fun v => (f.get v).level).sum) (2 * vs.length) where
  rank_lt f _ g hg hlt := by
    refine List.sum_lt_sum _ _ (fun v _ => Value.level_mono (hlt.le v)) ?_
    -- somewhere they differ, and there the greater one is not undefined
    obtain ⟨v, hv⟩ : ∃ v, f.get v ≠ g.get v := by
      by_contra hall
      exact hlt.ne (Fact.ext_get fun v => by_contra fun h => hall ⟨v, h⟩)
    refine ⟨v, hU g hg v fun hundef => hv ?_, Value.level_lt (hlt.le v) hv⟩
    rw [hundef]
    exact Value.eq_undefined_of_le (hundef ▸ hlt.le v)
  rank_le f _ := by
    have h := List.sum_le_card_nsmul (vs.map fun v => (f.get v).level) 2 ?_
    · simpa [Nat.mul_comm] using h
    · intro l hl
      obtain ⟨v, _, rfl⟩ := List.mem_map.mp hl
      exact Value.level_le_two _

theorem ranked (p : Program) (m : Method) :
    System.Ranked {f | Plausible p m f} (fun f => (m.mentioned.map fun v => (f.get v).level).sum)
      (2 * m.mentioned.length) :=
  ranked_of_support fun _ hf => hf.mentioned

/-! ## The solver -/

theorem equations_of_solves {s : Facts Fact} (h : (systemOf p m).Solves s) :
    Equations p m ⟨s.input, s.output⟩ where
  entry := h.boundary 0 (Nat.zero_lt_succ _) rfl
  before n hn h0 := by
    show IsLUB _ (s.input n)
    rw [h.input n hn (by simpa [system] using h0)]
    exact isLUB_input s hn
  after n hn h0 := h.output n hn (by simpa [system] using h0)

theorem bounds_of_equations {a : Assignment Fact} (h : Equations p m a) :
    (systemOf p m).Bounds (Facts.ofFns m.numNodes a.before a.after) where
  boundary n hn hb := by
    obtain rfl : n = 0 := by simpa [system] using hb
    have hn : 0 < m.numNodes := hn
    rw [Facts.output_ofFns _ _ hn, h.entry]
    exact le_rfl
  input n hn hb := by
    have hn : n < m.numNodes := hn
    rw [Facts.input_ofFns _ _ hn]
    refine (isLUB_input _ hn).2 ?_
    rintro f ⟨e, he, htarget, rfl⟩
    rw [Facts.output_ofFns _ _ (Method.source_lt_of_mem_edges he)]
    exact (h.before n hn (by simpa [system] using hb)).1 ⟨e, he, htarget, rfl⟩
  output n hn hb := by
    have hn : n < m.numNodes := hn
    rw [Facts.input_ofFns _ _ hn, Facts.output_ofFns _ _ hn]
    exact (h.after n hn (by simpa [system] using hb)).ge

theorem leastSolution_of_outcome {s : Facts Fact} (h : (systemOf p m).Outcome s) :
    LeastSolution m.numNodes (Equations p m) ⟨s.input, s.output⟩ :=
  h.leastSolution (lawful p m) equations_of_solves fun _ => bounds_of_equations

theorem settles_of_outcome {s : Facts Fact} (h : (systemOf p m).Outcome s) :
    (systemOf p m).Settles s :=
  h.settles (lawful p m) (keeps p m) (ranked p m)

variable {k : MethodId} {limit : Int} {c : Solution Fact}

theorem analyze_yields (p : Program) (k : MethodId) (limit : Int) :
    (analyze p k limit).Yields
      (((systemOf p (p.method k)).verdict limit).map fun s =>
        { before := s.facts.ins, after := s.facts.outs, iterations := s.iterations }) :=
  (System.report_yields _ _ _ _).map _

/-- What the analysis returns is an outcome of the worklist. -/
theorem outcome_of_ok (h : (analyze p k limit).start.1 = .ok c) :
    (systemOf p (p.method k)).Outcome ⟨c.before, c.after⟩ := by
  rw [(analyze_yields p k limit).start] at h
  obtain ⟨s, rfl, hs⟩ := System.outcome_of_verdict h
  exact hs

theorem equations_of_ok (h : (analyze p k limit).start.1 = .ok c) :
    Equations p (p.method k) c.assignment :=
  (leastSolution_of_outcome (outcome_of_ok h)).solves

/-- The facts before a node bind variables of the method only, and those without integers never to a
constant. -/
theorem plausible_inFact (h : (analyze p k limit).start.1 = .ok c) (n : Nat) :
    Plausible p (p.method k) (c.inFact n) :=
  ((outcome_of_ok h).within (lawful p _) (keeps p _)).input n

/-- A statement whose operator exists can always be evaluated. -/
theorem fault_of_declared {s : Stmt Nat} (h : ∀ x op y z, s = .binary x op y z → op.isDeclared = true)
    (f : Fact) : fault p s f = none := by
  unfold fault
  split
  · rename_i x op y z
    simp [Value.faulty, h x op y z rfl]
  · rfl

theorem fault_eq_none (h : m.Declared) (n : Nat) (f : Fact) : (systemOf p m).fault n f = none :=
  fault_of_declared (h n) f

theorem visits_suffice (p : Program) (m : Method) :
    m.numNodes + 2 * m.mentioned.length * ∑ n ∈ Finset.range m.numNodes, ((Cfg.ofMethod m).succs n).length ≤
      (systemOf p m).visits :=
  Nat.add_le_add_left (Nat.mul_le_mul_left _ (Cfg.sum_succs_le _)) _

/-- Without a limit the solver ends. -/
theorem solve_halts (p : Program) (m : Method) (hlimit : limit ≤ 0) :
    (systemOf p m).Halts ((systemOf p m).solve limit).2 :=
  System.solve_halts (lawful p m) (keeps p m) (ranked p m) hlimit (visits_suffice p m)

/-- Without a limit, and with operators that exist, the analysis has a result. -/
theorem analyze_succeeds (h : (p.method k).Declared) (hlimit : limit ≤ 0) :
    ∃ c, (analyze p k limit).start.1 = .ok c := by
  obtain ⟨t, ht⟩ := System.solve_ends (lawful p (p.method k)) (keeps p _) (ranked p _)
    (fault_eq_none h) hlimit (visits_suffice p _)
  rw [(analyze_yields p k limit).start, System.verdict_eq_ok.mpr ht]
  exact ⟨_, rfl⟩

end Constants

end WholeProgram
