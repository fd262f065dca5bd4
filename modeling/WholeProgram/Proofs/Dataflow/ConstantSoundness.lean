import WholeProgram.Proofs.Dataflow.Constants
import WholeProgram.Proofs.Program.Body
import WholeProgram.Proofs.Program.Places

/-!
# Constants hold in every run

Where a method copies and computes integers from integers only, the facts of constant propagation cover
its runs: an integer variable holds what the fact before the statement allows.

* `Covers` — the facts allow what the variables hold;
* `Covers.transfer` — one statement keeps it, by cases on what the statement does;
* `covers_run` — so it holds before every statement of a run, for every solution of the equations;
* `analyze_covers_runs` — and so for the result of the analysis.

Without the condition this fails: a copy of a variable that is not tracked leaves the copied value
undefined, and undefined values are neutral where paths join.
-/

namespace WholeProgram

namespace Stmt

variable {τ : Type}

/-- The datum that the statement defines comes from its operands. -/
def computes : Stmt τ → Bool
  | copy _ _ | binary _ _ _ _ => true
  | _ => false

end Stmt

/-- Integer variables are copied and computed from integer variables only. -/
def Method.IntOperands (p : Program) (m : Method) : Prop :=
  ∀ n x, (m.stmtAt n).defined? = some x → p.holdsInt x = true → (m.stmtAt n).computes = true →
    ∀ y ∈ (m.stmtAt n).uses, p.holdsInt y = true

theorem Method.intOperands_of_body {p : Program} {m : Method}
    (h : m.body.toList.all fun i =>
      i.stmt.defined?.any p.holdsInt → i.stmt.computes → i.stmt.uses.all p.holdsInt) :
    m.IntOperands p := by
  intro n x hx hint hcomp y hy
  have hnop : m.stmtAt n ≠ .nop := by
    intro hnop
    rw [hnop] at hx
    cases hx
  obtain ⟨i, hi, hstmt⟩ := exists_instr_of_stmtAt hnop
  have hall := List.all_eq_true.mp h i hi
  rw [hstmt, hx] at hall
  simp only [Option.any_some, hint, hcomp, forall_const, decide_eq_true_eq] at hall
  exact List.all_eq_true.mp hall y hy

/-- Whether all methods do can be checked method by method. -/
theorem Method.intOperands_of_methods {p : Program}
    (h : ∀ m ∈ p.methods.toList, m.body.toList.all fun i =>
      i.stmt.defined?.any p.holdsInt → i.stmt.computes → i.stmt.uses.all p.holdsInt) (m : MethodId) :
    (p.method m).IntOperands p := by
  refine intOperands_of_body ?_
  rcases p.method_mem_or_default m with hm | hm
  · exact h _ hm
  · rw [hm]
    rfl

namespace Value

open Body

/-- What is known of an integer variable allows it to hold this datum. -/
def Allows (a : Value) (d : Datum) : Prop := a = nac ∨ ∃ c, a = const c ∧ d = .int c

variable {a b : Value} {d e r : Datum}

theorem allows_nac (d : Datum) : nac.Allows d := Or.inl rfl

theorem allows_const (c : Int64) : (const c).Allows (.int c) := Or.inr ⟨c, rfl, rfl⟩

theorem Allows.mono (h : a.Allows d) (hab : a ≤ b) : b.Allows d := by
  rcases h with rfl | ⟨c, rfl, rfl⟩
  · rcases le_def.mp hab with h | rfl | rfl
    · cases h
    · exact allows_nac d
    · exact allows_nac d
  · rcases const_le hab with rfl | rfl
    · exact allows_const c
    · exact allows_nac _

theorem Allows.eq_int {c : Int64} (h : (const c).Allows d) : d = .int c := by
  rcases h with h | ⟨c', h, rfl⟩
  · cases h
  · rw [Value.const.inj h]

/-- The abstract operators allow what the operators compute. -/
theorem allows_binary {op : BinaryOp} (h : Computes op d e (some r)) (ha : a.Allows d)
    (hb : b.Allows e) : (binary op a b).Allows r := by
  rcases ha with rfl | ⟨x, rfl, rfl⟩
  · cases b <;> exact allows_nac r
  · rcases hb with rfl | ⟨y, rfl, rfl⟩
    · exact allows_nac r
    · -- two constants
      show (op.compute x y).Allows r
      rw [BinaryOp.compute_eq]
      cases h with
      | ints hc =>
        rw [hc]
        exact allows_const _
      | compared _ hnot => exact absurd ⟨rfl, rfl⟩ (hnot x y)
      | anything _ hnot => exact absurd ⟨rfl, rfl⟩ (hnot x y)
      | undeclared _ hop =>
        cases op with
        | undeclared => exact allows_nac r
        | _ => cases hop

end Value

namespace Constants

open Body

variable {p : Program} {m : Method} {f g : Fact} {vars : Vars}

/-- What the fact knows of the integer variables allows what they hold. -/
def Covers (p : Program) (f : Fact) (vars : Vars) : Prop :=
  ∀ v d, vars v = some d → p.holdsInt v = true → (f.get v).Allows d

theorem Covers.mono (h : Covers p f vars) (hfg : f ≤ g) : Covers p g vars :=
  fun v d hv hint => (h v d hv hint).mono (hfg v)

/-- The right-hand side of a definition allows what the definition gets. -/
theorem allows_rhsValue {s : Stmt Nat} {ds : List Datum} {k : EdgeKind} {d : Datum}
    (hacts : Acts s ds k (some d)) (hreads : vars.Reads s.uses ds)
    (huses : s.computes = true → ∀ y ∈ s.uses, ∀ e, vars y = some e → (f.get y).Allows e) :
    (rhsValue s f).Allows d := by
  cases hacts with
  | literal => exact Value.allows_const _
  | copy => exact huses rfl _ List.mem_cons_self _ (Vars.reads_one.mp hreads)
  | binary hcomp =>
    obtain ⟨hy, hz⟩ := Vars.reads_two.mp hreads
    exact Value.allows_binary hcomp (huses rfl _ List.mem_cons_self _ hy)
      (huses rfl _ (List.mem_cons_of_mem _ List.mem_cons_self) _ hz)
  | produce _ hs =>
    cases s with
    | new | loadField | loadArray | invoke | unknown => exact Value.allows_nac d
    | _ => cases hs

/-- One statement keeps the variables covered. -/
theorem Covers.transfer {n : Nat} {ds : List Datum} {k : EdgeKind} {d : Option Datum}
    (hint : m.IntOperands p) (h : Covers p f vars) (hreads : vars.Reads (m.stmtAt n).uses ds)
    (hacts : Acts (m.stmtAt n) ds k d) :
    Covers p (transfer p (m.stmtAt n) f) (vars.put (m.stmtAt n).defined? d) := by
  intro v e hv hvint
  by_cases hdef : (m.stmtAt n).defined? = some v
  · rw [get_transfer_defined f hdef hvint]
    cases d with
    | none =>
      rw [hacts.defined?_eq_none] at hdef
      cases hdef
    | some r =>
      rw [hdef, Vars.put_self] at hv
      cases hv
      exact allows_rhsValue hacts hreads fun hcomp y hy e he =>
        h y e he (hint n v hdef hvint hcomp y hy)
  · rw [get_transfer_of_ne f hdef]
    rw [Vars.put_of_ne hdef] at hv
    exact h v e hv hvint

/-- At the entry, the fact covers whatever the receiver and the parameters hold. -/
theorem covers_entryFact (h : ∀ v, (vars v).isSome = true → v ∈ m.receiver.toList ++ m.params.toList) :
    Covers p (entryFact m) vars := by
  intro v d hv _
  rw [get_entryFact, if_pos (h v (by rw [hv]; rfl))]
  exact Value.allows_nac d

/-- What is before the first statement covers what the variables start with. -/
theorem covers_start {a : Assignment Fact} (h : Equations p m a) (hstart : Starts m vars) :
    Covers p (a.before 1) vars := by
  have hentry : (⟨.entry, 0, 1⟩ : Edge) ∈ m.edges := Method.mem_edges.mpr List.mem_cons_self
  have hle : entryFact m ≤ a.before 1 := by
    rw [← h.entry]
    exact (h.before 1 (by unfold Method.numNodes; omega) Nat.one_ne_zero).1 ⟨_, hentry, rfl, rfl⟩
  exact (covers_entryFact fun v => (hstart v).mp).mono hle

/-- Before every statement of a run, the facts of a solution cover the variables. -/
theorem covers_run {a : Assignment Fact} {vars' : Vars} {es : List Event} {n : Nat}
    (h : Equations p m a) (hint : m.IntOperands p) (hstart : Starts m vars)
    (hrun : Run m vars es (.running n vars')) (hn : n < m.numNodes) :
    Covers p (a.before n) vars' := by
  generalize hs : State.running n vars' = s at hrun
  induction hrun generalizing n vars' with
  | start =>
    cases hs
    exact covers_start h hstart
  | step hrun hstep ih =>
    cases hstep with
    | @go k _ _ _ _ e hreads hacts hfind =>
      cases hs
      obtain ⟨he, hsource, _⟩ := edge_of_find? hfind
      have hk : k < m.numNodes := hsource ▸ Method.source_lt_of_mem_edges he
      have htarget : e.target ≠ 0 :=
        Method.target_ne_zero_of_mem_outEdges (List.mem_of_find?_eq_some hfind)
      have hafter := Covers.transfer hint (ih hk rfl) hreads hacts
      rw [← h.after k hk hrun.node_ne_zero] at hafter
      exact hafter.mono ((h.before e.target hn htarget).1 ⟨e, he, rfl, by rw [hsource]⟩)
    | ret | stop => cases hs

end Constants

namespace Countdown

open Body

/-- The parameter is three. -/
def vars : Vars := Vars.put (fun _ => none) (some 0) (some (.int 3))

theorem starts : Starts (program.method 0) vars := starts_of_param rfl _

theorem intOperands : (program.method 0).IntOperands program :=
  Method.intOperands_of_body (by decide)

/-- The run up to the quotient. -/
theorem run : Run (program.method 0) vars [⟨1, some .fallThrough, none⟩]
    (.running 2 (vars.put (some 1) (some (.int 1)))) := by
  have hreads : vars.Reads ((program.method 0).stmtAt 1).uses [] := rfl
  have hacts : Acts ((program.method 0).stmtAt 1) [] .fallThrough (some (.int 1)) := .literal
  have hedge : ((program.method 0).outEdges 1).find? (·.kind = .fallThrough) =
      some ⟨.fallThrough, 1, 2⟩ := rfl
  exact .step .start (.go hreads hacts hedge)

end Countdown

namespace Constants

open Body

variable {p : Program}

/-- Whenever a run is about to execute a statement, an integer variable that holds `c` is not a constant
before that statement, or the constant `c`. Without a limit there always is a result. -/
theorem analyze_covers_runs {k : MethodId} (hint : (p.method k).IntOperands p) :
    (∀ limit c, (analyze p k limit).start.1 = .ok c →
      ∀ vars es i vars', Starts (p.method k) vars →
        Run (p.method k) vars es (.running (i + 1) vars') → i < (p.method k).body.size →
        ∀ v x, p.holdsInt v = true → vars' v = some (.int x) →
          (c.inFact (i + 1)).get v = .nac ∨ (c.inFact (i + 1)).get v = .const x) ∧
    ((p.method k).Declared → ∀ limit ≤ 0, ∃ c, (analyze p k limit).start.1 = .ok c) := by
  constructor
  · intro limit c hc vars es i vars' hstart hrun hi v x hv hx
    have hn : i + 1 < (p.method k).numNodes := by
      unfold Method.numNodes
      omega
    rcases covers_run (equations_of_ok hc) hint hstart hrun hn v _ hx hv with hnac | ⟨y, hy, hxy⟩
    · exact Or.inl hnac
    · rw [Datum.int.inj hxy]
      exact Or.inr hy
  · intro hops limit hlimit
    exact analyze_succeeds hops hlimit

theorem analyze_covers_runs_countdown :
    ∃ c, (analyze Countdown.program 0 0).start.1 = .ok c ∧
      ((c.inFact 2).get 1 = .nac ∨ (c.inFact 2).get 1 = .const 1) := by
  obtain ⟨hsound, hexists⟩ := analyze_covers_runs Countdown.intOperands
  obtain ⟨c, hc⟩ := hexists Countdown.declared 0 (Int.le_refl 0)
  exact ⟨c, hc, hsound 0 c hc _ _ 1 _ Countdown.starts Countdown.run (by decide) 1 1 (by decide)
    (Vars.put_self _)⟩

end Constants

end WholeProgram
