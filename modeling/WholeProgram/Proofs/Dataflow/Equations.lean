import WholeProgram.Dataflow.Solution
import WholeProgram.Proofs.Log
import WholeProgram.Proofs.Dataflow.Lattice
import WholeProgram.Proofs.Dataflow.Worklist
import WholeProgram.Proofs.Program.Places

/-!
# Solutions of equations over the nodes of a method

An analysis of one method is meant to find the least facts that satisfy equations between the facts
before and after its nodes. `LeastSolution` says so of the facts that it returns; an outcome of the
system of the analysis has this property (`Outcome.leastSolution`), and `report_yields` leads from there
to the solver.
-/

namespace WholeProgram

variable {F : Type}

/-- Facts before and after every node. -/
structure Assignment (F : Type) where
  before : Nat → F
  after : Nat → F

namespace Solution

variable [Inhabited F]

/-- The facts of a solution. -/
def assignment (s : Solution F) : Assignment F := ⟨s.inFact, s.outFact⟩

end Solution

/-- The facts satisfy the equations, and are below all facts that do, at every node. -/
structure LeastSolution [LE F] (size : Nat) (E : Assignment F → Prop) (a : Assignment F) : Prop where
  solves : E a
  least : ∀ b, E b → ∀ n < size, a.before n ≤ b.before n ∧ a.after n ≤ b.after n

namespace Method

theorem mem_mentioned {m : Method} {n : Nat} {v : VarId}
    (h : (m.stmtAt n).defined? = some v ∨ v ∈ (m.stmtAt n).uses) : v ∈ m.mentioned := by
  have hnop : m.stmtAt n ≠ .nop := by
    intro hnop
    simp [hnop, Stmt.defined?, Stmt.uses] at h
  obtain ⟨i, hi, hstmt⟩ := exists_instr_of_stmtAt hnop
  rw [← hstmt] at h
  refine List.mem_append_right _ (List.mem_flatMap.mpr ⟨i, hi, ?_⟩)
  simpa using h

/-- Every operation of the method has an operator that exists. -/
def Declared (m : Method) : Prop :=
  ∀ n x op y z, m.stmtAt n = .binary x op y z → op.isDeclared = true

theorem declared_of_body {m : Method}
    (h : m.body.toList.all fun i =>
      match i.stmt with
      | .binary _ op _ _ => op.isDeclared
      | _ => true) : m.Declared := by
  intro n x op y z hs
  obtain ⟨i, hi, hstmt⟩ := exists_instr_of_stmtAt (by rw [hs]; nofun)
  simpa [hstmt, hs] using List.all_eq_true.mp h i hi

end Method

/-! ## The solver of an analysis -/

namespace System

variable [Inhabited F] [DecidableEq F] {S : System F BinaryOp} {limit : Int} {s : SolverState F}

/-- What comes of solving a system, whatever is reported about it. -/
def verdict (S : System F BinaryOp) (limit : Int) : Except AnalysisError (SolverState F) :=
  match S.solve limit with
  | (s, none) => .ok s
  | (_, some e) => .error e.toError

theorem report_yields (S : System F BinaryOp) (limit : Int) (place : Nat → String)
    (summary : Nat → String) : (S.report limit place summary).Yields (S.verdict limit) := by
  unfold report verdict
  rcases S.solve limit with ⟨s, _ | e⟩
  · exact (Logged.Yields.sayAll _).bind_ok ((Logged.Yields.say _ _).bind_ok (.pure s))
  · exact (Logged.Yields.sayAll _).bind_ok (.throw _)

theorem verdict_eq_ok : S.verdict limit = .ok s ↔ S.solve limit = (s, none) := by
  unfold verdict
  rcases S.solve limit with ⟨t, _ | e⟩ <;> simp

theorem verdict_eq_error {e : Stop BinaryOp} (h : (S.solve limit).2 = some e) :
    S.verdict limit = .error e.toError := by
  unfold verdict
  rcases hs : S.solve limit with ⟨t, _ | e'⟩ <;> simp_all

/-- A view of the solver's last state, where there is one, is a view of where it stopped by itself. -/
theorem solve_of_verdict {α : Type} {view : SolverState F → α} {a : α}
    (h : (S.verdict limit).map view = .ok a) : ∃ s, view s = a ∧ S.solve limit = (s, none) := by
  cases hs : S.verdict limit with
  | ok s =>
    rw [hs] at h
    exact ⟨s, Except.ok.inj h, verdict_eq_ok.mp hs⟩
  | error e =>
    rw [hs] at h
    cases h

/-- So it is a view of an outcome. -/
theorem outcome_of_verdict {α : Type} {view : SolverState F → α} {a : α}
    (h : (S.verdict limit).map view = .ok a) : ∃ s, view s = a ∧ S.Outcome s.facts := by
  obtain ⟨s, hview, hs⟩ := solve_of_verdict h
  exact ⟨s, hview, outcome_of_solve hs⟩

/-- An outcome is the least solution of equations that hold of solutions of the system, and that only
hold of bounds on them. -/
theorem Outcome.leastSolution [PartialOrder F] {E : Assignment F → Prop} {s : Facts F} (hS : S.Lawful)
    (h : S.Outcome s) (hsolves : S.Solves s → E ⟨s.input, s.output⟩)
    (hbounds : ∀ b, E b → S.Bounds (Facts.ofFns S.size b.before b.after)) :
    LeastSolution S.size E ⟨s.input, s.output⟩ where
  solves := hsolves (h.solves hS)
  least b hb n hn := by
    have hbelow := h.below hS (hbounds b hb)
    constructor
    · exact (hbelow.input n hn).trans_eq (Facts.input_ofFns _ _ hn)
    · exact (hbelow.output n).trans_eq (Facts.output_ofFns _ _ hn)

end System

namespace Countdown

/-- `main` takes one from its parameter until that is one, and on the way computes a quotient that
nobody reads. -/
def program : Program where
  classes := #[
    { name := "Main", super := none, isAbstract := false, isInterface := false, methods := #[0] }]
  vars := #[
    { name := "n", ty := .prim .int, method := 0, index := 0 },
    { name := "one", ty := .prim .int, method := 0, index := 1 },
    { name := "quotient", ty := .prim .int, method := 0, index := 2 }]
  methods := #[
    { name := "main", cls := 0, isStatic := true, isAbstract := false, subsig := "main(int)",
      returns := some (.prim .int),
      receiver := none, params := #[0], vars := #[0, 1, 2], pos := none,
      body := #[
        { stmt := .literal 1 1, pos := none },
        { stmt := .binary 2 .div 0 1, pos := none },
        { stmt := .binary 0 .sub 0 1, pos := none },
        { stmt := .branch .gt 0 1 1, pos := none },
        { stmt := .ret (some 0), pos := none }] }]
  entries := [0]

theorem declared : (program.method 0).Declared := Method.declared_of_body (by decide)

end Countdown

end WholeProgram
