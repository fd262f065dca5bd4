import WholeProgram.Proofs.Dataflow.Aliases
import WholeProgram.Proofs.Dataflow.Liveness

/-!
# The limit on the visits of a worklist

A limit on the number of entries that a solver takes from its worklist is exact, and all or nothing
(`LimitExact`): where the solver ends by itself within the limit, the analysis is the one without a
limit, with the same answer and the same messages; where it does not, there is no result but an error
that names the limit.

* `System.loop_eq_of_taken_le`, `System.loop_stops_of_lt_taken` — so it is for the loop of an equation
  system, by induction on the visits;
* `System.limitExact` — and so for the report on such a system, of which the analyses are views.
-/

namespace WholeProgram

/-- What a limit does to an analysis that takes `entries` entries from its worklist when there is none:
`analysis n` is the analysis under the limit `n`, and `unit` the word for what it counts. -/
structure LimitExact {α : Type} (analysis : Int → Logged AnalysisError α) (iterations : α → Nat)
    (unit : String) (entries : Nat) : Prop where
  /-- A limit that is not positive is none. -/
  off : ∀ n ≤ 0, analysis n = analysis 0
  /-- Without a limit the analysis ends. -/
  ends : (analysis 0).start.1 ≠ .error .unfinished
  /-- A result tells how many entries it took. -/
  counted : ∀ r, (analysis 0).start.1 = .ok r → iterations r = entries
  /-- A limit that is not exceeded changes nothing. -/
  kept : ∀ n : Int, entries ≤ n → analysis n = analysis 0
  /-- One that is exceeded leaves no result. -/
  cut : ∀ n : Int, 0 < n → n < entries →
    (analysis n).start.1 = .error (.iterationLimit n unit)

/-- A view of the results of an analysis has the limit of the analysis. -/
theorem LimitExact.map {α β : Type} {analysis : Int → Logged AnalysisError α} {iterations : α → Nat}
    {unit : String} {entries : Nat} (h : LimitExact analysis iterations unit entries) (view : α → β)
    {iterations' : β → Nat} (hview : ∀ a, iterations' (view a) = iterations a) :
    LimitExact (fun n => do return view (← analysis n)) iterations' unit entries where
  off n hn := by rw [h.off n hn]
  ends := by
    rw [Logged.start_map]
    have hends := h.ends
    cases hr : (analysis 0).start.1 with
    | ok a => nofun
    | error e =>
      rw [hr] at hends
      exact fun he => hends (congrArg _ (Except.error.inj he))
  counted r hr := by
    rw [Logged.start_map] at hr
    cases ha : (analysis 0).start.1 with
    | ok a =>
      rw [ha] at hr
      obtain rfl := Except.ok.inj hr
      exact (hview a).trans (h.counted a ha)
    | error e =>
      rw [ha] at hr
      cases hr
  kept n hn := by rw [h.kept n hn]
  cut n hn hlt := by
    rw [Logged.start_map, h.cut n hn hlt]
    rfl

/-- An analysis that fails before it takes an entry fails so under every limit. -/
theorem LimitExact.of_fails {α : Type} {analysis : Int → Logged AnalysisError α} {iterations : α → Nat}
    {unit : String} {e : AnalysisError} (h : ∀ n, analysis n = throw e) (he : e ≠ .unfinished) :
    LimitExact analysis iterations unit 0 where
  off n _ := by rw [h, h]
  ends := by
    rw [h]
    exact fun heq => he (Except.error.inj heq)
  counted r hr := by
    rw [h] at hr
    cases hr
  kept n _ := by rw [h, h]
  cut n hn hlt := absurd hn (not_lt.mpr hlt.le)

namespace System

variable {F ε : Type} [Inhabited F] [DecidableEq F] {S : System F ε} {n : Int} {fuel : Nat}
  {s : SolverState F}

/-- How many entries a solver took that stopped like this. The entry of a visit that failed is not among
the iterations. -/
def taken (r : SolverState F × Option (Stop ε)) : Nat :=
  match r.2 with
  | some (.fault _) => r.1.iterations + 1
  | _ => r.1.iterations

/-- The number of entries that the solver takes without a limit. -/
def entries (S : System F ε) : Nat := taken (S.solve 0)

theorem overLimit_eq_false {k : Nat} : overLimit n k = false ↔ n ≤ 0 ∨ (k : Int) < n := by
  unfold overLimit
  rw [decide_eq_false_iff_not]
  omega

/-- A round of a loop: nothing waits, or the limit is exceeded, or the visit fails, or the loop goes
on. -/
theorem loop_cases (S : System F ε) (s : SolverState F) :
    (∀ n fuel, S.loop n (fuel + 1) s = (s, none)) ∨
    (∃ t e, t.iterations = s.iterations ∧ ∀ n fuel, S.loop n (fuel + 1) s =
      if overLimit n s.iterations then (s, some (.limit n)) else (t, some (.fault e))) ∨
    ∃ t, t.iterations = s.iterations + 1 ∧ ∀ n fuel, S.loop n (fuel + 1) s =
      if overLimit n s.iterations then (s, some (.limit n)) else S.loop n fuel t := by
  cases hpop : s.waiting.pop? with
  | none => exact Or.inl fun n fuel => by simp only [loop, hpop]
  | some q =>
    obtain ⟨k, rest⟩ := q
    cases hfault : S.fault k (S.input s.facts k) with
    | some e =>
      let t := { s with waiting := rest, facts := s.facts.setInput k (S.input s.facts k) }
      refine Or.inr (Or.inl ⟨t, e, rfl, fun n fuel => ?_⟩)
      simp only [loop, hpop, visit, hfault, t]
    | none =>
      obtain ⟨t, ht⟩ : ∃ t, S.visit { s with waiting := rest } k = (t, none) ∧
          t.iterations = s.iterations + 1 := by
        simp only [visit, hfault]
        exact ⟨_, rfl, rfl⟩
      refine Or.inr (Or.inr ⟨t, ht.2, fun n fuel => ?_⟩)
      simp only [loop, hpop, ht.1]

theorem loop_eq_of_nonpos (hn : n ≤ 0) (fuel : Nat) (s : SolverState F) :
    S.loop n fuel s = S.loop 0 fuel s := by
  induction fuel generalizing s with
  | zero => rfl
  | succ fuel ih =>
    have hfine : ∀ m ≤ 0, overLimit m s.iterations = false := fun m hm =>
      overLimit_eq_false.mpr (Or.inl hm)
    rcases loop_cases S s with h | ⟨t, e, _, h⟩ | ⟨t, _, h⟩
    · rw [h, h]
    · rw [h, h, hfine n hn, hfine 0 le_rfl]
      rfl
    · rw [h, h, hfine n hn, hfine 0 le_rfl]
      exact ih t

/-- A loop takes no entry back. -/
theorem iterations_le_taken (fuel : Nat) (s : SolverState F) :
    s.iterations ≤ taken (S.loop 0 fuel s) := by
  induction fuel generalizing s with
  | zero =>
    unfold loop
    split <;> exact le_rfl
  | succ fuel ih =>
    have hfine : overLimit 0 s.iterations = false := overLimit_eq_false.mpr (Or.inl le_rfl)
    rcases loop_cases S s with h | ⟨t, e, ht, h⟩ | ⟨t, ht, h⟩
    · rw [h]
      exact le_rfl
    · rw [h, hfine]
      exact le_trans ht.ge (Nat.le_succ _)
    · rw [h, hfine]
      exact le_trans (by omega) (ih t)

/-- A loop that ends by itself within the limit is not cut. -/
theorem loop_eq_of_taken_le (hle : taken (S.loop 0 fuel s) ≤ n) : S.loop n fuel s = S.loop 0 fuel s := by
  induction fuel generalizing s with
  | zero => rfl
  | succ fuel ih =>
    have hfine : overLimit 0 s.iterations = false := overLimit_eq_false.mpr (Or.inl le_rfl)
    rcases loop_cases S s with h | ⟨t, e, ht, h⟩ | ⟨t, ht, h⟩
    · rw [h, h]
    · -- the entry of the failing visit is within the limit
      rw [h, hfine] at hle
      have hbound : t.iterations + 1 ≤ n := by exact_mod_cast hle
      rw [h, h, hfine, overLimit_eq_false.mpr (Or.inr (by omega))]
      rfl
    · rw [h, hfine] at hle
      have hbound := iterations_le_taken (S := S) fuel t
      have hbound : (t.iterations : Int) ≤ n := le_trans (by exact_mod_cast hbound) hle
      rw [h, h, hfine, overLimit_eq_false.mpr (Or.inr (by omega))]
      exact ih hle

/-- A loop that takes more entries than the limit is stopped by it. -/
theorem loop_stops_of_lt_taken (hn : 0 < n) (hs : (s.iterations : Int) ≤ n)
    (hlt : n < taken (S.loop 0 fuel s)) : (S.loop n fuel s).2 = some (.limit n) := by
  induction fuel generalizing s with
  | zero =>
    have hzero : taken (S.loop 0 0 s) = s.iterations := by
      unfold loop
      split <;> rfl
    omega
  | succ fuel ih =>
    have hfine : overLimit 0 s.iterations = false := overLimit_eq_false.mpr (Or.inl le_rfl)
    rcases loop_cases S s with h | ⟨t, e, ht, h⟩ | ⟨t, ht, h⟩
    · rw [h] at hlt
      exact absurd hs (not_le.mpr hlt)
    · rw [h, hfine] at hlt
      have hbound : n < t.iterations + 1 := by exact_mod_cast hlt
      have hover : overLimit n s.iterations = true := decide_eq_true ⟨hn, by omega⟩
      rw [h, if_pos hover]
    · by_cases hover : overLimit n s.iterations = true
      · rw [h, if_pos hover]
      · rw [h, hfine] at hlt
        rw [h, if_neg hover]
        rcases overLimit_eq_false.mp (by simpa using hover) with hn' | hless
        · exact absurd hn (not_lt.mpr hn')
        · exact ih (by omega) hlt

/-! ## Analyses by equation systems -/

/-- The limit of the solver is exact. -/
theorem limitExact {S : System F BinaryOp} (hhalts : S.Halts (S.solve 0).2) (place : Nat → String)
    (summary : Nat → String) :
    LimitExact (fun n => S.report n place summary) (·.iterations) "iterations" S.entries := by
  have hsame : ∀ n, S.solve n = S.solve 0 → S.report n place summary = S.report 0 place summary := by
    intro n h
    unfold report
    rw [h]
  have hyields : ∀ n, (S.report n place summary).start.1 = S.verdict n :=
    fun n => (report_yields S n place summary).start
  refine ⟨fun n hn => hsame n (loop_eq_of_nonpos hn _ _), ?_, fun s hs => ?_,
    fun n hn => hsame n (loop_eq_of_taken_le hn), fun n hn hlt => ?_⟩
  · rw [hyields]
    rcases hhalts with hnone | ⟨_, _, e, _, _, hfault⟩
    · rw [verdict_eq_ok.mpr (Prod.ext rfl hnone)]
      nofun
    · rw [verdict_eq_error hfault]
      nofun
  · rw [hyields] at hs
    rw [entries, verdict_eq_ok.mp hs]
    rfl
  · rw [hyields, verdict_eq_error (loop_stops_of_lt_taken hn hn.le hlt)]
    rfl

end System

variable {p : Program} {g : Supergraph}

theorem Constants.limitExact (p : Program) (m : MethodId) :
    LimitExact (analyze p m) (·.iterations) "iterations" (systemOf p (p.method m)).entries :=
  (System.limitExact (solve_halts p _ le_rfl) _ _).map
    (fun s => (⟨s.facts.ins, s.facts.outs, s.iterations⟩ : Solution Fact)) fun _ => rfl

theorem Liveness.limitExact (p : Program) (m : MethodId) :
    LimitExact (analyze p m) (·.iterations) "iterations" (systemOf (p.method m)).entries :=
  (System.limitExact (solve_halts _ le_rfl) _ _).map
    (fun s => (⟨s.facts.outs, s.facts.ins, s.iterations⟩ : Solution IdSet)) fun _ => rfl

namespace Interprocedural

/-- The number of entries that the solver takes without a limit: none where there is no entry method. -/
def entries (g : Supergraph) (S : System Fact BinaryOp) : Nat :=
  if g.entries.isEmpty then 0 else S.entries

theorem limitExact_solve {S : System Fact BinaryOp} (hhalts : S.Halts (S.solve 0).2) :
    LimitExact (solve p g S) (·.iterations) "iterations" (entries g S) := by
  unfold entries
  by_cases hempty : g.entries.isEmpty = true
  · rw [if_pos hempty]
    refine .of_fails (e := AnalysisError.noEntryMethod) (fun n => ?_) nofun
    unfold solve
    rw [if_pos hempty]
    rfl
  · rw [if_neg hempty]
    unfold solve
    simp only [if_neg hempty]
    exact (System.limitExact hhalts _ _).map
      (fun s => (⟨s.facts.ins, s.facts.outs, s.iterations⟩ : Solution Fact)) fun _ => rfl

/-- The limit of interprocedural constant propagation is exact. -/
theorem limitExact (hp : p.WellFormed) (hg : g.Indexed) :
    LimitExact (analyze p g) (·.iterations) "iterations" (entries g (system p g)) :=
  limitExact_solve (solve_halts hp hg le_rfl)

end Interprocedural

/-- The limit of alias-aware constant propagation is exact, whatever the points-to sets. -/
theorem Aliases.limitExact (hp : p.WellFormed) (hg : g.Indexed) (r : PointsTo.Result) :
    LimitExact (analyze p g r) (·.iterations) "iterations"
      (Interprocedural.entries g (system p g (pointsToTable p r))) :=
  Interprocedural.limitExact_solve (solve_halts hp hg le_rfl)

end WholeProgram
