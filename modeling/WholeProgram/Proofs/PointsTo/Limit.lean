import WholeProgram.Proofs.Dataflow.Limit
import WholeProgram.Proofs.PointsTo.Parts
import WholeProgram.Proofs.PointsTo.Termination

/-!
# The limit on the entries of the pointer analysis

The solver of the pointer analysis counts an entry when it takes it from the worklist, and only then
looks at the limit. Two solvers that differ in their limits take the same steps until the smaller limit
is exceeded:

* `Machine.step_cases` — a step takes one entry at most, and none where it carries out a task;
* `Machine.step_withLimit`, `Machine.step_over` — the steps under a limit;
* `Machine.run_withLimit`, `Machine.run_over` — and so the runs;
* `limits_exact` — the limits of all analyses are exact.
-/

namespace WholeProgram.PointsTo

namespace Machine

variable {π : Type} {S : Setting π} {s t : Machine π} {halt : Halt} {n : Int}

/-- The setting with another limit. -/
def Setting.withLimit (S : Setting π) (n : Int) : Setting π :=
  { S with options := { S.options with limit := n } }

/-! ## Entries are counted when they are taken -/

/-- No part of a step counts an entry. -/
theorem Part.iterations (h : Part S s t) : t.iterations = s.iterations := by
  cases h <;> rfl

/-- What a step does under every limit: it carries out a task, or it is done, or it takes an entry
unless that is one too many. -/
theorem step_cases (S : Setting π) (s : Machine π) :
    (∃ r, r.1.iterations = s.iterations ∧ ∀ n, s.step (S.withLimit n) = r) ∨
    ∃ t, t.iterations = s.iterations + 1 ∧ ∀ n, s.step (S.withLimit n) =
      if 0 < n ∧ n < (s.iterations + 1 : Nat) then
        ({ s with iterations := s.iterations + 1 },
          some (.failed (.iterationLimit n "worklist entries")))
      else (t, none) := by
  cases hagenda : s.agenda with
  | cons task rest =>
    left
    have hiter := (parts_perform (S := S) { s with agenda := rest } task).keeps Part.iterations
    have hperform : ∀ n, perform (S.withLimit n) { s with agenda := rest } task =
        perform S { s with agenda := rest } task := fun n => by cases task <;> rfl
    rcases hp : perform S { s with agenda := rest } task with ⟨t, _ | e⟩
    · rw [hp] at hiter
      exact ⟨(t, none), hiter, fun n => by simp only [step, hagenda, hperform, hp]⟩
    · rw [hp] at hiter
      exact ⟨(t, some (.failed e)), hiter, fun n => by simp only [step, hagenda, hperform, hp]⟩
  | nil =>
    cases hpop : s.core.waiting.pop? with
    | none => exact Or.inl ⟨(s, some .done), rfl, fun n => by simp only [step, hagenda, hpop]⟩
    | some r =>
      obtain ⟨⟨q, set⟩, w⟩ := r
      let s' : Machine π :=
        { core := { s.core with waiting := w }, plugin := s.plugin, iterations := s.iterations + 1 }
      refine Or.inr ⟨takeEntry S q set s', (parts_takeEntry q set s').keeps Part.iterations, fun n => ?_⟩
      simp only [step, hagenda, hpop, Setting.withLimit]
      rfl

theorem iterations_begin (S : Setting π) : (begin S).iterations = 0 := rfl

/-! ## Runs under a limit -/

theorem iterations_le_step (S : Setting π) (s : Machine π) :
    s.iterations ≤ (s.step (S.withLimit 0)).1.iterations := by
  rcases step_cases S s with ⟨r, hr, h⟩ | ⟨t, ht, h⟩
  · rw [h, hr]
  · rw [h, if_neg (by omega)]
    exact ht ▸ Nat.le_succ _

/-- A step that ends the run without a limit takes no entry. -/
theorem iterations_halting_step (h : s.step (S.withLimit 0) = (t, some halt)) :
    t.iterations = s.iterations := by
  rcases step_cases S s with ⟨r, hr, hall⟩ | ⟨u, _, hall⟩
  · rw [hall] at h
    rw [h] at hr
    exact hr
  · rw [hall, if_neg (by omega)] at h
    cases h

/-- The limit does not matter to a step that stays within it. -/
theorem step_withLimit (h : (s.step (S.withLimit 0)).1.iterations ≤ n) :
    s.step (S.withLimit n) = s.step (S.withLimit 0) := by
  rcases step_cases S s with ⟨r, _, hall⟩ | ⟨t, ht, hall⟩
  · rw [hall, hall]
  · rw [hall 0, if_neg (by omega)] at h
    have hfine : ¬ (0 < n ∧ n < (s.iterations + 1 : Nat)) := by
      have h : (t.iterations : Int) ≤ n := h
      omega
    rw [hall, hall, if_neg hfine, if_neg (by omega)]

/-- A step over the limit is the last one. -/
theorem step_over (hn : 0 < n) (h : n < (s.step (S.withLimit 0)).1.iterations)
    (hs : (s.iterations : Int) ≤ n) :
    ∃ t, s.step (S.withLimit n) = (t, some (.failed (.iterationLimit n "worklist entries"))) := by
  rcases step_cases S s with ⟨r, hr, hall⟩ | ⟨t, ht, hall⟩
  · rw [hall, hr] at h
    exact absurd hs (not_le.mpr h)
  · rw [hall 0, if_neg (by omega)] at h
    have h : n < (t.iterations : Int) := h
    exact ⟨_, by rw [hall, if_pos ⟨hn, by omega⟩]⟩

theorem iterations_le_steps (h : Steps (S.withLimit 0) s t) : s.iterations ≤ t.iterations := by
  induction h with
  | refl => exact le_rfl
  | @tail b c _ hnext ih =>
    have hle := iterations_le_step S b
    rw [show b.step (S.withLimit 0) = (c, none) from hnext] at hle
    exact ih.trans hle

/-- A run that ends by itself within the limit is not cut. -/
theorem run_withLimit (h : s.run (S.withLimit 0) = some (t, halt)) (hle : t.iterations ≤ n) :
    s.run (S.withLimit n) = some (t, halt) := by
  obtain ⟨u, hsteps, hend⟩ := run_eq_some_iff.mp h
  have hu : (u.iterations : Int) ≤ n := iterations_halting_step hend ▸ hle
  refine run_eq_some_iff.mpr ⟨u, ?_, ?_⟩
  · clear h hend
    induction hsteps using Relation.ReflTransGen.head_induction_on with
    | refl => exact .refl
    | @head a b hnext hrest ih =>
      have hb : (b.iterations : Int) ≤ n :=
        le_trans (by exact_mod_cast iterations_le_steps hrest) hu
      have hstep : a.step (S.withLimit 0) = (b, none) := hnext
      refine .head ?_ ih
      show a.step (S.withLimit n) = (b, none)
      rw [step_withLimit (by rw [hstep]; exact hb), hstep]
  · rw [step_withLimit (by rw [hend]; exact hle), hend]

/-- A limit that is not positive is none. -/
theorem step_of_nonpos (hn : n ≤ 0) (s : Machine π) : s.step (S.withLimit n) = s.step (S.withLimit 0) := by
  rcases step_cases S s with ⟨r, _, hall⟩ | ⟨t, _, hall⟩
  · rw [hall, hall]
  · rw [hall, hall, if_neg (by omega), if_neg (by omega)]

theorem run_of_nonpos (hn : n ≤ 0) (h : s.run (S.withLimit 0) = some (t, halt)) :
    s.run (S.withLimit n) = some (t, halt) := by
  obtain ⟨u, hsteps, hend⟩ := run_eq_some_iff.mp h
  have hsteps : Steps (S.withLimit n) s u :=
    Relation.ReflTransGen.mono (fun a _ hnext => (step_of_nonpos hn a).trans hnext) _ _ hsteps
  exact run_eq_some_iff.mpr ⟨u, hsteps, (step_of_nonpos hn u).trans hend⟩

/-- A run that takes more entries than the limit is stopped by it. -/
theorem run_over (hn : 0 < n) (h : s.run (S.withLimit 0) = some (t, halt)) (hlt : n < t.iterations)
    (hs : (s.iterations : Int) ≤ n) :
    ∃ u, s.run (S.withLimit n) = some (u, .failed (.iterationLimit n "worklist entries")) := by
  obtain ⟨u, hsteps, hend⟩ := run_eq_some_iff.mp h
  clear h
  induction hsteps using Relation.ReflTransGen.head_induction_on with
  | refl =>
    rw [iterations_halting_step hend] at hlt
    exact absurd hs (not_le.mpr hlt)
  | @head a b hnext _ ih =>
    have hstep : a.step (S.withLimit 0) = (b, none) := hnext
    by_cases hb : (b.iterations : Int) ≤ n
    · -- the step is within the limit, and the run goes on
      have hsame := step_withLimit (S := S) (s := a) (n := n) (by rw [hstep]; exact hb)
      obtain ⟨v, hv⟩ := ih hb
      obtain ⟨w, hw, hlast⟩ := run_eq_some_iff.mp hv
      exact ⟨v, run_eq_some_iff.mpr ⟨w, .head (hsame.trans hstep) hw, hlast⟩⟩
    · obtain ⟨v, hv⟩ := step_over (S := S) hn (by rw [hstep]; exact not_le.mp hb) hs
      exact ⟨v, run_eq_some_iff.mpr ⟨a, .refl, hv⟩⟩

end Machine

/-! ## The analysis under a limit -/

variable {π : Type} {p : Program} {opts : Options} {plugin : Plugin π}

/-- The number of entries that the analysis takes without a limit: none where there is no entry
method. -/
def entriesTaken (p : Program) (opts : Options) (plugin : Plugin π) : Nat :=
  if p.entries.isEmpty then 0
  else
    let S : Machine.Setting π := Machine.Setting.withLimit ⟨p, opts, plugin⟩ 0
    ((Machine.run S (Machine.begin S)).map (·.1.iterations)).getD 0

/-- The limit of an analysis that ends without one is exact. -/
theorem limitExact_analyzeWith (hends : Machine.Ends (Machine.Setting.withLimit ⟨p, opts, plugin⟩ 0)) :
    LimitExact (fun n => analyzeWith p { opts with limit := n } plugin) (·.1.iterations)
      "worklist entries" (entriesTaken p opts plugin) := by
  let S : Machine.Setting π := ⟨p, opts, plugin⟩
  obtain ⟨s, halt, hrun⟩ : ∃ s halt, Machine.run (S.withLimit 0) (Machine.begin S) = some (s, halt) :=
    hends.outcome
  -- the run under a limit decides what the analysis under it answers and says
  have hsame : ∀ n, Machine.run (S.withLimit n) (Machine.begin S) = some (s, halt) →
      analyzeWith p { opts with limit := n } plugin = analyzeWith p { opts with limit := 0 } plugin := by
    intro n h
    have h : Machine.run ⟨p, { opts with limit := n }, plugin⟩
          (Machine.begin ⟨p, { opts with limit := n }, plugin⟩) =
        Machine.run ⟨p, { opts with limit := 0 }, plugin⟩
          (Machine.begin ⟨p, { opts with limit := 0 }, plugin⟩) := h.trans hrun.symm
    unfold analyzeWith
    dsimp only
    rw [h]
    rfl
  by_cases hempty : p.entries.isEmpty = true
  · have htaken : entriesTaken p opts plugin = 0 := if_pos hempty
    rw [htaken]
    refine .of_fails (e := AnalysisError.noEntryMethod) (fun n => ?_) nofun
    unfold analyzeWith
    rw [if_pos hempty]
    rfl
  · have htaken : entriesTaken p opts plugin = s.iterations := by
      unfold entriesTaken
      rw [if_neg hempty]
      exact congrArg (fun r => (r.map (·.1.iterations)).getD 0) hrun
    refine ⟨fun n hn => hsame n (Machine.run_of_nonpos hn hrun), hends.answer, fun r hr => ?_,
      fun n hn => hsame n (Machine.run_withLimit hrun (htaken ▸ hn)), fun n hn hlt => ?_⟩
    · have hrun : Machine.run ⟨p, { opts with limit := 0 }, plugin⟩
          (Machine.begin ⟨p, { opts with limit := 0 }, plugin⟩) = some (s, halt) := hrun
      rw [analyzeWith_outcome, if_neg hempty, hrun] at hr
      cases halt with
      | done =>
        obtain rfl := Except.ok.inj hr
        exact htaken.symm
      | failed e => cases hr
    · obtain ⟨u, hu⟩ := Machine.run_over hn hrun (htaken ▸ hlt)
        (le_trans (Int.ofNat_le.mpr (Machine.iterations_begin S).le) hn.le)
      have hu : Machine.run ⟨p, { opts with limit := n }, plugin⟩
          (Machine.begin ⟨p, { opts with limit := n }, plugin⟩) = some (u, _) := hu
      rw [analyzeWith_outcome, if_neg hempty, hu]

/-- The limit of the pointer analysis is exact, alone and with the taint plugin for any rules. -/
theorem limitExact (p : Program) (opts : Options) (rules : Taint.Rules) :
    LimitExact (fun n => analyze p { opts with limit := n }) (·.iterations) "worklist entries"
      (entriesTaken p opts Plugin.none) ∧
    LimitExact (fun n => analyzeWith p { opts with limit := n } (Taint.plugin p rules))
      (·.1.iterations) "worklist entries" (entriesTaken p opts (Taint.plugin p rules)) := by
  obtain ⟨halone, htaint⟩ := Machine.solver_terminates p { opts with limit := 0 } rules
  exact ⟨(limitExact_analyzeWith halone).map (·.1) fun _ => rfl, limitExact_analyzeWith htaint⟩

/-- The limits of all analyses are exact: of the dataflow analyses of a method, of the
interprocedural ones over the supergraph of a call graph, and of the pointer analysis. -/
theorem limits_exact {p : Program} (hp : p.WellFormed) {cg : MethodCallGraph} (hcg : cg.Built) :
    (∀ m, LimitExact (Constants.analyze p m) (·.iterations) "iterations"
      (Constants.systemOf p (p.method m)).entries) ∧
    (∀ m, LimitExact (Liveness.analyze p m) (·.iterations) "iterations"
      (Liveness.systemOf (p.method m)).entries) ∧
    LimitExact (Interprocedural.analyze p (.ofCallGraph p cg)) (·.iterations) "iterations"
      (Interprocedural.entries (.ofCallGraph p cg) (Interprocedural.system p (.ofCallGraph p cg))) ∧
    (∀ r, LimitExact (Aliases.analyze p (.ofCallGraph p cg) r) (·.iterations) "iterations"
      (Interprocedural.entries (.ofCallGraph p cg)
        (Aliases.system p (.ofCallGraph p cg) (Aliases.pointsToTable p r)))) ∧
    ∀ opts rules,
      LimitExact (fun n => analyze p { opts with limit := n }) (·.iterations) "worklist entries"
        (entriesTaken p opts Plugin.none) ∧
      LimitExact (fun n => analyzeWith p { opts with limit := n } (Taint.plugin p rules))
        (·.1.iterations) "worklist entries" (entriesTaken p opts (Taint.plugin p rules)) := by
  have hg := Supergraph.indexed_ofCallGraph hp hcg
  exact ⟨Constants.limitExact p, Liveness.limitExact p, Interprocedural.limitExact hp hg,
    Aliases.limitExact hp hg, limitExact p⟩

/-- The box is analysed within exactly as many entries as the analyses take. -/
theorem limits_exact_boxed :
    (∃ c, (Interprocedural.analyze Boxed.program Boxed.graph 0).start.1 = .ok c ∧
      Interprocedural.analyze Boxed.program Boxed.graph c.iterations =
        Interprocedural.analyze Boxed.program Boxed.graph 0) ∧
    ∃ r, (analyze Boxed.program {}).start.1 = .ok r ∧
      ∀ n : Int, 0 < n → n < r.iterations →
        (analyze Boxed.program { limit := n }).start.1 =
          .error (.iterationLimit n "worklist entries") := by
  obtain ⟨-, -, hplain, -, hpointers⟩ := limits_exact Boxed.wellFormed Boxed.built
  obtain ⟨c, hc⟩ := (Interprocedural.analyze_ends Boxed.wellFormed
    (Supergraph.indexed_ofCallGraph Boxed.wellFormed Boxed.built) le_rfl).solved
    Boxed.entries_ne_nil Boxed.declared
  obtain ⟨r, hr⟩ := Boxed.exists_pointers
  have hexact := (hpointers {} {}).1
  refine ⟨⟨c, hc, hplain.kept _ (hplain.counted c hc ▸ le_rfl)⟩, r, hr, fun n hn hlt => ?_⟩
  exact hexact.cut n hn (hexact.counted r hr ▸ hlt)

end WholeProgram.PointsTo
