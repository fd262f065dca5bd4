import Mathlib.Data.Prod.Lex
import Mathlib.Data.Set.Card
import Mathlib.Order.WellFounded
import WholeProgram.Proofs.PointsTo.Outcome
import WholeProgram.Proofs.Taint.Plugin

/-!
# Termination of the pointer analysis

A run within finitely many facts ends: every step adds a fact, or makes the agenda lighter, or
shortens the worklist (`rank_lt_of_before`), so there is no endless sequence of steps (`acc_next`)
and the run has an outcome (`exists_run`). The facts of a program are finitely many, with the taint
plugin and without (`solver_terminates`). A run that ends without a fault and without a limit has a
result (`analyze_succeeds`).
-/

namespace WholeProgram.PointsTo.Machine

variable {K : Set Obj} {X : Set Fact} {π : Type} {S : Setting π} {J : π → Prop} {s s' : Machine π}

/-- How far a run within `X` is from its end: the facts it does not have yet, the weight of the
agenda, and the length of the worklist. -/
noncomputable def rank (p : Program) (X : Set Fact) (s : Machine π) : ℕ ×ₗ ℕ ×ₗ ℕ :=
  toLex ((X \ s.core.facts).ncard, toLex (s.work p, s.core.waiting.toList.length))

theorem rank_lt_of_before {p : Program} (hfin : X.Finite) (hsub : s'.core.facts ⊆ X)
    (h : Before p s' s) :
    rank p X s' < rank p X s := by
  unfold rank
  rw [Prod.Lex.toLex_lt_toLex]
  rcases h with hnew | ⟨hsame, hless⟩
  -- a new fact of `X` is one that is no longer missing
  · refine Or.inl (Set.ncard_lt_ncard ?_ hfin.sdiff)
    obtain ⟨f, hf, hnot⟩ := Set.exists_of_ssubset hnew
    refine ⟨Set.sdiff_subset_sdiff_right hnew.subset, fun hback => ?_⟩
    exact (hback ⟨hsub hf, hnot⟩).2 hf
  · refine Or.inr ⟨by rw [hsame], ?_⟩
    rw [Prod.Lex.toLex_lt_toLex]
    exact hless

/-- Within finitely many facts there is no endless run. -/
theorem acc_next (hX : Bounds S K X J) (hfin : X.Finite) (hs : Inv S K X J s) :
    Acc (fun t s => Next S s t) s := by
  generalize hr : rank S.program X s = r
  induction r using WellFoundedLT.induction generalizing s with
  | ind r ih =>
    -- every step leads to a smaller rank
    refine Acc.intro s fun t ht => ?_
    obtain ⟨hinv, _, hbefore⟩ := ht.spec hX hs
    have hlt := rank_lt_of_before hfin hinv.facts hbefore
    exact ih _ (hr ▸ hlt) hinv rfl

/-- A machine that cannot go on for ever has an outcome. -/
theorem exists_run (h : Acc (fun t s => Next S s t) s) : ∃ r, s.run S = some r := by
  induction h with
  | intro s _ ih =>
    rw [run]
    split
    · exact ⟨_, rfl⟩
    · rename_i t ht
      exact ih t ht

/-- What it means that the solver ends: it cannot go on for ever, so it stops and the analysis has a
result or an error, and in all of its states contexts are short. -/
structure Ends (S : Setting π) : Prop where
  acc : Acc (fun t s => Next S s t) (begin S)
  outcome : ∃ s halt, (begin S).run S = some (s, halt)
  answer : (analyzeWith S.program S.options S.plugin).start.1 ≠ .error .unfinished
  methods : ∀ {s : Machine π}, Steps S (begin S) s → ∀ m ∈ s.core.graph.reachable,
    (m.ctx.length : Int) ≤ max S.options.selector.k 0
  heap : ∀ {s : Machine π}, Steps S (begin S) s → ∀ o ∈ s.core.csObjs,
    (o.ctx.length : Int) ≤ min (max S.options.selector.k 0) (max S.options.selector.hk 0)

/-- Every object of the table is named. -/
theorem exists_names {core : Core} (h : core.Ok K) {o : CSObj} (ho : o ∈ core.csObjs) :
    ∃ i b, core.Names i b ∧ b.ctx = o.ctx := by
  obtain ⟨i, hi⟩ := Array.mem_iff_getElem?.mp ho
  have hobj := Array.getElem?_eq_getElem (h.tables.valid i o hi)
  exact ⟨i, ⟨o.ctx, _⟩, ⟨o.obj, hi, hobj⟩, rfl⟩

/-- A run whose plugin stays within the facts of the program ends. -/
theorem ends_of_respects (rules : Taint.Rules)
    (h : S.plugin.Respects (objects S.program rules) (factSpace S.program S.options rules) J) :
    Ends S := by
  have hX : Bounds S (objects S.program rules) (factSpace S.program S.options rules) J :=
    ⟨genuine_objects _ _, closed_factSpace _ _ _, h⟩
  obtain ⟨hbegin, _⟩ := begin_spec hX
  have hacc := acc_next hX (finite_factSpace _ _ _) hbegin
  obtain ⟨⟨s, halt⟩, hrun⟩ := exists_run hacc
  refine ⟨hacc, ⟨s, halt, hrun⟩, ?_, ?_, ?_⟩
  · rw [analyzeWith_outcome, hrun]
    intro hanswer
    split at hanswer
    · cases hanswer
    · cases halt with
      | done => cases hanswer
      | failed e =>
        cases hanswer
        rcases run_failed_spec hX hrun with ⟨_, ⟨_, he⟩ | ⟨_, he⟩⟩ | ⟨_, _, he⟩
        · cases he
        · cases he
        · cases he
  · intro s hsteps m hm
    have hinv := (Steps.spec hX hbegin hsteps).1
    have hfact : Fact.reach m ∈ factSpace S.program S.options rules := hinv.facts hm
    have hlen := hfact.1.1
    omega
  · intro s hsteps o ho
    have hinv := (Steps.spec hX hbegin hsteps).1
    obtain ⟨i, b, hb, hctx⟩ := exists_names hinv.core ho
    -- an object of the table is held or promised somewhere, so it is in the space of facts
    obtain ⟨q, hq⟩ := hinv.core.used hb
    have hfact : Fact.holds q b ∈ factSpace S.program S.options rules := hinv.claimed (Or.inl hq)
    have hlen := hfact.2.1.1
    rw [hctx] at hlen
    omega

/-- The solver ends on every program and with every selector, alone or with the taint plugin for any
rules: there is no endless run, and contexts are bounded by `k` and `hk`. -/
theorem solver_terminates (p : Program) (opts : Options) (rules : Taint.Rules) :
    Ends ⟨p, opts, Plugin.none⟩ ∧ Ends ⟨p, opts, Taint.plugin p rules⟩ :=
  ⟨ends_of_respects rules Plugin.respects_none,
    ends_of_respects rules (Taint.respects_factSpace p opts rules)⟩

/-- The analysis has a result if there is an entry method and no limit, and some set that is closed
under the rules has no fault. -/
theorem analyze_succeeds {p : Program} {opts : Options} (hentries : p.entries ≠ [])
    (hlimit : opts.limit ≤ 0) (hclosed : Closed p opts false X) (hfault : .fault ∉ X) :
    ∃ r, (analyze p opts).start.1 = .ok r := by
  have hX : Bounds ⟨p, opts, Plugin.none⟩ (objects p {}) X fun _ => True :=
    ⟨genuine_objects p {}, hclosed, Plugin.respects_none⟩
  have hends : Ends ⟨p, opts, Plugin.none⟩ := ends_of_respects {} Plugin.respects_none
  obtain ⟨s, halt, hrun⟩ := hends.outcome
  have hdone : halt = .done := by
    cases halt with
    | done => rfl
    | failed e =>
      rcases run_failed_spec hX hrun with ⟨h, _⟩ | ⟨h, _⟩
      · exact absurd h hfault
      · exact absurd h (not_lt.mpr hlimit)
  rw [analyze_outcome, analyzeWith_outcome, hrun, hdone]
  exact ⟨_, by simp only [List.isEmpty_iff, hentries, if_false]; rfl⟩

end WholeProgram.PointsTo.Machine
