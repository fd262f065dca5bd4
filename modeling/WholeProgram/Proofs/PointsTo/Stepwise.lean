import WholeProgram.Proofs.PointsTo.Effects
import WholeProgram.Proofs.PointsTo.Exact

/-!
# Runs within a set of facts

A set that is closed under the rules bounds every run. It is enough that the set is closed at the states
of the run itself: where the facts that the run has come to lie in the set, so does what the rules yield
from them (`ClosedAlong`). Such a set can speak of what this run puts where, and nothing has to hold of
facts that only follow once a run has failed.

* `fault_of_perform` — a task that fails owes a fault;
* `Next.claimed`, `Steps.claimed` — what a step claims, and a run;
* `analyze_within` — the analysis has a result, within the set, if the set has no fault.
-/

namespace WholeProgram.PointsTo

namespace Machine

variable {π : Type} {S : Setting π} {K : Set Obj} {s s' : Machine π} {e : AnalysisError}

/-! ## Tasks that fail -/

theorem unresolved_error {d : DispatchError} (h : (s.unresolved S d).2 = some e) :
    S.options.ignoreUnresolved = false := by
  unfold unresolved at h
  split at h
  · cases h
  · rename_i hignore
    exact Bool.eq_false_iff.mpr hignore

theorem fault_of_processStmt {m : CSMethod} {i : Nat} {stmt : Stmt Nat}
    (hstmt : S.program.stmt? ⟨m.method, i⟩ = some stmt) (h : (s.processStmt S m i stmt).2 = some e) :
    Does S.program S.options m i .fault := by
  rcases processStmt_cases (S := S) s m i stmt with
    ⟨-, heq⟩ | ⟨x, call, rfl, ⟨b, -, heq⟩ | ⟨hbase, ⟨code, hres, heq⟩ | ⟨r, hres, hcases⟩⟩⟩
  · rw [heq] at h
    cases h
  · rw [heq] at h
    cases h
  · exact .undeclared hstmt hbase hres
  · rcases hcases with ⟨-, heq⟩ | ⟨d, herr, heq⟩
    · rw [heq] at h
      cases h
    · rw [heq] at h
      exact .unresolved hstmt hbase hres herr (unresolved_error h)

theorem fault_of_processCall {c : Context} {site : Site} {i : CSObjId} {o : HeapObj}
    (ho : s.core.Names i o) {stmt : Stmt Nat} {b : VarId} (hstmt : S.program.stmt? site = some stmt)
    (hb : stmt.base? = some b) (h : (s.processCall S c site i).2 = some e) :
    (S.program.callAt? site).isSome ∧ Uses S.program S.options c b o site .fault := by
  rcases processCall_cases (S := S) (c := c) ho with ⟨-, heq⟩ | ⟨x, call, hinvoke, hcall, hcases⟩
  · rw [heq] at h
    cases h
  · obtain rfl := Option.some.inj (hstmt.symm.trans hinvoke)
    rcases hcases with ⟨d, hm, heq⟩ | ⟨-, heq⟩ | ⟨m, -, heq⟩
    · rw [heq] at h
      rw [hcall]
      exact ⟨rfl, .unresolved hstmt hb hm (unresolved_error h)⟩
    · rw [heq] at h
      cases h
    · rw [heq] at h
      cases h

/-- A task fails only if it owes a fault. -/
theorem fault_of_perform {task : Task} (hvalid : task.Valid S.program s.core)
    (h : (perform S s task).2 = some e) : .fault ∈ task.owes S.program S.options s.core := by
  cases task with
  | reach | connect => cases h
  | body m i =>
    simp only [perform] at h
    cases hstmt : (S.program.method m.method).stmt? i with
    | none =>
      rw [hstmt] at h
      cases h
    | some stmt =>
      rw [hstmt] at h
      exact ⟨i, le_rfl, fault_of_processStmt hstmt h⟩
  | callees site call rest => cases rest <;> cases h
  | objects c v rest => cases rest <;> cases h
  | calls c i rest =>
    cases rest with
    | nil => cases h
    | cons site rest =>
      obtain ⟨⟨o, ho⟩, hsites⟩ := hvalid
      obtain ⟨stmt, b, hstmt, hb⟩ := hsites site List.mem_cons_self
      have ho' : (s.push [.calls c i rest]).core.Names i o := ho
      obtain ⟨hcall, huses⟩ := fault_of_processCall ho' hstmt hb h
      exact ⟨o, ho, site, List.mem_cons_self, hcall, b, huses⟩

end Machine

/-! ## Runs without a plugin -/

/-- The setting of a run without a plugin. -/
abbrev alone (p : Program) (opts : Options) : Machine.Setting Unit := ⟨p, opts, Plugin.none⟩

namespace Machine

variable {p : Program} {opts : Options} {K : Set Obj} {X : Set Fact} {s s' : Machine Unit}

theorem notify_alone (e : Event) (s : Machine Unit) : s.notify (alone p opts) e = s := notify_eq_self rfl

/-- What a step has is claimed before, and what it claims is claimed before or follows from what it
has. -/
theorem effect_next (hK : Genuine p K) (hs : Sane (alone p opts) K s)
    (hnext : Next (alone p opts) s s') :
    ∃ t F, Effect (alone p opts) K F t s' ∧ t.claimed (alone p opts) ⊆ s.claimed (alone p opts) ∧
      F ⊆ s.claimed (alone p opts) := by
  rcases next_cases hnext with ⟨task, rest, hagenda, hperform⟩ | ⟨q, set, w, -, hpop, rfl⟩
  · have hmem : ∀ task' ∈ task :: rest, task' ∈ s.agenda := fun task' h => hagenda ▸ h
    have hvalid := hs.tasks task (hmem task List.mem_cons_self)
    let t : Machine Unit := { s with agenda := rest }
    have ht : Sane (alone p opts) K t :=
      ⟨hs.core, fun task' h => hs.tasks task' (hmem task' (List.mem_cons_of_mem _ h))⟩
    have hsub : t.claimed (alone p opts) ⊆ s.claimed (alone p opts) := by
      rintro f (hf | ⟨task', htask', hf⟩)
      · exact Or.inl hf
      · exact Or.inr ⟨task', hmem task' (List.mem_cons_of_mem _ htask'), hf⟩
    have howes : task.owes p opts s.core ⊆ s.claimed (alone p opts) :=
      fun f hf => Or.inr ⟨task, hmem task List.mem_cons_self, hf⟩
    refine ⟨t, task.owes p opts s.core, ?_, hsub, howes⟩
    by_cases hconnect : ∃ e, task = .connect e
    · obtain ⟨e, rfl⟩ := hconnect
      cases hperform
      unfold connect
      rw [notify_alone]
      exact (quiet_request ht (serves_linkRequests e) subset_rfl).toEffect
    · have hquiet := quiet_perform hK Plugin.silent_none ht hvalid fun e he => hconnect ⟨e, he⟩
      rw [hperform] at hquiet
      exact hquiet.toEffect
  · refine ⟨s, s.core.met, ?_, subset_rfl, Set.subset_union_left⟩
    obtain ⟨core, htaken, -, hcases⟩ := takeEntry_cases (S := alone p opts) hpop (s.iterations + 1)
    obtain ⟨hidle, hvar⟩ := effect_takeEntry (n := s.iterations + 1) hs htaken
    rcases hcases with ⟨heq, -⟩ | ⟨c, v, rfl, -, heq⟩
    · rw [heq]
      exact hidle
    · rw [heq, notify_alone]
      exact hvar c v rfl

/-- Before the first step nothing is claimed but the entry methods. -/
theorem effect_begin (p : Program) (opts : Options) (hs : Sane (alone p opts) K ⟨{}, (), [], 0⟩) :
    Effect (alone p opts) K ∅ ⟨{}, (), [], 0⟩ (begin (alone p opts)) := by
  obtain ⟨hok, hgains⟩ := gains_entries p opts hs.core p.entries
  have htasks : ∀ core, ∀ task ∈ p.entries.map fun m => Task.reach ⟨[], m⟩,
      task.Valid p core ∧ ∀ f ∈ task.owes p opts core, f ∈ (∅ : Set Fact) ∨
        Yields p opts false core.facts f := by
    intro core task htask
    obtain ⟨m, hm, rfl⟩ := List.mem_map.mp htask
    refine ⟨trivial, ?_⟩
    rintro f rfl
    exact Or.inr (.entry hm)
  have h : Effect (alone p opts) K ∅ ⟨{}, (), [], 0⟩
      { begin (alone p opts) with agenda := (p.entries.map fun m => Task.reach ⟨[], m⟩) ++ [] } :=
    .of_gains hs hok hgains (Set.empty_subset _) (htasks _) fun site m he =>
      Or.inl ((hgains.facts_new _ he).resolve_right (Set.notMem_empty _))
  rw [List.append_nil] at h
  exact h

/-- Where the facts of a state of the run lie in the set, so does what the rules yield from them. -/
def ClosedAlong (p : Program) (opts : Options) (X : Set Fact) : Prop :=
  ∀ s, Steps (alone p opts) (begin (alone p opts)) s → s.core.facts ⊆ X →
    ∀ f, Yields p opts false s.core.facts f → f ∈ X

/-- The whole space of facts bounds the run, so that its states are in order. -/
theorem inv_alone (hsteps : Steps (alone p opts) (begin (alone p opts)) s) :
    Inv (alone p opts) (objects p {}) Set.univ (fun _ => True) s := by
  have hX : Bounds (alone p opts) (objects p {}) Set.univ _ := bounds_none fun _ _ => trivial
  exact (Steps.spec hX (begin_spec hX).1 hsteps).1

/-- A run claims facts of the set only: one step after another, what it comes to have was claimed
before, and what it claims anew follows from what it has. -/
theorem Steps.claimed (hX : ClosedAlong p opts X)
    (hsteps : Steps (alone p opts) (begin (alone p opts)) s) : s.claimed (alone p opts) ⊆ X := by
  induction hsteps with
  | refl =>
    have hnothing : ∀ f, f ∉ (⟨{}, (), [], 0⟩ : Machine Unit).claimed (alone p opts) := by
      rintro f (hf | ⟨task, htask, -⟩)
      · exact met_empty f hf
      · cases htask
    have heff := effect_begin p opts (K := objects p {}) ⟨ok_empty, by simp⟩
    have hfacts : (begin (alone p opts)).core.facts ⊆ X := fun f hf =>
      (heff.facts_new f hf).elim (fun hf => absurd (Or.inl (Or.inl hf)) (hnothing f)) (by simp)
    intro f hf
    rcases heff.claimed_new f hf with hf | hf | hy
    · exact absurd hf (hnothing f)
    · exact absurd hf (Set.notMem_empty f)
    · exact hX _ .refl hfacts f hy
  | tail hsteps hnext ih =>
    obtain ⟨t, F, heff, ht, hF⟩ := effect_next (genuine_objects p {}) (inv_alone hsteps).sane hnext
    have hfacts : _ ⊆ X := fun f hf =>
      ih ((heff.facts_new f hf).elim (fun hf => ht (Or.inl (Or.inl hf))) fun hf => hF hf)
    intro f hf
    rcases heff.claimed_new f hf with hf | hf | hy
    · exact ih (ht hf)
    · exact ih (hF hf)
    · exact hX _ (hsteps.tail hnext) hfacts f hy

/-- A run within a set without a fault is done. -/
theorem run_within (hX : ClosedAlong p opts X) (hfault : .fault ∉ X) (hlimit : opts.limit ≤ 0) :
    ∃ s, (begin (alone p opts)).run (alone p opts) = some (s, .done) ∧ s.core.facts ⊆ X := by
  obtain ⟨s, halt, hrun⟩ := (ends_of_respects {} Plugin.respects_none : Ends (alone p opts)).outcome
  obtain ⟨t, hsteps, hend⟩ := run_eq_some_iff.mp hrun
  have hclaimed := Steps.claimed hX hsteps
  have hinv := inv_alone hsteps
  rcases stop_cases hend with ⟨task, rest, e, hagenda, herror⟩ | ⟨hs, hdone⟩ | hpos
  · have hmem : task ∈ t.agenda := hagenda ▸ List.mem_cons_self
    have howed := fault_of_perform (s := { t with agenda := rest }) (hinv.tasks task hmem) herror
    exact absurd (hclaimed (Or.inr ⟨task, hmem, howed⟩)) hfault
  · obtain rfl : s = t := hs
    obtain rfl : halt = .done := hdone
    exact ⟨s, hrun, fun f hf => hclaimed (Or.inl (Or.inl hf))⟩
  · exact absurd hpos (not_lt.mpr hlimit)

end Machine

/-- The analysis has a result if there is an entry method and no limit, and its run stays within a set
without a fault. -/
theorem analyze_within {p : Program} {opts : Options} {X : Set Fact} (hX : Machine.ClosedAlong p opts X)
    (hfault : .fault ∉ X) (hentries : p.entries ≠ []) (hlimit : opts.limit ≤ 0) :
    ∃ r, (analyze p opts).start.1 = .ok r ∧ r.core.facts ⊆ X := by
  obtain ⟨s, hrun, hfacts⟩ := Machine.run_within hX hfault hlimit
  have hok : (analyze p opts).start.1 = .ok (resultOf (alone p opts) s).1 := by
    rw [analyze_outcome, analyzeWith_outcome, hrun]
    simp only [List.isEmpty_iff, hentries, if_false]
    rfl
  exact ⟨_, hok, hfacts⟩

end WholeProgram.PointsTo
