import WholeProgram.Proofs.PointsTo.Effects
import WholeProgram.Proofs.Taint.Answers

/-!
# Taint is tracked exactly

The facts of a run with the taint plugin are the least solution of the rules of the pointer analysis
and of taint (`facts_isLeast`).

* `respects_solution` — the plugin stays within every solution, so that the run does;
* `Tracked` — what holds along a run: a call edge waits to be connected, or its source and its
  transfers are seen to, and a transfer that waits at a variable has passed on the taint that the
  variable has. `Tracked.step` and `Tracked.steps` — a step keeps it, and so does a run;
* `taints_closed` — so nothing is missing when the run is done.
-/

namespace WholeProgram.Taint

open PointsTo PointsTo.Machine

variable {p : Program} {opts : Options} {rules : Rules} {X : Set PointsTo.Fact}

/-! ## The plugin stays within solutions -/

theorem justified_empty : Waiting.Justified p rules X {} := by
  intro key t ht
  simp [Waiting.here] at ht

/-- The plugin stays within every solution of the rules. -/
theorem respects_solution (hX : ∀ ⦃f⦄, Taints p rules X f → f ∈ X) :
    (plugin p rules).Respects (objects p rules) (X ∩ factSpace p opts rules)
      fun w => w.Known p opts rules ∧ w.Justified p rules X where
  initial := ⟨(respects_factSpace p opts rules).initial, justified_empty⟩
  handle := by
    intro e core w hcore hfacts he ⟨hknown, hjust⟩
    obtain ⟨hknown', hwithin⟩ := (respects_factSpace p opts rules).handle hcore
      (hfacts.trans Set.inter_subset_right) he hknown
    have hfactsX := hfacts.trans Set.inter_subset_left
    -- requests that serve taint of `X` stay within `X`
    have hstay : ∀ {F}, Serves (objects p rules) ((plugin p rules).handle e core w).2 F →
        (∀ f ∈ F, Taints p rules X f) → ∀ r ∈ ((plugin p rules).handle e core w).2,
          r.Within (objects p rules) (X ∩ factSpace p opts rules) := by
      intro F hF htaints r hr
      refine ⟨(hwithin r hr).1, Set.subset_inter (fun f hf => ?_) (hwithin r hr).2⟩
      exact hX (htaints f (hF.asks r hr hf))
    cases e with
    | start | finish | newMethod | newCSMethod => exact ⟨⟨hknown, hjust⟩, fun r hr => by cases hr⟩
    | newPointsTo ctx v delta =>
      obtain ⟨F, hF, htaints, -⟩ := answer_newPointsTo hcore hfactsX he hjust
      exact ⟨⟨hknown', hjust⟩, hstay hF htaints⟩
    | newCallEdge e =>
      obtain ⟨hedge, ⟨-, hsite⟩, -⟩ := hfacts he
      obtain ⟨rs, F, hreg, hF, htaints⟩ := answer_newCallEdge hcore hfactsX hedge hsite w
      refine ⟨⟨hknown', fun key t ht => ?_⟩, hstay hF htaints⟩
      rcases hreg.new key t ht with ht | ⟨hsite, ht, hkey, -⟩
      · exact hjust key t ht
      · obtain ⟨ht, hm⟩ : t.transfer ∈ rules.transfers ∧ t.transfer.method = e.callee.method := by
          simpa using List.mem_filter.mp ht
        rw [← hsite] at hedge hkey
        exact ⟨ht, ⟨e.callee, hedge, hm⟩, hkey⟩

/-- A solution bounds the run. -/
theorem bounds_solution (hX : Solves p opts rules false X) :
    Bounds ⟨p, opts, plugin p rules⟩ (objects p rules) (X ∩ factSpace p opts rules)
      fun w => w.Known p opts rules ∧ w.Justified p rules X where
  genuine := genuine_objects p rules
  closed := fun _ hf => ⟨hX.closed (hf.mono Set.inter_subset_left),
    closed_factSpace p opts rules (hf.mono Set.inter_subset_right)⟩
  plugin := respects_solution hX.taints

/-! ## What holds along a run -/

/-- The source of a call edge has tainted the result, and its transfers wait. -/
structure Handled (p : Program) (rules : Rules) (s : Machine Waiting) (site : CSSite) (m : CSMethod) :
    Prop where
  sources : sourceFacts p rules site m ⊆ s.core.met
  transfers : ∀ t ∈ rules.transfersOf m.method, ∀ v w, varAt? p site.site t.source = some v →
    varAt? p site.site t.target = some w → ⟨site, t⟩ ∈ s.plugin.here (site.ctx, v)

/-- A transfer that waits has passed on all taint of its source variable. -/
def Passed (p : Program) (s : Machine Waiting) : Prop :=
  ∀ key, ∀ t ∈ s.plugin.here key, t.passes p s.core (s.core.pointsTo (.var key.1 key.2)) ⊆ s.core.met

/-- Every call edge waits to be connected or is seen to, and transfers have passed on what there is. -/
structure Tracked (p : Program) (rules : Rules) (s : Machine Waiting) : Prop where
  edges : ∀ site m, .edge site m ∈ s.core.facts →
    (∃ kind, .connect ⟨kind, site, m⟩ ∈ s.agenda) ∨ Handled p rules s site m
  passed : Passed p s

variable {S : Setting Waiting} {K : Set Obj} {F : Set PointsTo.Fact} {s s' : Machine Waiting}

/-- An effect after which transfers have passed on what there is. -/
theorem Tracked.effect (h : Tracked p rules s) (heff : Effect S K F s s')
    (hplugin : s'.plugin = s.plugin) (hpassed : Passed p s') : Tracked p rules s' := by
  refine ⟨fun site m he => ?_, hpassed⟩
  rcases heff.edges site m he with he | he
  · refine (h.edges site m he).imp (fun ⟨kind, he⟩ => ⟨kind, heff.connects _ he⟩) fun hh => ?_
    exact ⟨hh.sources.trans heff.met, hplugin ▸ hh.transfers⟩
  · exact Or.inl he

/-- The taint passed on for objects that have a meaning already does not change. -/
theorem passes_subset {core core' : Core} (hle : Core.TableLe core core') {t : Pending} {objs : IdSet}
    (hobjs : ∀ i ∈ objs, ∃ o, core.Names i o) : t.passes p core' objs ⊆ t.passes p core objs := by
  rintro f ⟨i, hi, c, source, ty, w, hnames, hw, rfl⟩
  obtain ⟨o, ho⟩ := hobjs i hi
  obtain rfl := (hle.names ho).unique hnames
  exact ⟨i, hi, c, source, ty, w, ho, hw, rfl⟩

theorem Tracked.quiet (h : Tracked p rules s) (hs : s.core.Ok K) (hq : Quiet S K F s s') :
    Tracked p rules s' := by
  refine h.effect hq.toEffect hq.plugin fun key t ht => ?_
  rw [hq.plugin] at ht
  rw [hq.sets]
  exact (passes_subset hq.tables fun i hi => hs.held hi).trans ((h.passed key t ht).trans hq.met)

/-- The setting of a run that tracks taint. -/
abbrev tracking (p : Program) (opts : Options) (rules : Rules) : Setting Waiting :=
  ⟨p, opts, plugin p rules⟩

/-- The plugin sees to a call edge that it hears of. -/
theorem Tracked.newCallEdge (h : Tracked p rules s)
    (hs : Sane (tracking p opts rules) (objects p rules) s) {e : CSEdge} (hsite : e.site.site ∈ places p) :
    Tracked p rules (s.notify (tracking p opts rules) (.newCallEdge e)) ∧
      Handled p rules (s.notify (tracking p opts rules) (.newCallEdge e)) e.site e.callee := by
  obtain ⟨rs, F, hreg, hF, -⟩ := answer_newCallEdge (X := Set.univ) hs.core (Set.subset_univ _)
    (Set.mem_univ _) hsite s.plugin
  obtain ⟨heff, hmet, hsets⟩ := effect_notify hs hF
  refine ⟨⟨fun site m he => ?_, fun key t ht => ?_⟩, ?_⟩
  · rcases heff.edges site m he with he | he
    · refine (h.edges site m he).imp (fun ⟨kind, he⟩ => ⟨kind, heff.connects _ he⟩) fun hh => ?_
      refine ⟨hh.sources.trans heff.met, fun t ht v w hv hw => ?_⟩
      exact hreg.kept _ _ (hh.transfers t ht v w hv hw)
    · exact Or.inl he
  · rw [hsets]
    refine (passes_subset heff.tables fun i hi => hs.core.held hi).trans ?_
    rcases hreg.new key t ht with ht | ⟨-, -, -, hpasses⟩
    · exact (h.passed key t ht).trans heff.met
    · exact hpasses.trans (Set.subset_union_right.trans hmet)
  · exact ⟨Set.subset_union_left.trans hmet, hreg.all⟩

/-- The first task is no longer needed to connect its edge. -/
theorem Tracked.tail (h : Tracked p rules s) {task : Task} {rest : List Task}
    (hagenda : s.agenda = task :: rest)
    (htask : ∀ e, task = .connect e → Handled p rules s e.site e.callee) :
    Tracked p rules { s with agenda := rest } := by
  refine ⟨fun site m he => ?_, h.passed⟩
  rcases h.edges site m he with ⟨kind, hconnect⟩ | hh
  · rw [hagenda] at hconnect
    rcases List.mem_cons.mp hconnect with heq | hconnect
    · exact Or.inr ⟨(htask _ heq.symm).sources, (htask _ heq.symm).transfers⟩
    · exact Or.inl ⟨kind, hconnect⟩
  · exact Or.inr ⟨hh.sources, hh.transfers⟩

/-- Of what a transfer passes on after an entry was taken, all but that for the new objects was passed
on before. -/
theorem passes_of_taken {core core' : Core} {q : Pointer} {set : IdSet}
    (htaken : Core.Taken q set core core') {t : Pending} {key : Pointer} {f : PointsTo.Fact}
    (hf : f ∈ t.passes p core' (core'.pointsTo key)) :
    f ∈ t.passes p core (core.pointsTo key) ∨
      key = q ∧ f ∈ t.passes p core' (set.diff (core.pointsTo q)) := by
  obtain ⟨i, hi, c, source, ty, w, hnames, hw, rfl⟩ := hf
  rcases (htaken.sets key i).mp hi with hi | ⟨rfl, hi⟩
  · exact Or.inl ⟨i, hi, c, source, ty, w, htaken.tables.names hnames, hw, rfl⟩
  · exact Or.inr ⟨rfl, i, hi, c, source, ty, w, hnames, hw, rfl⟩

/-- Transfers that wait at a variable pass on the objects of an entry that are new to it. -/
theorem Tracked.takeEntry (h : Tracked p rules s)
    (hs : Sane (tracking p opts rules) (objects p rules) s) (hjust : s.plugin.Justified p rules Set.univ)
    {q : Pointer} {set : IdSet} {w : Queue (Pointer × IdSet)}
    (hpop : s.core.waiting.toList = (q, set) :: w.toList) (n : Nat) :
    Tracked p rules (takeEntry (tracking p opts rules) q set
      { s with core := { s.core with waiting := w }, iterations := n }) := by
  obtain ⟨core, htaken, -, hcases⟩ := takeEntry_cases (S := tracking p opts rules) hpop n
  obtain ⟨heff, hvar⟩ := effect_takeEntry (n := n) hs htaken
  -- what is passed on for objects that are no news was passed on before
  have hold : ∀ (key : Context × VarId), ∀ t ∈ s.plugin.here key,
      t.passes p s.core (s.core.pointsTo (.var key.1 key.2)) ⊆ core.met :=
    fun key t ht => (h.passed key t ht).trans heff.met
  rcases hcases with ⟨heq, hnone⟩ | ⟨c, v, rfl, -, heq⟩
  · rw [heq]
    refine h.effect heff rfl fun key t ht f hf => ?_
    rcases passes_of_taken htaken hf with hf | ⟨hq, i, hi, -⟩
    · exact hold key t ht hf
    · exact absurd hi (hnone _ _ i hq.symm)
  · -- the new objects become a task, and then the plugin hears of them
    rw [heq]
    have heff₁ := hvar c v rfl
    obtain ⟨F, hF, -, hpasses⟩ := answer_newPointsTo (X := Set.univ) heff₁.sane.core
      (Set.subset_univ _) (fun i hi => (htaken.sets _ i).mpr (Or.inr ⟨rfl, hi⟩)) hjust
    obtain ⟨heff₂, hmet, hsets⟩ := effect_notify heff₁.sane hF
    have heff' := (heff₁.mono Set.subset_union_left).trans (heff₂.mono Set.subset_union_right)
    refine h.effect heff' rfl fun key t ht => ?_
    rw [hsets]
    refine (passes_subset heff₂.tables fun i hi => heff₁.sane.core.held hi).trans fun f hf => ?_
    rcases passes_of_taken htaken hf with hf | ⟨hq, hf⟩
    · exact heff₂.met (hold key t ht hf)
    · obtain ⟨rfl, rfl⟩ := Pointer.var.inj hq
      exact hmet (hpasses t ht hf)

/-! ## Steps and runs -/

/-- The invariant of a run that tracks taint: it stays within the space of facts, and transfers wait for
a reason. -/
abbrev InSpace (p : Program) (opts : Options) (rules : Rules) : Machine Waiting → Prop :=
  Inv (tracking p opts rules) (objects p rules) (Set.univ ∩ factSpace p opts rules)
    fun w => w.Known p opts rules ∧ w.Justified p rules Set.univ

theorem bounds_space (p : Program) (opts : Options) (rules : Rules) :
    Bounds (tracking p opts rules) (objects p rules) (Set.univ ∩ factSpace p opts rules)
      fun w => w.Known p opts rules ∧ w.Justified p rules Set.univ :=
  bounds_solution ⟨fun _ _ => trivial, fun _ _ => trivial⟩

theorem silent_plugin : (plugin p rules).Silent := ⟨fun _ _ _ => rfl, fun _ _ _ => rfl⟩

/-- Connecting a call edge sees to it. -/
theorem Tracked.connect (h : Tracked p rules s)
    (hs : Sane (tracking p opts rules) (objects p rules) s) {e : CSEdge} (hsite : e.site.site ∈ places p) :
    Tracked p rules (s.connect (tracking p opts rules) e) ∧
      Handled p rules (s.connect (tracking p opts rules) e) e.site e.callee := by
  have hlinks := quiet_request hs (serves_linkRequests (p := p) e) subset_rfl
  exact (h.quiet hs.core hlinks).newCallEdge hlinks.sane hsite

theorem Tracked.step (h : Tracked p rules s) (hs : InSpace p opts rules s)
    (hnext : Next (tracking p opts rules) s s') : Tracked p rules s' := by
  rcases next_cases hnext with ⟨task, rest, hagenda, hperform⟩ | ⟨q, set, w, -, hpop, rfl⟩
  · have hvalid := hs.tasks task (by rw [hagenda]; exact List.mem_cons_self)
    by_cases hconnect : ∃ e, task = .connect e
    · obtain ⟨e, rfl⟩ := hconnect
      have hsite : e.site.site ∈ places p := (hs.facts hvalid).2.1.2
      obtain ⟨htracked, hhandled⟩ := h.connect hs.sane hsite
      cases hperform
      refine htracked.tail hagenda fun e' he' => ?_
      cases he'
      exact hhandled
    · have hquiet := quiet_perform (genuine_objects p rules) silent_plugin (hs.tail hagenda).sane hvalid
        fun e he => hconnect ⟨e, he⟩
      have htail := h.tail hagenda fun e he => absurd ⟨e, he⟩ hconnect
      rw [hperform] at hquiet
      exact htail.quiet hs.core hquiet
  · exact h.takeEntry hs.sane hs.plugin.2 hpop (s.iterations + 1)

/-- Before the first step there is no call edge, and nothing waits. -/
theorem tracked_begin (p : Program) (opts : Options) (rules : Rules) :
    Tracked p rules (begin (tracking p opts rules)) := by
  refine ⟨fun site m he => ?_, fun key t ht => ?_⟩
  · have hempty : ({} : CSCallGraph).Consistent := CallGraph.consistent_empty
    obtain ⟨-, -, hedges⟩ := hempty.addEntries p.entries fun m => (⟨[], m⟩ : CSMethod)
    have hgraph : (begin (tracking p opts rules)).core.graph =
      p.entries.foldl (fun (g : CSCallGraph) m => g.addEntry ⟨[], m⟩) {} := rfl
    obtain ⟨e, he, -⟩ : (begin (tracking p opts rules)).core.graph.HasEdge site m := he
    rw [hgraph, hedges] at he
    simp at he
  · have ht : t ∈ Waiting.here {} key := ht
    simp [Waiting.here] at ht

theorem Tracked.steps (h : Tracked p rules s) (hs : InSpace p opts rules s)
    (hsteps : Steps (tracking p opts rules) s s') : Tracked p rules s' := by
  induction hsteps with
  | refl => exact h
  | tail hsteps hnext ih => exact ih.step (Steps.spec (bounds_space p opts rules) hs hsteps).1 hnext

/-- Nothing that the rules of taint ask for is missing when the run is done. -/
theorem taints_closed
    (h : (begin (tracking p opts rules)).run (tracking p opts rules) = some (s, .done)) :
    ∀ ⦃f⦄, Taints p rules s.core.facts f → f ∈ s.core.facts := by
  obtain ⟨t, hsteps, hend⟩ := run_eq_some_iff.mp h
  obtain ⟨hbegin, -⟩ := begin_spec (bounds_space p opts rules)
  have hinv := (Steps.spec (bounds_space p opts rules) hbegin hsteps).1
  have htracked := (tracked_begin p opts rules).steps hbegin hsteps
  rcases step_spec (bounds_space p opts rules) hinv with
    ⟨_, ht, _⟩ | ⟨hdone, hagenda, hwaiting⟩ | ⟨_, _, hfail, _⟩
  · cases hend.symm.trans ht
  · cases hend.symm.trans hdone
    -- the worklist is empty, so what is met is held
    have hmet : s.core.met ⊆ s.core.facts := by
      rintro f (hf | ⟨q, set, i, o, -, hq, -⟩)
      · exact hf
      · rw [hwaiting] at hq
        cases hq
    have hhandled : ∀ {site m}, .edge site m ∈ s.core.facts → Handled p rules s site m := by
      intro site m he
      rcases htracked.edges site m he with ⟨kind, hconnect⟩ | hh
      · rw [hagenda] at hconnect
        cases hconnect
      · exact hh
    intro f hf
    cases hf with
    | source he hs hm hx =>
      refine hmet ((hhandled he).sources ⟨_, ?_, _, hx, rfl⟩)
      exact List.mem_filter.mpr ⟨hs, by simpa using hm⟩
    | transfer he ht hm hv hw hh =>
      obtain ⟨i, hi, hnames⟩ := hh
      have hof : _ ∈ rules.transfersOf _ := List.mem_filter.mpr ⟨ht, by simpa using hm⟩
      have hwaits := (hhandled he).transfers _ hof _ _ hv hw
      exact hmet (htracked.passed _ _ hwaits ⟨i, hi, _, _, _, _, hnames, hw, rfl⟩)
  · cases hend.symm.trans hfail

/-! ## Results -/

variable {r : Result} {w : Waiting}

/-- The result of a run that tracks taint is the core of the run. -/
theorem analyzeWith_done (h : (analyzeWith p opts (plugin p rules)).start.1 = .ok (r, w)) :
    ∃ s, (begin (tracking p opts rules)).run (tracking p opts rules) = some (s, .done) ∧
      r.core = s.core := by
  obtain ⟨s, hrun, heq⟩ := analyzeWith_ok h
  exact ⟨s, hrun, congrArg (·.1.core) heq⟩

theorem result_core_ok (h : (analyzeWith p opts (plugin p rules)).start.1 = .ok (r, w)) :
    r.core.Ok (objects p rules) := by
  obtain ⟨s, hrun, hcore⟩ := analyzeWith_done h
  rw [hcore]
  exact (run_done_spec (bounds_space p opts rules) hrun).1.core

/-- The facts of a run that tracks taint are the least solution of the rules. -/
theorem facts_isLeast (h : (analyzeWith p opts (plugin p rules)).start.1 = .ok (r, w)) :
    IsLeast {X | Solves p opts rules false X} r.core.facts := by
  obtain ⟨s, hrun, hcore⟩ := analyzeWith_done h
  rw [hcore]
  refine ⟨⟨(run_done_spec (bounds_space p opts rules) hrun).2, taints_closed hrun⟩, fun X hX => ?_⟩
  exact (run_done_spec (bounds_solution hX) hrun).1.facts.trans Set.inter_subset_left

/-- A problem that some solution without a fault bounds has a result, if there is an entry method and no
limit. -/
theorem analyzeWith_succeeds (hentries : p.entries ≠ []) (hlimit : opts.limit ≤ 0)
    (hX : Solves p opts rules false X) (hfault : .fault ∉ X) :
    ∃ r w, (analyzeWith p opts (plugin p rules)).start.1 = .ok (r, w) := by
  obtain ⟨s, halt, hrun⟩ := (solver_terminates p opts rules).2.outcome
  have hdone : halt = .done := by
    cases halt with
    | done => rfl
    | failed e =>
      rcases run_failed_spec (bounds_solution hX) hrun with ⟨h, _⟩ | ⟨h, _⟩
      · exact absurd h.1 hfault
      · exact absurd h (not_lt.mpr hlimit)
  rw [analyzeWith_outcome, hrun, hdone]
  exact ⟨_, _, by simp only [List.isEmpty_iff, hentries, if_false]; rfl⟩

end WholeProgram.Taint
