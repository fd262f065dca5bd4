import WholeProgram.Proofs.PointsTo.Outcome

/-!
# Listening in on the solver

A recorder writes down every event that it is told of, with the core as it is then, and asks for nothing.
Among the plugins it goes unnoticed.

* `Plugin.Projects` — a plugin answers as another one does, whatever else it keeps in its state;
* `Machine.step_project`, `Machine.run_of_project` — the machines of the two go through the same steps;
* `analyzeWith_project` — and the analysis has the same result with both;
* `Plugin.projects_recorder`, `Plugin.projects_recorder_between` — a recorder before a plugin, or between
  two, is such a case.
-/

namespace WholeProgram.PointsTo

variable {π ρ : Type}

/-- An event, and the core as it was seen then. -/
structure Notice where
  event : Event
  seen : Core

namespace Plugin

/-- The plugin that writes down what it is told. -/
def recorder : Plugin (List Notice) where
  initial := []
  handle e core told := (told ++ [⟨e, core⟩], [])

/-- The first plugin answers as the second does in the state that `f` makes of its own. -/
structure Projects (first : Plugin π) (second : Plugin ρ) (f : π → ρ) : Prop where
  initial : second.initial = f first.initial
  handle : ∀ e core st, second.handle e core (f st) =
    (f (first.handle e core st).1, (first.handle e core st).2)

theorem projects_recorder (plugin : Plugin π) : (recorder.andThen plugin).Projects plugin Prod.snd :=
  ⟨rfl, fun _ _ _ => rfl⟩

theorem projects_recorder_between (first : Plugin π) (second : Plugin ρ) :
    (first.andThen (recorder.andThen second)).Projects (first.andThen second)
      fun st => (st.1, st.2.2) :=
  ⟨rfl, fun _ _ _ => rfl⟩

end Plugin

namespace Machine

variable {p : Program} {opts : Options} {first : Plugin π} {second : Plugin ρ} {f : π → ρ}

/-- The machine with what `f` makes of the state of its plugin. -/
def project (f : π → ρ) (s : Machine π) : Machine ρ :=
  { core := s.core, plugin := f s.plugin, agenda := s.agenda, iterations := s.iterations }

@[simp]
theorem project_core (s : Machine π) : (s.project f).core = s.core := rfl

@[simp]
theorem project_agenda (s : Machine π) : (s.project f).agenda = s.agenda := rfl

@[simp]
theorem project_iterations (s : Machine π) : (s.project f).iterations = s.iterations := rfl

theorem notify_project (h : first.Projects second f) (e : Event) (s : Machine π) :
    (s.project f).notify ⟨p, opts, second⟩ e = (s.notify ⟨p, opts, first⟩ e).project f := by
  unfold notify
  simp only [project, h.handle]

theorem addCallEdge_project (kind : CallKind) (site : CSSite) (callee : CSMethod) (s : Machine π) :
    (s.project f).addCallEdge kind site callee = (s.addCallEdge kind site callee).project f := by
  unfold addCallEdge project
  dsimp only
  split <;> rfl

theorem reach_project (h : first.Projects second f) (m : CSMethod) (s : Machine π) :
    (s.project f).reach ⟨p, opts, second⟩ m = (s.reach ⟨p, opts, first⟩ m).project f := by
  unfold reach
  rw [project_core]
  split
  · rfl
  · rename_i graph _
    dsimp only
    split
    · exact congrArg (push _) (notify_project h _ { s with core := { s.core with graph } })
    · refine congrArg (push _) (Eq.trans (congrArg (notify ⟨p, opts, second⟩ (.newCSMethod m)) ?_)
        (notify_project h _ _))
      exact notify_project h (.newMethod m.method)
        { s with core := { s.core with graph, methods := s.core.methods.insert m.method } }

theorem unresolved_project (e : DispatchError) (s : Machine π) :
    (s.project f).unresolved ⟨p, opts, second⟩ e =
      Prod.map (project f) id (s.unresolved ⟨p, opts, first⟩ e) := by
  unfold unresolved
  dsimp only
  split <;> rfl

theorem processStmt_project (m : CSMethod) (i : Nat) (stmt : Stmt Nat) (s : Machine π) :
    (s.project f).processStmt ⟨p, opts, second⟩ m i stmt =
      Prod.map (project f) id (s.processStmt ⟨p, opts, first⟩ m i stmt) := by
  unfold processStmt
  split
  · split
    · rfl
    · dsimp only
      split
      · rfl
      · split
        · exact unresolved_project _ (s.push _)
        · rfl
  · rfl

theorem processCall_project (ctx : Context) (site : Site) (o : CSObjId) (s : Machine π) :
    (s.project f).processCall ⟨p, opts, second⟩ ctx site o =
      Prod.map (project f) id (s.processCall ⟨p, opts, first⟩ ctx site o) := by
  unfold processCall
  dsimp only
  split
  · rfl
  · rw [project_core]
    split
    · exact unresolved_project _ s
    · rfl
    · exact congrArg fine (addCallEdge_project _ _ _ (s.request _))

theorem perform_project (h : first.Projects second f) (s : Machine π) (task : Task) :
    (s.project f).perform ⟨p, opts, second⟩ task =
      Prod.map (project f) id (s.perform ⟨p, opts, first⟩ task) := by
  cases task with
  | reach m => exact congrArg fine (reach_project h m s)
  | body m i =>
    dsimp only [perform]
    split
    · rfl
    · exact processStmt_project _ _ _ (s.push _)
  | callees site call rest =>
    cases rest with
    | nil => rfl
    | cons m rest => exact congrArg fine (addCallEdge_project _ _ _ (s.push _))
  | connect e => exact congrArg fine (notify_project h _ (s.request _))
  | objects ctx v rest => cases rest <;> rfl
  | calls ctx o rest =>
    cases rest with
    | nil => rfl
    | cons site rest => exact processCall_project _ _ _ (s.push _)

theorem takeEntry_project (h : first.Projects second f) (q : Pointer) (set : IdSet) (s : Machine π) :
    (s.project f).takeEntry ⟨p, opts, second⟩ q set =
      (s.takeEntry ⟨p, opts, first⟩ q set).project f := by
  unfold takeEntry
  rw [project_core]
  dsimp only
  split
  · rfl
  · split
    · exact congrArg (push _) (notify_project h _ { s with core := (s.core.propagate _ set).1 })
    · rfl

/-- The machines take the same step. -/
theorem step_project (h : first.Projects second f) (s : Machine π) :
    (s.project f).step ⟨p, opts, second⟩ = Prod.map (project f) id (s.step ⟨p, opts, first⟩) := by
  unfold step
  rw [project_agenda, project_core, project_iterations]
  split
  · rename_i task rest _
    have hperform : perform ⟨p, opts, second⟩ (project f { s with agenda := rest }) task = _ :=
      perform_project h _ task
    unfold project at hperform ⊢
    rw [hperform]
    rcases perform ⟨p, opts, first⟩ { s with agenda := rest } task with ⟨t, _ | e⟩ <;> rfl
  · split
    · rfl
    · rename_i q set waiting _
      dsimp only
      split
      · rfl
      · exact congrArg (Prod.mk · none) (takeEntry_project h q set { s with
          core := { s.core with waiting }, iterations := s.iterations + 1 })

/-- A machine with the second plugin that takes steps has one with the first that takes them too. -/
theorem Steps.of_project (h : first.Projects second f) {s : Machine π} {t : Machine ρ}
    (hsteps : Steps ⟨p, opts, second⟩ (s.project f) t) :
    ∃ u, Steps ⟨p, opts, first⟩ s u ∧ u.project f = t := by
  induction hsteps with
  | refl => exact ⟨s, .refl, rfl⟩
  | tail _ hnext ih =>
    obtain ⟨u, hu, rfl⟩ := ih
    obtain ⟨hproject, hnone⟩ := Prod.mk.inj ((step_project h u).symm.trans hnext)
    exact ⟨_, hu.tail (Prod.ext rfl hnone), hproject⟩

theorem run_of_project (h : first.Projects second f) {s : Machine π} {t : Machine ρ} {halt : Halt}
    (hrun : (s.project f).run ⟨p, opts, second⟩ = some (t, halt)) :
    ∃ u, s.run ⟨p, opts, first⟩ = some (u, halt) ∧ u.project f = t := by
  obtain ⟨t', hsteps, hlast⟩ := run_eq_some_iff.mp hrun
  obtain ⟨u', hu', rfl⟩ := Steps.of_project h hsteps
  obtain ⟨hproject, hhalt⟩ := Prod.mk.inj ((step_project h u').symm.trans hlast)
  exact ⟨_, run_eq_some_iff.mpr ⟨u', hu', Prod.ext rfl hhalt⟩, hproject⟩

theorem begin_project (h : first.Projects second f) :
    begin ⟨p, opts, second⟩ = (begin ⟨p, opts, first⟩).project f := by
  have hstart : notify ⟨p, opts, second⟩ .start { plugin := second.initial } =
      (notify ⟨p, opts, first⟩ .start { plugin := first.initial }).project f := by
    rw [h.initial]
    exact notify_project h .start { plugin := first.initial }
  unfold begin
  dsimp only
  rw [hstart]
  rfl

end Machine

/-- The analysis with the first plugin has the result that it has with the second. -/
theorem analyzeWith_project {p : Program} {opts : Options} {first : Plugin π} {second : Plugin ρ} {f : π → ρ}
    (h : first.Projects second f) {r : Result} {st : ρ}
    (hok : (analyzeWith p opts second).start.1 = .ok (r, st)) :
    ∃ st', (analyzeWith p opts first).start.1 = .ok (r, st') ∧ f st' = st := by
  obtain ⟨t, hrun, hres⟩ := analyzeWith_ok hok
  rw [Machine.begin_project h] at hrun
  obtain ⟨u, hu, rfl⟩ := Machine.run_of_project h hrun
  have hresult : resultOf ⟨p, opts, second⟩ (u.project f) =
      ((resultOf ⟨p, opts, first⟩ u).1, f (resultOf ⟨p, opts, first⟩ u).2) := by
    unfold resultOf
    rw [Machine.notify_project h]
    rfl
  obtain ⟨rfl, rfl⟩ := Prod.mk.inj (hres.trans hresult)
  have hentries : ¬ p.entries.isEmpty = true := by
    intro hempty
    rw [analyzeWith_outcome, if_pos hempty] at hok
    cases hok
  refine ⟨(resultOf ⟨p, opts, first⟩ u).2, ?_, rfl⟩
  rw [analyzeWith_outcome, if_neg hentries, hu]

end WholeProgram.PointsTo
