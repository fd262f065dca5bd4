import WholeProgram.Proofs.PointsTo.Effects
import WholeProgram.Proofs.PointsTo.Notices
import WholeProgram.Proofs.Taint.Flows

/-!
# Plugins are told of everything once

Whatever the plugins ask for, a run that ends without an error has told them of each reachable method, of
each of them in each context, of each call edge and of each object of a variable, once and in order
(`plugins_told_once`).

* `Machine.account` — what a plugin that keeps a record (`Plugin.Records`) can know of the machine;
* `Machine.tells_step` — a step tells the plugin of what it does, or does nothing that counts;
* `Machine.Steps.faithful` — so what was told is what the core has, along the whole run.
-/

namespace WholeProgram.PointsTo

open Relation (ReflTransGen)

/-! ## The account of a machine -/

/-- The state of the plugin has a record of all that the plugin was told, with the points-to sets as they
were. -/
structure Plugin.Records {π : Type} (plugin : Plugin π) (told : π → List Notice) : Prop where
  initial : told plugin.initial = []
  handle : ∀ e core st, ∃ seen : Core, (∀ q, seen.pointsTo q = core.pointsTo q) ∧
    told (plugin.handle e core st).1 = told st ++ [⟨e, seen⟩]

theorem Plugin.records_recorder {π : Type} (plugin : Plugin π) :
    (recorder.andThen plugin).Records Prod.fst :=
  ⟨rfl, fun _ core _ => ⟨core, fun _ => rfl, rfl⟩⟩

theorem Plugin.records_recorder_between {π ρ : Type} (first : Plugin π) (second : Plugin ρ) :
    (first.andThen (recorder.andThen second)).Records fun st => st.2.1 :=
  ⟨rfl, fun _ core _ => ⟨_, Core.carryOutAll_pointsTo core _, rfl⟩⟩

namespace Machine

variable {π : Type} {S : Setting π} {told : π → List Notice}

/-- What a plugin can know of the machine. -/
def account (told : π → List Notice) (s : Machine π) : Account where
  told := told s.plugin
  graph := s.core.graph
  methods := s.core.methods
  sets ctx v := s.core.pointsTo (.var ctx v)
  links := s.agenda.filter Task.isLink

/-- The plugin can follow from `s` to `s'` with what it is told. -/
abbrev Tells (told : π → List Notice) (s s' : Machine π) : Prop :=
  ReflTransGen Account.Next (s.account told) (s'.account told)

theorem tells_of_eq {s s' : Machine π} (h : s'.account told = s.account told) : Tells told s s' := by
  rw [Tells, h]

@[simp]
theorem account_request (rs : List Request) (s : Machine π) :
    (s.request rs).account told = s.account told := by
  simp [account, request]

theorem account_push (tasks : List Task) (s : Machine π) :
    (s.push tasks).account told =
      { s.account told with links := tasks.filter Task.isLink ++ (s.account told).links } := by
  simp [account, push]

theorem account_push_of_not_link {tasks : List Task} (h : tasks.filter Task.isLink = [])
    (s : Machine π) : (s.push tasks).account told = s.account told := by
  rw [account_push, h]
  rfl

/-- Tasks that do not concern call edges may be exchanged for others. -/
theorem tells_exchange {tasks tasks' : List Task} (h : tasks.filter Task.isLink = [])
    (h' : tasks'.filter Task.isLink = []) (s : Machine π) : Tells told (s.push tasks) (s.push tasks') :=
  tells_of_eq ((account_push_of_not_link h' s).trans (account_push_of_not_link h s).symm)

theorem account_notify (hrec : S.plugin.Records told) (e : Event) (s : Machine π) :
    ∃ seen : Core, (∀ q, seen.pointsTo q = s.core.pointsTo q) ∧
      (s.notify S e).account told =
        { s.account told with told := (s.account told).told ++ [⟨e, seen⟩] } := by
  obtain ⟨seen, hseen, htold⟩ := hrec.handle e s.core s.plugin
  refine ⟨seen, hseen, ?_⟩
  simp [account, notify, htold]

theorem account_unresolved (e : DispatchError) (s : Machine π) :
    (s.unresolved S e).1.account told = s.account told := by
  unfold unresolved
  split <;> rfl

theorem account_processStmt (m : CSMethod) (i : Nat) (stmt : Stmt Nat) (s : Machine π) :
    (s.processStmt S m i stmt).1.account told = s.account told := by
  unfold processStmt
  split
  · split
    · rfl
    · dsimp only
      split
      · rfl
      · split
        · exact (account_unresolved _ _).trans (account_push_of_not_link rfl s)
        · exact account_push_of_not_link rfl s
  · exact account_request _ s

theorem tells_addCallEdge {s : Machine π} (hg : s.core.graph.Consistent) (kind : CallKind)
    (site : CSSite) (callee : CSMethod) : Tells told s (s.addCallEdge kind site callee) := by
  rcases addCallEdge_cases hg kind site callee with ⟨-, heq⟩ | ⟨hnew, heq⟩
  · rw [heq]
  · rw [heq]
    exact .single (.edge (a := s.account told) kind site callee hnew)

theorem tells_processCall {s : Machine π} (hg : s.core.graph.Consistent) (ctx : Context) (site : Site)
    (o : CSObjId) : Tells told s (s.processCall S ctx site o).1 := by
  unfold processCall
  split
  · exact .refl
  · dsimp only
    split
    · exact tells_of_eq (account_unresolved _ s)
    · exact .refl
    · refine (tells_of_eq (account_request _ s)).trans (tells_addCallEdge ?_ _ _ _)
      rwa [request_graph]

theorem tells_reach (hrec : S.plugin.Records told) {s : Machine π} (hg : s.core.graph.Consistent)
    (m : CSMethod) : Tells told (s.push [.reach m]) (s.reach S m) := by
  have hstart : (s.push [.reach m]).account told =
      { s.account told with links := .reach m :: (s.account told).links } := account_push _ s
  have henter : (s.enter m).account told =
      { s.account told with graph := (s.core.graph.addReachable m).1 } := account_push_of_not_link rfl _
  rw [Tells, hstart]
  rcases reach_cases (S := S) hg m with ⟨hold, heq⟩ | ⟨hnew, ⟨hknown, heq⟩ | ⟨hfresh, heq⟩⟩
  · rw [heq]
    exact .single (.known m hold)
  · obtain ⟨seen, -, hcontext⟩ := account_notify hrec (.newCSMethod m) (s.enter m)
    rw [heq, hcontext, henter]
    exact .single (.context m seen hnew hknown)
  · let t : Machine π := { s.enter m with
      core := { (s.enter m).core with methods := s.core.methods.insert m.method } }
    obtain ⟨seen, -, hmethod⟩ := account_notify hrec (.newMethod m.method) t
    obtain ⟨seen', -, hcontext⟩ := account_notify hrec (.newCSMethod m) ((s.enter m).announce S m.method)
    have hfirst := Account.Next.method (a := s.account told) m seen hfresh
    have hsecond := Account.Next.context (a := { s.account told with
        told := (s.account told).told ++ [⟨.newMethod m.method, seen⟩]
        methods := s.core.methods.insert m.method }) m seen' hnew
      (Std.HashSet.mem_insert.mpr (Or.inl (beq_self_eq_true m.method)))
    have hannounce : ((s.enter m).announce S m.method).account told = _ := hmethod
    rw [heq, hcontext, hannounce]
    exact .tail (.single hfirst) hsecond

theorem tells_connect (hrec : S.plugin.Records told) (e : CSEdge) (s : Machine π) :
    Tells told (s.push [.connect e]) (s.connect S e) := by
  obtain ⟨seen, -, hnotify⟩ := account_notify hrec (.newCallEdge e) (s.request (linkRequests S.program e))
  have hstart : (s.push [.connect e]).account told =
      { s.account told with links := .connect e :: (s.account told).links } := account_push _ s
  rw [Tells, hstart, connect, hnotify, account_request]
  exact .single (.connected e seen)

theorem tells_perform (hrec : S.plugin.Records told) {s : Machine π} (hg : s.core.graph.Consistent)
    (task : Task) : Tells told (s.push [task]) (s.perform S task).1 := by
  cases task with
  | reach m => exact tells_reach hrec hg m
  | body m i =>
    unfold perform
    dsimp only
    split
    · exact tells_of_eq (account_push_of_not_link rfl s).symm
    · exact (tells_exchange rfl rfl s).trans (tells_of_eq (account_processStmt m i _ _))
  | callees site call rest =>
    cases rest with
    | nil => exact tells_of_eq (account_push_of_not_link rfl s).symm
    | cons m rest =>
      have hg : (s.push [.callees site call rest]).core.graph.Consistent := hg
      exact (tells_exchange rfl rfl s).trans (tells_addCallEdge hg _ _ _)
  | connect e => exact tells_connect hrec e s
  | objects ctx v rest =>
    cases rest with
    | nil => exact tells_of_eq (account_push_of_not_link rfl s).symm
    | cons o rest =>
      refine tells_of_eq (Eq.trans ?_ (account_push_of_not_link rfl s).symm)
      exact (account_push_of_not_link rfl _).trans (account_request _ s)
  | calls ctx o rest =>
    cases rest with
    | nil => exact tells_of_eq (account_push_of_not_link rfl s).symm
    | cons site rest =>
      have hg : (s.push [.calls ctx o rest]).core.graph.Consistent := hg
      exact (tells_exchange rfl rfl s).trans (tells_processCall hg _ _ _)

theorem tells_takeEntry (hrec : S.plugin.Records told) {s : Machine π} {q : Pointer} {set : IdSet}
    {w : Queue (Pointer × IdSet)} (hpop : s.core.waiting.toList = (q, set) :: w.toList) (n : Nat) :
    Tells told s
      (takeEntry S q set { s with core := { s.core with waiting := w }, iterations := n }) := by
  obtain ⟨hdelta, htaken⟩ := Core.taken_propagate hpop
  have hmethods := Core.propagate_methods { s.core with waiting := w } q set
  unfold takeEntry
  dsimp only
  generalize ({ s.core with waiting := w } : Core).propagate q set = r at hdelta htaken hmethods
  obtain ⟨core, delta⟩ := r
  obtain rfl : delta = set.diff (s.core.pointsTo q) := hdelta
  have hgraph : core.graph = s.core.graph := htaken.graph
  have hknown : core.methods = s.core.methods := hmethods
  -- without news for a variable the core is as before in all that a plugin hears of
  have hsame : (∀ c v, q = .var c v → ∀ i, i ∉ set.diff (s.core.pointsTo q)) →
      Tells told s { core, plugin := s.plugin, agenda := s.agenda, iterations := n } := by
    intro hnone
    have hsets : ∀ c v, core.pointsTo (.var c v) = s.core.pointsTo (.var c v) := fun c v =>
      IdSet.ext fun i => (htaken.sets _ i).trans
        ⟨fun h => h.resolve_right fun ⟨hq, hi⟩ => hnone c v hq.symm i hi, Or.inl⟩
    refine tells_of_eq ?_
    simp only [account, hgraph, hknown, hsets]
  split
  · rename_i hempty
    exact hsame fun _ _ _ i => (IdSet.isEmpty_iff _).mp hempty i
  · rename_i hsome
    split
    · rename_i ctx v
      obtain ⟨seen, hseen, hnotify⟩ := account_notify hrec
        (.newPointsTo ctx v (set.diff (s.core.pointsTo (.var ctx v))))
        { core, plugin := s.plugin, agenda := s.agenda, iterations := n }
      have hnext := Account.Next.grown (a := s.account told) ctx v
        (set.diff (s.core.pointsTo (.var ctx v))) seen (fun c w => core.pointsTo (.var c w))
        ((IdSet.isEmpty_eq_false_iff _).mp (Bool.eq_false_iff.mpr hsome)) (fun i hi => ((IdSet.mem_diff _ _ _).mp hi).2) ?_ ?_
      · rw [Tells, account_push_of_not_link rfl, hnotify]
        simp only [account, hgraph, hknown] at hnext ⊢
        exact .single hnext
      · intro c w i
        rw [htaken.sets, Pointer.var.injEq]
        rfl
      · intro i hi
        rw [hseen]
        exact (htaken.sets _ i).mpr (Or.inr ⟨rfl, hi⟩)
    · rename_i hvar
      exact hsame fun c v hq => absurd hq (hvar c v)

/-- A step tells the plugin of what it does. -/
theorem tells_step (hrec : S.plugin.Records told) {s t : Machine π} (hg : s.core.graph.Consistent)
    (hnext : Next S s t) : Tells told s t := by
  rcases next_cases hnext with ⟨task, rest, hagenda, hperform⟩ | ⟨q, set, w, -, hpop, rfl⟩
  · have hpush : ({ s with agenda := rest } : Machine π).push [task] = s := by
      unfold push
      rw [List.singleton_append, ← hagenda]
    have htells := tells_perform hrec (s := { s with agenda := rest }) hg task
    rwa [hpush, hperform] at htells
  · exact tells_takeEntry hrec hpop _

/-- Before the first step the plugin was told of the start only. -/
theorem faithful_begin (hrec : S.plugin.Records told) : ((begin S).account told).Faithful := by
  obtain ⟨seen, -, hnotify⟩ := account_notify hrec .start { plugin := S.plugin.initial }
  have htold : ((begin S).account told).told = [⟨.start, seen⟩] := by
    have h := congrArg Account.told hnotify
    rwa [show (account told { plugin := S.plugin.initial }).told = [] from hrec.initial] at h
  have hgraph : ((begin S).account told).graph =
      S.program.entries.foldl (fun g m => g.addEntry ⟨[], m⟩) {} := by
    show S.program.entries.foldl (fun g m => g.addEntry ⟨[], m⟩) (notify S .start _).core.graph = _
    rw [notify_graph]
  have hmethods : ((begin S).account told).methods = ∅ := congrArg Account.methods hnotify
  have hsets : ((begin S).account told).sets = fun _ _ => ∅ := by
    refine (congrArg Account.sets hnotify).trans ?_
    simp [account, Core.pointsTo]
  have hlinks : ((begin S).account told).links = (S.program.entries.map (CSMethod.mk [])).map .reach := by
    show (S.program.entries.map fun m => .reach ⟨[], m⟩).filter Task.isLink = _
    rw [List.map_map]
    refine List.filter_eq_self.mpr fun task htask => ?_
    obtain ⟨m, -, rfl⟩ := List.mem_map.mp htask
    rfl
  obtain ⟨-, hreachable, hedges⟩ :=
    CallGraph.Consistent.addEntries S.program.entries (CSMethod.mk [])
      (CallGraph.consistent_empty (σ := CSSite))
  rw [← hgraph] at hreachable hedges
  have hpending : ((begin S).account told).links.filterMap Task.edge? = [] := by
    rw [hlinks]
    simp [List.filterMap_map, Task.edge?]
  constructor
  · rw [hgraph]
    exact .foldl (fun _ m h => h.entry _) _ .empty
  · rw [htold]
    exact .concat .nil trivial
  · simp [htold, hsets, toldDeltas, Event.delta?]
  · simp [htold, hpending, hedges, toldEdges, Event.edge?]
  · simp [htold, hreachable, toldCSMethods, Event.csMethod?]
  · simp [htold, hmethods, toldMethods, Event.method?]
  · simp [hreachable]
  · simp [hmethods]
  · rw [hlinks]
    exact Account.ready_reach _ _

theorem Steps.faithful (hrec : S.plugin.Records told) {s t : Machine π}
    (h : (s.account told).Faithful) (hsteps : Steps S s t) : (t.account told).Faithful := by
  induction hsteps with
  | refl => exact h
  | tail _ hnext ih => exact ih.steps (tells_step hrec ih.graph.consistent hnext)

/-- The machine is done when nothing is left to do. -/
theorem step_done {s t : Machine π} (h : s.step S = (t, some .done)) : t = s ∧ s.agenda = [] := by
  rcases step_eq S s with ⟨task, rest, -, heq⟩ | ⟨hagenda, -, heq⟩ | ⟨q, set, w, -, -, heq⟩
  · have hfailed := congrArg Prod.snd (heq.symm.trans h)
    obtain ⟨e, -, he⟩ := Option.map_eq_some_iff.mp hfailed
    cases he
  · cases heq.symm.trans h
    exact ⟨rfl, hagenda⟩
  · split at heq <;> cases heq.symm.trans h

/-- With nothing left to do, everything was told. -/
theorem toldOnce_of_faithful {s : Machine π} (h : (s.account told).Faithful) (hagenda : s.agenda = []) :
    ToldOnce (told s.plugin) s.core := by
  have hlinks : (s.account told).links = [] := by simp [account, hagenda]
  have hedges := h.edges
  rw [hlinks, List.filterMap_nil, List.append_nil] at hedges
  refine h.timely.toldOnce h.sets (fun e => ?_) h.csMethods fun m => ?_
  · exact hedges.mem_iff.trans Array.mem_toList_iff
  · refine (h.methods m).trans ⟨fun hm => ?_, fun ⟨ctx, hctx⟩ => h.known _ hctx⟩
    refine (h.due m hm).resolve_right ?_
    rintro ⟨k, hk, -⟩
    rw [hlinks] at hk
    cases hk

end Machine

/-! ## The analysis -/

variable {π ρ : Type} {p : Program} {opts : Options} {r : Result}

/-- A record that a plugin keeps is that of a run that tells of everything once. -/
theorem toldOnce_of_records {plugin : Plugin π} {told : π → List Notice} (hrec : plugin.Records told)
    {st : π} (hok : (analyzeWith p opts plugin).start.1 = .ok (r, st)) : ToldOnce (told st) r.core := by
  obtain ⟨s, hrun, hres⟩ := analyzeWith_ok hok
  obtain ⟨t, hsteps, hlast⟩ := Machine.run_eq_some_iff.mp hrun
  obtain ⟨rfl, hagenda⟩ := Machine.step_done hlast
  have hfaithful := Machine.Steps.faithful hrec (Machine.faithful_begin hrec) hsteps
  obtain ⟨seen, -, hfinish⟩ := Machine.account_notify (S := ⟨p, opts, plugin⟩) hrec .finish s
  have hend : ((s.notify ⟨p, opts, plugin⟩ .finish).account told).Faithful :=
    hfinish ▸ hfaithful.finish seen
  obtain ⟨rfl, rfl⟩ := Prod.mk.inj hres
  exact Machine.toldOnce_of_faithful hend hagenda

/-- A run that ends without an error has told its plugin of everything once and in order: a recorder that
listens in changes nothing, and what it has in the end says so. -/
theorem plugins_told_once (p : Program) (opts : Options) (plugin : Plugin π) {st : π}
    (h : (analyzeWith p opts plugin).start.1 = .ok (r, st)) :
    ∃ told, (analyzeWith p opts (Plugin.recorder.andThen plugin)).start.1 = .ok (r, told, st) ∧
      ToldOnce told r.core := by
  obtain ⟨⟨told, st'⟩, hok, rfl⟩ := analyzeWith_project (Plugin.projects_recorder plugin) h
  exact ⟨told, hok, toldOnce_of_records (Plugin.records_recorder plugin) hok⟩

/-- The taint plugin is told that a taint is new to what `main` hands to `run`, and of the call of `run`. -/
theorem plugins_told_once_leak : ∃ r w told,
    (analyzeWith Taint.Leak.program {} (Taint.plugin Taint.Leak.program Taint.Leak.found)).start.1 =
      .ok (r, w) ∧
    (analyzeWith Taint.Leak.program {}
        (Plugin.recorder.andThen (Taint.plugin Taint.Leak.program Taint.Leak.found))).start.1 =
      .ok (r, told, w) ∧
    ToldOnce told r.core ∧ toldDeltas [] 1 told ≠ [] ∧ ∃ e ∈ toldEdges told, e.callee.method = 3 := by
  obtain ⟨outcome, h⟩ :=
    Taint.analyzeProblem_succeeds {} Taint.Leak.resolvable (by decide) (by decide) Taint.Leak.resolve
  obtain ⟨rules, w, hrules, hok, -⟩ := Taint.analyzeProblem_ok h
  obtain rfl := Except.ok.inj (Taint.Leak.resolve.symm.trans hrules)
  obtain ⟨told, hrecorded, htold⟩ := plugins_told_once Taint.Leak.program {} _ hok
  have hleast := Taint.facts_isLeast hok
  obtain ⟨i, hi, -⟩ := Taint.Leak.holds_taint hleast.1
  obtain ⟨delta, hdelta, -⟩ := (htold.deltas_union [] 1 i).mp hi
  obtain ⟨e, he, -, hcallee⟩ := Taint.Leak.edge_of_call hleast.1 (i := 2) (k := 3) rfl rfl rfl
  exact ⟨_, w, told, hok, hrecorded, htold, List.ne_nil_of_mem hdelta, e, (htold.mem_edges e).mpr he,
    congrArg CSMethod.method hcallee⟩

/-- So it is for a plugin that is told after others. -/
theorem plugins_told_once_between (p : Program) (opts : Options) (first : Plugin π) (second : Plugin ρ)
    {st : π} {st' : ρ} (h : (analyzeWith p opts (first.andThen second)).start.1 = .ok (r, st, st')) :
    ∃ told, (analyzeWith p opts (first.andThen (Plugin.recorder.andThen second))).start.1 =
        .ok (r, st, told, st') ∧
      ToldOnce told r.core := by
  obtain ⟨⟨st, told, st'⟩, hok, heq⟩ :=
    analyzeWith_project (Plugin.projects_recorder_between first second) h
  obtain ⟨rfl, rfl⟩ := Prod.mk.inj heq
  exact ⟨told, hok, toldOnce_of_records (Plugin.records_recorder_between first second) hok⟩

end WholeProgram.PointsTo
