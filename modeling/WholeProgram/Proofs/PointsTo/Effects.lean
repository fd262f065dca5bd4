import WholeProgram.Proofs.PointsTo.Entries

/-!
# What a task changes

`Advance` bounds what the machine claims by a set that is closed under the rules. Here a task is
described by itself, for machines that need not run to an end.

* `Effect S K F s s'` — between `s` and `s'` nothing was lost, and all that is new is a fact of `F`,
  which was to be done, or follows by a rule from what `s'` holds; a new call edge waits to be
  connected;
* `Quiet S K F s s'` — besides, no points-to set has changed, and the plugin has kept still;
* `quiet_perform` — so it is for every task but that of connecting a call edge, if the plugin does
  not answer to methods (`Plugin.Silent`);
* `next_cases`, `stop_cases` — what a step can do;
* `effect_takeEntry` — what taking an entry of the worklist changes, before the plugin hears of it.
-/

namespace WholeProgram.PointsTo

variable {K : Set Obj}

/-- A plugin that does not answer to methods. -/
structure Plugin.Silent {π : Type} (plugin : Plugin π) : Prop where
  newMethod : ∀ m core st, plugin.handle (.newMethod m) core st = (st, [])
  newCSMethod : ∀ m core st, plugin.handle (.newCSMethod m) core st = (st, [])

theorem Plugin.silent_none : Plugin.none.Silent := ⟨fun _ _ _ => rfl, fun _ _ _ => rfl⟩

namespace Machine

variable {π : Type} {S : Setting π} {F G : Set Fact} {s s' s'' : Machine π}

/-- The core is in order, and so are the tasks. -/
structure Sane (S : Setting π) (K : Set Obj) (s : Machine π) : Prop where
  core : s.core.Ok K
  tasks : ∀ task ∈ s.agenda, task.Valid S.program s.core

theorem Inv.sane {X : Set Fact} {J : π → Prop} (h : Inv S K X J s) : Sane S K s := ⟨h.core, h.tasks⟩

/-- What was done between `s` and `s'`, where `F` was to be done. -/
structure Effect (S : Setting π) (K : Set Obj) (F : Set Fact) (s s' : Machine π) : Prop where
  sane : Sane S K s'
  tables : Core.TableLe s.core s'.core
  facts : s.core.facts ⊆ s'.core.facts
  facts_new : ∀ f ∈ s'.core.facts, f ∈ s.core.facts ∨ f ∈ F
  met : s.core.met ⊆ s'.core.met
  claimed_new : ∀ f ∈ s'.claimed S,
    f ∈ s.claimed S ∨ f ∈ F ∨ Yields S.program S.options false s'.core.facts f
  connects : ∀ e, .connect e ∈ s.agenda → .connect e ∈ s'.agenda
  edges : ∀ site m, .edge site m ∈ s'.core.facts →
    .edge site m ∈ s.core.facts ∨ ∃ kind, .connect ⟨kind, site, m⟩ ∈ s'.agenda

/-- An effect that changes neither a points-to set nor the plugin. -/
structure Quiet (S : Setting π) (K : Set Obj) (F : Set Fact) (s s' : Machine π) : Prop extends
    Effect S K F s s' where
  sets : ∀ q, s'.core.pointsTo q = s.core.pointsTo q
  plugin : s'.plugin = s.plugin

theorem Effect.trans (h : Effect S K F s s') (h' : Effect S K F s' s'') : Effect S K F s s'' where
  sane := h'.sane
  tables := h.tables.trans h'.tables
  facts := h.facts.trans h'.facts
  facts_new := fun f hf => (h'.facts_new f hf).elim (h.facts_new f) Or.inr
  met := h.met.trans h'.met
  claimed_new := by
    intro f hf
    rcases h'.claimed_new f hf with hf | hf
    · refine (h.claimed_new f hf).imp_right (Or.imp_right fun hy => hy.mono h'.facts)
    · exact Or.inr hf
  connects := fun e he => h'.connects e (h.connects e he)
  edges := by
    intro site m he
    rcases h'.edges site m he with he | he
    · exact (h.edges site m he).imp_right fun ⟨kind, he⟩ => ⟨kind, h'.connects _ he⟩
    · exact Or.inr he

theorem Effect.mono (h : Effect S K F s s') (hFG : F ⊆ G) : Effect S K G s s' :=
  { h with
    facts_new := fun f hf => (h.facts_new f hf).imp_right (@hFG f)
    claimed_new := fun f hf => (h.claimed_new f hf).imp_right (Or.imp_left (@hFG f)) }

theorem Quiet.trans (h : Quiet S K F s s') (h' : Quiet S K F s' s'') : Quiet S K F s s'' :=
  ⟨h.toEffect.trans h'.toEffect, fun q => (h'.sets q).trans (h.sets q), h'.plugin.trans h.plugin⟩

theorem Quiet.refl (hs : Sane S K s) : Quiet S K F s s :=
  ⟨⟨hs, .refl _, subset_rfl, fun _ hf => Or.inl hf, subset_rfl, fun _ hf => Or.inl hf, fun _ he => he,
    fun _ _ he => Or.inl he⟩, fun _ => rfl, rfl⟩

/-- The core gains facts that were to be done, and what follows from them becomes tasks. -/
theorem Effect.of_gains (hs : Sane S K s) {core : Core} {plugin : π} {tasks : List Task} {n : Nat}
    {A D : Set Fact} (hok : core.Ok K)
    (hgains : Core.Gains S.program S.options A D s.core core) (hA : A ⊆ F)
    (htasks : ∀ task ∈ tasks, task.Valid S.program core ∧
      ∀ f ∈ task.owes S.program S.options core, f ∈ F ∨ Yields S.program S.options false core.facts f)
    (hedges : ∀ site m, .edge site m ∈ core.facts →
      .edge site m ∈ s.core.facts ∨ ∃ kind, .connect ⟨kind, site, m⟩ ∈ tasks) :
    Effect S K F s { core, plugin, agenda := tasks ++ s.agenda, iterations := n } where
  sane := by
    refine ⟨hok, fun task htask => ?_⟩
    rcases List.mem_append.mp htask with htask | htask
    · exact (htasks task htask).1
    · exact (hs.tasks task htask).mono hgains.tables hgains.facts
  tables := hgains.tables
  facts := hgains.facts
  facts_new := fun f hf => (hgains.facts_new f hf).imp_right (@hA f)
  met := hgains.met
  claimed_new := by
    rintro f (hf | ⟨task, htask, hf⟩)
    · rcases hgains.met_new f hf with hf | hf
      · exact Or.inl (Or.inl hf)
      · exact Or.inr (hf.imp_left (@hA f))
    · rcases List.mem_append.mp htask with htask | htask
      · exact Or.inr ((htasks task htask).2 f hf)
      · rw [(hs.tasks task htask).owes_eq S.options hgains.tables] at hf
        exact Or.inl (Or.inr ⟨task, htask, hf⟩)
  connects := fun e he => List.mem_append_right _ he
  edges := fun site m he =>
    (hedges site m he).imp_right fun ⟨kind, he⟩ => ⟨kind, List.mem_append_left _ he⟩

/-- The core gains facts that were to be done, and nothing is left to do for them. -/
theorem Effect.of_gains_only (hs : Sane S K s) {core : Core} {plugin : π} {n : Nat} {A D : Set Fact}
    (hok : core.Ok K) (hgains : Core.Gains S.program S.options A D s.core core) (hA : A ⊆ F)
    (hedges : ∀ site m, .edge site m ∈ core.facts → .edge site m ∈ s.core.facts) :
    Effect S K F s { core, plugin, agenda := s.agenda, iterations := n } := by
  have htasks : ∀ task ∈ ([] : List Task), task.Valid S.program core ∧
      ∀ f ∈ task.owes S.program S.options core,
        f ∈ F ∨ Yields S.program S.options false core.facts f := by simp
  exact .of_gains hs hok hgains hA htasks fun site m he => Or.inl (hedges site m he)

/-! ## Parts of a step -/

theorem quiet_push (hs : Sane S K s) {tasks : List Task}
    (htasks : ∀ task ∈ tasks, task.Valid S.program s.core ∧
      ∀ f ∈ task.owes S.program S.options s.core,
        f ∈ F ∨ Yields S.program S.options false s.core.facts f) :
    Quiet S K F s (s.push tasks) :=
  ⟨.of_gains hs hs.core (Core.Gains.refl s.core) (Set.empty_subset _) htasks fun _ _ he => Or.inl he,
    fun _ => rfl, rfl⟩

/-- A task is begun: the tasks that stay are put on the agenda. -/
theorem quiet_leaves (hs : Sane S K s) {task : Task} {tasks : List Task}
    (hleaves : task.Leaves S.program tasks) (hvalid : task.Valid S.program s.core)
    (howes : task.owes S.program S.options s.core ⊆ F) : Quiet S K F s (s.push tasks) :=
  quiet_push hs fun _ htask =>
    ⟨hleaves.valid hvalid htask, fun _ hf => Or.inl (howes (hleaves.owes htask hf))⟩

/-- Carrying out requests for facts of `F`, whatever becomes of the plugin. -/
theorem effect_carryOutAll (hs : Sane S K s) {rs : List Request} {plugin : π}
    (hobjs : ∀ r ∈ rs, ∀ x ∈ r.objs, x.2 ∈ K) (hF : ∀ r ∈ rs, r.asks K ⊆ F) :
    Effect S K F s { s with core := s.core.carryOutAll rs, plugin } := by
  obtain ⟨hok, hgains, -⟩ := Core.gains_carryOutAll S.program S.options hs.core rs hobjs
  refine Effect.of_gains_only hs hok hgains ?_ ?_
  · rintro f ⟨r, hr, hf⟩
    exact hF r hr hf
  · intro site m he
    have he : (s.core.carryOutAll rs).graph.HasEdge site m := he
    rw [Core.carryOutAll_graph] at he
    exact he

theorem quiet_request (hs : Sane S K s) {rs : List Request} {G : Set Fact} (hG : Serves K rs G)
    (hGF : G ⊆ F) : Quiet S K F s (s.request rs) :=
  ⟨effect_carryOutAll hs hG.objs fun r hr => (hG.asks r hr).trans hGF,
    Core.carryOutAll_pointsTo _ rs, rfl⟩

/-- The plugin answers to an event with requests that serve `F`. -/
theorem effect_notify (hs : Sane S K s) {e : Event}
    (hF : Serves K (S.plugin.handle e s.core s.plugin).2 F) :
    Effect S K F s (s.notify S e) ∧ F ⊆ (s.notify S e).core.met ∧
      ∀ q, (s.notify S e).core.pointsTo q = s.core.pointsTo q := by
  obtain ⟨hok, -, hgranted⟩ := Core.gains_carryOutAll S.program S.options hs.core _ hF.objs
  exact ⟨effect_carryOutAll hs hF.objs hF.asks, hF.met _ hok hgranted,
    Core.carryOutAll_pointsTo _ _⟩

/-- What is no part of a fact may change at will. -/
theorem quiet_of_same (hs : Sane S K s) {core : Core} (htables : Core.SameTables s.core core)
    (hstate : Core.SameState s.core core) : Quiet S K F s { s with core } := by
  obtain ⟨hok, hgains⟩ := Core.gains_of_same S.program S.options hs.core htables hstate
  refine ⟨.of_gains_only hs hok hgains (Set.empty_subset _) ?_, ?_, rfl⟩
  · intro site m he
    exact (hgains.facts_new _ he).resolve_right (Set.notMem_empty _)
  · exact fun q => by simp [Core.pointsTo, hstate.sets]

/-- A new call edge is to be connected. -/
theorem quiet_addCallEdge (hs : Sane S K s) (kind : CallKind) {site : CSSite} {m : CSMethod}
    (he : .edge site m ∈ F) : Quiet S K F s (s.addCallEdge kind site m) := by
  rcases addCallEdge_cases hs.core.graph kind site m with ⟨-, heq⟩ | ⟨hnew, heq⟩
  · rw [heq]
    exact .refl hs
  · obtain ⟨hok, hgains, hedge⟩ := Core.gains_addEdge S.program S.options hs.core kind hnew
    rw [heq]
    refine ⟨.of_gains hs hok hgains (by rintro f rfl; exact he) ?_ ?_, fun _ => rfl, rfl⟩
    · intro task htask
      rcases List.mem_pair.mp htask with rfl | rfl
      · exact ⟨trivial, by rintro f rfl; exact Or.inr (.callee hedge)⟩
      · exact ⟨hedge, fun f hf => Or.inr (.link hedge hf)⟩
    · intro site' m' he'
      refine (hgains.facts_new _ he').imp_right fun hf => ⟨kind, ?_⟩
      obtain ⟨rfl, rfl⟩ := Fact.edge.inj hf
      simp

/-- A plugin that does not answer is as good as not told. -/
theorem notify_eq_self {e : Event} (h : S.plugin.handle e s.core s.plugin = (s.plugin, [])) :
    s.notify S e = s := by
  unfold notify
  rw [h]
  rfl

/-- The body of a method that becomes reachable is to be looked at. -/
theorem quiet_reach (hs : Sane S K s) (hsilent : S.plugin.Silent) {m : CSMethod} (hm : .reach m ∈ F) :
    Quiet S K F s (s.reach S m) := by
  rcases reach_cases (S := S) hs.core.graph m with ⟨-, heq⟩ | ⟨hnew, hcases⟩
  · rw [heq]
    exact .refl hs
  · obtain ⟨hok, hgains, hreach⟩ := Core.gains_addReachable S.program S.options hs.core hnew
    have henter : Quiet S K F s (s.enter m) := by
      refine ⟨.of_gains hs hok hgains (by rintro f rfl; exact hm) ?_ ?_, fun _ => rfl, rfl⟩
      · intro task htask
        rw [List.mem_singleton.mp htask]
        exact ⟨trivial, fun f ⟨j, _, hf⟩ => Or.inr (.stmt hreach hf)⟩
      · exact fun site m' he => (hgains.facts_new _ he).imp_right fun hf => by cases hf
    rcases hcases with ⟨-, heq⟩ | ⟨-, heq⟩
    · rw [heq, notify_eq_self (hsilent.newCSMethod _ _ _)]
      exact henter
    · rw [heq, announce, notify_eq_self (hsilent.newMethod _ _ _),
        notify_eq_self (hsilent.newCSMethod _ _ _)]
      exact henter.trans (quiet_of_same henter.sane ⟨rfl, rfl, rfl, rfl⟩ ⟨rfl, rfl, rfl, rfl, rfl⟩)

/-! ## Tasks -/

/-- A call that cannot be resolved leaves a note or is an error. -/
theorem quiet_unresolved (hs : Sane S K s) (e : DispatchError) :
    Quiet S K F s (s.unresolved S e).1 := by
  unfold unresolved
  split
  · exact quiet_of_same hs ⟨rfl, rfl, rfl, rfl⟩ ⟨rfl, rfl, rfl, rfl, rfl⟩
  · exact .refl hs

theorem quiet_processStmt (hK : Genuine S.program K) (hs : Sane S K s) {m : CSMethod} {i : Nat}
    {stmt : Stmt Nat} (hstmt : S.program.stmt? ⟨m.method, i⟩ = some stmt)
    (hdoes : ∀ f, Does S.program S.options m i f → f ∈ F) :
    Quiet S K F s (s.processStmt S m i stmt).1 := by
  rcases processStmt_cases (S := S) s m i stmt with
    ⟨hcall, heq⟩ | ⟨x, call, rfl, ⟨b, -, heq⟩ | ⟨hbase, ⟨code, -, heq⟩ | ⟨r, hres, hcases⟩⟩⟩
  · rw [heq]
    exact quiet_request hs (serves_stmtRequests hK hstmt hcall) hdoes
  · rw [heq]
    exact .refl hs
  · rw [heq]
    exact .refl hs
  · -- the callees found become a task, whatever comes of the error
    have hpush : Quiet S K F s (s.push [.callees ⟨m.ctx, ⟨m.method, i⟩⟩ call r.callees]) := by
      refine quiet_push hs fun task htask => ?_
      rw [List.mem_singleton.mp htask]
      refine ⟨trivial, ?_⟩
      rintro f ⟨k, hk, rfl⟩
      exact Or.inl (hdoes _ (.call hstmt hbase hres hk))
    rcases hcases with ⟨-, heq⟩ | ⟨e, -, heq⟩
    · rw [heq]
      exact hpush
    · rw [heq]
      exact hpush.trans (quiet_unresolved hpush.sane _)

theorem quiet_processCall (hK : Genuine S.program K) (hs : Sane S K s) {c : Context} {site : Site}
    {i : CSObjId} {o : HeapObj} (ho : s.core.Names i o) {stmt : Stmt Nat} {b : VarId}
    (hstmt : S.program.stmt? site = some stmt) (hb : stmt.base? = some b)
    (huses : ∀ f, (S.program.callAt? site).isSome → Uses S.program S.options c b o site f → f ∈ F) :
    Quiet S K F s (s.processCall S c site i).1 := by
  rcases processCall_cases (S := S) (c := c) ho with ⟨-, heq⟩ | ⟨x, call, hinvoke, hcall, hcases⟩
  · rw [heq]
    exact .refl hs
  · obtain rfl := Option.some.inj (hstmt.symm.trans hinvoke)
    have hsome : (S.program.callAt? site).isSome := by rw [hcall]; rfl
    rcases hcases with ⟨e, -, heq⟩ | ⟨-, heq⟩ | ⟨m, hm, heq⟩
    · rw [heq]
      exact quiet_unresolved hs e
    · rw [heq]
      exact .refl hs
    · have hobj : o.obj ∈ K := hs.core.objs _ ho.obj_mem
      have hreq := quiet_request hs (serves_receiverRequests hK
        (calleeIn S.program S.options.selector c site o m) hobj) (F := F) (by
          rintro f ⟨r, hr, rfl⟩
          exact huses _ hsome (.receiver hstmt hb hm hr))
      rw [heq]
      exact hreq.trans (quiet_addCallEdge hreq.sane _ (huses _ hsome (.call hstmt hb hm)))

theorem quiet_body (hK : Genuine S.program K) (hs : Sane S K s) (m : CSMethod) (i : Nat) :
    Quiet S K ((Task.body m i).owes S.program S.options s.core) s (perform S s (.body m i)).1 := by
  simp only [perform]
  cases hstmt : (S.program.method m.method).stmt? i with
  | none => exact .refl hs
  | some stmt =>
    have hpush := quiet_leaves hs (.body m i) trivial subset_rfl
    exact hpush.trans (quiet_processStmt hK hpush.sane hstmt fun f hf => ⟨i, le_rfl, hf⟩)

theorem quiet_callees (hs : Sane S K s) (site : CSSite) (call : Call) (m : MethodId)
    (rest : List MethodId) :
    Quiet S K ((Task.callees site call (m :: rest)).owes S.program S.options s.core) s
      (perform S s (.callees site call (m :: rest))).1 := by
  have hpush := quiet_leaves hs (.callees site call m rest) trivial subset_rfl
  exact hpush.trans (quiet_addCallEdge hpush.sane _ ⟨m, List.mem_cons_self, rfl⟩)

theorem quiet_objects (hs : Sane S K s) {c : Context} {v : VarId} {i : CSObjId} {rest : List CSObjId}
    (hvalid : (Task.objects c v (i :: rest)).Valid S.program s.core) :
    Quiet S K ((Task.objects c v (i :: rest)).owes S.program S.options s.core) s
      (perform S s (.objects c v (i :: rest))).1 := by
  obtain ⟨o, ho⟩ := hvalid i List.mem_cons_self
  simp only [perform, fine]
  rw [ho.heapObj_eq]
  have hreq := quiet_request hs (serves_accessRequests S.options c v o) (K := K)
    (F := (Task.objects c v (i :: rest)).owes S.program S.options s.core) (by
      rintro f ⟨site, _, hu⟩
      exact ⟨i, List.mem_cons_self, o, ho, site, hu⟩)
  exact hreq.trans (quiet_leaves hreq.sane (.objects c v i rest) (hvalid.mono hreq.tables hreq.facts)
    (hvalid.owes_eq S.options hreq.tables).subset)

theorem quiet_calls (hK : Genuine S.program K) (hs : Sane S K s) {c : Context} {i : CSObjId}
    {site : Site} {rest : List Site}
    (hvalid : (Task.calls c i (site :: rest)).Valid S.program s.core) :
    Quiet S K ((Task.calls c i (site :: rest)).owes S.program S.options s.core) s
      (perform S s (.calls c i (site :: rest))).1 := by
  have hpush := quiet_leaves hs (.calls c i site rest) hvalid subset_rfl
  obtain ⟨⟨o, ho⟩, hsites⟩ := hvalid
  obtain ⟨stmt, b, hstmt, hb⟩ := hsites site List.mem_cons_self
  exact hpush.trans (quiet_processCall hK hpush.sane (hpush.tables.names ho) hstmt hb
    fun f hcall hf => ⟨o, ho, site, List.mem_cons_self, hcall, b, hf⟩)

/-- A task that connects no call edge does what it owes, and nothing else that counts. -/
theorem quiet_perform (hK : Genuine S.program K) (hsilent : S.plugin.Silent) (hs : Sane S K s)
    {task : Task} (hvalid : task.Valid S.program s.core) (hno : ∀ e, task ≠ .connect e) :
    Quiet S K (task.owes S.program S.options s.core) s (perform S s task).1 := by
  cases task with
  | reach m => exact quiet_reach hs hsilent rfl
  | connect e => exact absurd rfl (hno e)
  | body m i => exact quiet_body hK hs m i
  | callees site call rest =>
    cases rest with
    | nil => exact .refl hs
    | cons m rest => exact quiet_callees hs site call m rest
  | objects c v rest =>
    cases rest with
    | nil => exact .refl hs
    | cons i rest => exact quiet_objects hs hvalid
  | calls c i rest =>
    cases rest with
    | nil => exact .refl hs
    | cons site rest => exact quiet_calls hK hs hvalid

/-! ## Steps and entries of the worklist -/

/-- A step carries out the first task, or takes an entry of the worklist. -/
theorem next_cases (h : Next S s s') :
    (∃ task rest, s.agenda = task :: rest ∧ perform S { s with agenda := rest } task = (s', none)) ∨
    ∃ q set w, s.agenda = [] ∧ s.core.waiting.toList = (q, set) :: w.toList ∧
      s' = takeEntry S q set
        { s with core := { s.core with waiting := w }, iterations := s.iterations + 1 } := by
  rcases step_eq S s with ⟨task, rest, hagenda, heq⟩ | ⟨_, _, heq⟩ | ⟨q, set, w, hagenda, hlist, heq⟩
  · obtain ⟨hfst, hsnd⟩ := Prod.mk.inj (heq.symm.trans h)
    exact Or.inl ⟨task, rest, hagenda, Prod.ext hfst (Option.map_eq_none_iff.mp hsnd)⟩
  · cases heq.symm.trans h
  · split at heq
    · cases heq.symm.trans h
    · cases heq.symm.trans h
      exact Or.inr ⟨q, set, w, hagenda, hlist, rfl⟩

/-- The machine stops on a task that fails, when nothing is left, or at the limit. -/
theorem stop_cases {halt : Halt} (h : s.step S = (s', some halt)) :
    (∃ task rest e, s.agenda = task :: rest ∧
      (perform S { s with agenda := rest } task).2 = some e) ∨
    (s' = s ∧ halt = .done) ∨ 0 < S.options.limit := by
  rcases step_eq S s with ⟨task, rest, hagenda, heq⟩ | ⟨_, _, heq⟩ | ⟨q, set, w, _, _, heq⟩
  · obtain ⟨-, hsnd⟩ := Prod.mk.inj (heq.symm.trans h)
    obtain ⟨e, he, -⟩ := Option.map_eq_some_iff.mp hsnd
    exact Or.inl ⟨task, rest, e, hagenda, he⟩
  · cases heq.symm.trans h
    exact Or.inr (Or.inl ⟨rfl, rfl⟩)
  · split at heq
    · rename_i hover
      exact Or.inr (Or.inr hover.1)
    · cases heq.symm.trans h

/-- Taking an entry adds objects that were promised, and makes those that are new to a variable a
task. -/
theorem effect_takeEntry (hs : Sane S K s) {q : Pointer} {set : IdSet} {core : Core} {n : Nat}
    (htaken : Core.Taken q set s.core core) :
    Effect S K s.core.met s { core, plugin := s.plugin, agenda := s.agenda, iterations := n } ∧
    ∀ c v, q = .var c v → Effect S K s.core.met s
      { core, plugin := s.plugin, iterations := n,
        agenda := [.objects c v (set.diff (s.core.pointsTo q)).toList] ++ s.agenda } := by
  have hgains := htaken.gains S.program S.options
  have hedges : ∀ site m, .edge site m ∈ core.facts → .edge site m ∈ s.core.facts :=
    fun site m he => htaken.old_fact he (by simp)
  refine ⟨.of_gains_only hs (htaken.ok hs.core) hgains htaken.promised hedges, ?_⟩
  rintro c v rfl
  refine .of_gains hs (htaken.ok hs.core) hgains htaken.promised (fun task htask => ?_)
    fun site m he => Or.inl (hedges site m he)
  rw [List.mem_singleton.mp htask]
  refine ⟨objects_valid hs.core htaken, ?_⟩
  rintro f ⟨i, hi, o, ho, site, hu⟩
  -- the variable has the object now
  have hi : i ∈ core.pointsTo (.var c v) :=
    (htaken.sets _ i).mpr (Or.inr ⟨rfl, (IdSet.mem_toList _ _).mp hi⟩)
  exact Or.inr (.through ⟨i, hi, ho⟩ hu (by simp))

end Machine

end WholeProgram.PointsTo
