import WholeProgram.Proofs.PointsTo.Effects

/-!
# What objects ask for

An object of a pointer flows on, and the statements through a variable use the objects of the variable:
that is what objects ask for (`Spreads`). The solver answers with differences only. An entry of the
worklist carries what is new to its pointer, a new flow copies what its source has, and the statements
through a variable are looked at once for each object.

* `Machine.due` — what the machine holds, promises, or owes for objects that are new to a variable;
* `Machine.Carries` — from one machine to another nothing is lost, and what objects ask for besides is
  due;
* `carries_step` — a step carries over, whatever the plugin asks for meanwhile.

Nothing is assumed of the objects that a plugin makes. In particular two of them may have one key.
-/

namespace WholeProgram.PointsTo

variable {p : Program} {opts : Options} {X Y : Set Fact}

/-- What the objects of pointers ask for: to flow on, and to be used by the statements through a
variable. -/
inductive Spreads (p : Program) (opts : Options) (X : Set Fact) : Fact → Prop
  | flow {a b : Pointer} {o : HeapObj} : .flow a b ∈ X → .holds a o ∈ X → Spreads p opts X (.holds b o)
  | use {c : Context} {v : VarId} {o : HeapObj} {site : Site} {f : Fact} :
      .holds (.var c v) o ∈ X → Uses p opts c v o site f → f ≠ .fault → Spreads p opts X f

/-! ## Cores -/

namespace Core

variable {A D : Set Fact} {K : Set Obj} {s t : Core}

/-- In a program without statements flow is the only rule for what a pointer holds. -/
theorem yields_empty_iff {b : Pointer} {o : HeapObj} :
    Yields {} opts false X (.holds b o) ↔ ∃ a, .flow a b ∈ X ∧ .holds a o ∈ X := by
  constructor
  · intro h
    cases h with
    | stmt _ hd =>
      obtain ⟨stmt, hstmt⟩ := hd.stmt?
      cases hstmt
    | through _ hu _ =>
      obtain ⟨stmt, hstmt, -⟩ := hu.base?
      cases hstmt
    | link _ hl => cases hl
    | flow hab ho => exact ⟨_, hab, ho⟩
  · rintro ⟨a, hab, ho⟩
    exact .flow hab ho

/-- What flows in `t` flowed in `s`, or is held or promised. -/
theorem Gains.flow (h : Gains {} opts A D s t) (hD : ∀ q o, .holds q o ∉ D) {a b : Pointer}
    {o : HeapObj} (hab : .flow a b ∈ t.facts) (ho : .holds a o ∈ t.facts) :
    (∃ a', .flow a' b ∈ s.facts ∧ .holds a' o ∈ s.facts) ∨ .holds b o ∈ t.met := by
  rcases h.demands _ (yields_empty_iff.mpr ⟨a, hab, ho⟩) with hold | hmet | hdemand
  · exact Or.inl (yields_empty_iff.mp hold)
  · exact Or.inr hmet
  · exact absurd hdemand (hD b o)

/-- No two objects have one key. -/
theorem Tables.eq_of_key (h : Tables s) {a b : Obj} (ha : a ∈ s.objs) (hb : b ∈ s.objs)
    (hkey : a.key = b.key) : a = b := by
  obtain ⟨i, hi⟩ := Array.mem_iff_getElem?.mp ha
  obtain ⟨j, hj⟩ := Array.mem_iff_getElem?.mp hb
  have hi' := (h.objIndex b.key i).mpr ⟨a, hi, hkey⟩
  have hj' := (h.objIndex b.key j).mpr ⟨b, hj, rfl⟩
  obtain rfl := Option.some.inj (hi'.symm.trans hj')
  exact Option.some.inj (hi.symm.trans hj)

/-- A number that a pointer has keeps its meaning, and it is the only one of its object. -/
theorem Ok.mem_of_holds (hs : s.Ok K) {q : Pointer} {i : CSObjId} {o : HeapObj} (ho : s.Names i o)
    (hh : .holds q o ∈ s.facts) : i ∈ s.pointsTo q := by
  obtain ⟨j, hj, ho'⟩ := hh
  obtain rfl := hs.tables.names_unique ho ho'
  exact hj

/-- Where no points-to set has changed, pointers hold what they held. -/
theorem Ok.holds_old (hs : s.Ok K) (hle : TableLe s t) (hsets : ∀ q, t.pointsTo q = s.pointsTo q)
    {q : Pointer} {o : HeapObj} (hh : .holds q o ∈ t.facts) : .holds q o ∈ s.facts := by
  obtain ⟨i, hi, ho⟩ := hh
  rw [hsets q] at hi
  exact ⟨i, hi, hs.names_old hle hi ho⟩

end Core

/-! ## Machines -/

/-- The task is about objects that are new to a variable. -/
def Task.OfObjects : Task → Prop
  | .objects _ _ _ | .calls _ _ _ => True
  | _ => False

namespace Machine

variable {π : Type} {S : Setting π} {s s' s'' : Machine π}

/-- What the machine holds, promises, or owes for objects that are new to a variable. -/
def due (S : Setting π) (s : Machine π) : Set Fact :=
  s.core.met ∪ {f | f ≠ .fault ∧ ∃ task ∈ s.agenda, task.OfObjects ∧
    f ∈ task.owes S.program S.options s.core}

/-- From `s` to `s'` nothing is lost, and what objects ask for in `s'` and not in `s` is due. -/
structure Carries (S : Setting π) (s s' : Machine π) : Prop where
  sane : Sane S Set.univ s'
  tables : Core.TableLe s.core s'.core
  facts : s.core.facts ⊆ s'.core.facts
  due : s.due S ⊆ s'.due S
  spreads : ∀ f, Spreads S.program S.options s'.core.facts f →
    Spreads S.program S.options s.core.facts f ∨ f ∈ s'.due S

theorem Carries.refl (hs : Sane S Set.univ s) : Carries S s s :=
  ⟨hs, .refl _, subset_rfl, subset_rfl, fun _ hf => Or.inl hf⟩

theorem Carries.trans (h : Carries S s s') (h' : Carries S s' s'') : Carries S s s'' where
  sane := h'.sane
  tables := h.tables.trans h'.tables
  facts := h.facts.trans h'.facts
  due := h.due.trans h'.due
  spreads := fun f hf => (h'.spreads f hf).elim (fun hf => (h.spreads f hf).imp_right (@h'.due f)) Or.inr

/-- The core gains something, and what is new to a variable becomes a task. -/
theorem Carries.of_gains (hs : Sane S Set.univ s) {core : Core} {plugin : π} {tasks : List Task}
    {n : Nat} {A D : Set Fact} (hok : core.Ok Set.univ)
    (hgains : Core.Gains {} S.options A D s.core core) (hD : ∀ q o, .holds q o ∉ D)
    (htasks : ∀ task ∈ tasks, task.Valid S.program core)
    (hnew : ∀ c v o, .holds (.var c v) o ∈ core.facts → .holds (.var c v) o ∈ s.core.facts ∨
      ∃ task ∈ tasks, task.OfObjects ∧
        ∀ site f, Uses S.program S.options c v o site f → f ∈ task.owes S.program S.options core) :
    Carries S s { core, plugin, agenda := tasks ++ s.agenda, iterations := n } where
  sane := by
    refine ⟨hok, fun task htask => ?_⟩
    rcases List.mem_append.mp htask with htask | htask
    · exact htasks task htask
    · exact (hs.tasks task htask).mono hgains.tables hgains.facts
  tables := hgains.tables
  facts := hgains.facts
  due := by
    rintro f (hf | ⟨hne, task, htask, hkind, hf⟩)
    · exact Or.inl (hgains.met hf)
    · rw [← (hs.tasks task htask).owes_eq S.options hgains.tables] at hf
      exact Or.inr ⟨hne, task, List.mem_append_right _ htask, hkind, hf⟩
  spreads := by
    intro f hf
    cases hf with
    | flow hab ho =>
      rcases hgains.flow hD hab ho with ⟨a, hab, ho⟩ | hmet
      · exact Or.inl (.flow hab ho)
      · exact Or.inr (Or.inl hmet)
    | @use c v o site f ho hu hne =>
      rcases hnew c v o ho with ho | ⟨task, htask, hkind, howes⟩
      · exact Or.inl (.use ho hu hne)
      · exact Or.inr (Or.inr ⟨hne, task, List.mem_append_left _ htask, hkind, howes site f hu⟩)

/-- The core gains something without a change of a points-to set. -/
theorem Carries.of_still (hs : Sane S Set.univ s) {core : Core} {plugin : π} {tasks : List Task}
    {n : Nat} {A D : Set Fact} (hok : core.Ok Set.univ)
    (hgains : Core.Gains {} S.options A D s.core core) (hD : ∀ q o, .holds q o ∉ D)
    (hsets : ∀ q, core.pointsTo q = s.core.pointsTo q)
    (htasks : ∀ task ∈ tasks, task.Valid S.program core) :
    Carries S s { core, plugin, agenda := tasks ++ s.agenda, iterations := n } :=
  .of_gains hs hok hgains hD htasks fun _ _ _ ho =>
    Or.inl (hs.core.holds_old hgains.tables hsets ho)

/-- So it does, and nothing is left to do for it. -/
theorem Carries.of_still_only (hs : Sane S Set.univ s) {core : Core} {plugin : π} {n : Nat}
    {A D : Set Fact} (hok : core.Ok Set.univ) (hgains : Core.Gains {} S.options A D s.core core)
    (hD : ∀ q o, .holds q o ∉ D) (hsets : ∀ q, core.pointsTo q = s.core.pointsTo q) :
    Carries S s { core, plugin, agenda := s.agenda, iterations := n } := by
  have htasks : ∀ task ∈ ([] : List Task), task.Valid S.program core := by simp
  exact .of_still hs hok hgains hD hsets htasks

/-! ## Parts of a step -/

theorem carries_push (hs : Sane S Set.univ s) {tasks : List Task}
    (htasks : ∀ task ∈ tasks, task.Valid S.program s.core) : Carries S s (s.push tasks) :=
  .of_still hs hs.core (Core.Gains.refl s.core) (by simp) (fun _ => rfl) htasks

/-- A task is begun: the tasks that stay are put on the agenda. -/
theorem carries_leaves (hs : Sane S Set.univ s) {task : Task} {tasks : List Task}
    (hleaves : task.Leaves S.program tasks) (hvalid : task.Valid S.program s.core) :
    Carries S s (s.push tasks) :=
  carries_push hs fun _ htask => hleaves.valid hvalid htask

/-- Requests are carried out, whatever becomes of the plugin. -/
theorem carries_carryOutAll (hs : Sane S Set.univ s) (rs : List Request) (plugin : π) :
    Carries S s { s with core := s.core.carryOutAll rs, plugin } ∧
      ∀ r ∈ rs, r.Granted (s.core.carryOutAll rs) := by
  obtain ⟨hok, hgains, hgranted⟩ := Core.gains_carryOutAll {} S.options hs.core rs (by simp)
  exact ⟨.of_still_only hs hok hgains (by simp) (Core.carryOutAll_pointsTo _ rs), hgranted⟩

theorem carries_request (hs : Sane S Set.univ s) (rs : List Request) : Carries S s (s.request rs) :=
  (carries_carryOutAll hs rs s.plugin).1

theorem granted_request (hs : Sane S Set.univ s) (rs : List Request) :
    ∀ r ∈ rs, r.Granted (s.request rs).core :=
  (carries_carryOutAll hs rs s.plugin).2

theorem carries_notify (hs : Sane S Set.univ s) (e : Event) : Carries S s (s.notify S e) :=
  (carries_carryOutAll hs _ _).1

/-- What is no part of a fact may change at will. -/
theorem carries_of_same (hs : Sane S Set.univ s) {core : Core} (htables : Core.SameTables s.core core)
    (hstate : Core.SameState s.core core) : Carries S s { s with core } := by
  obtain ⟨hok, hgains⟩ := Core.gains_of_same {} S.options hs.core htables hstate
  exact .of_still_only hs hok hgains (by simp) fun q => by simp [Core.pointsTo, hstate.sets]

/-- A call edge is there after it was added. -/
theorem carries_addCallEdge (hs : Sane S Set.univ s) (kind : CallKind) (site : CSSite) (m : CSMethod) :
    Carries S s (s.addCallEdge kind site m) ∧ .edge site m ∈ (s.addCallEdge kind site m).core.facts := by
  rcases addCallEdge_cases hs.core.graph kind site m with ⟨hold, heq⟩ | ⟨hnew, heq⟩
  · rw [heq]
    exact ⟨.refl hs, hold⟩
  · obtain ⟨hok, hgains, hedge⟩ := Core.gains_addEdge {} S.options hs.core kind hnew
    rw [heq]
    refine ⟨.of_still hs hok hgains ?_ (fun _ => rfl) fun task htask => ?_, hedge⟩
    · rintro q o (hf | hf) <;> cases hf
    · rcases List.mem_pair.mp htask with rfl | rfl
      · exact trivial
      · exact hedge

theorem carries_reach (hs : Sane S Set.univ s) (m : CSMethod) : Carries S s (s.reach S m) := by
  rcases reach_cases (S := S) hs.core.graph m with ⟨-, heq⟩ | ⟨hnew, hcases⟩
  · rw [heq]
    exact .refl hs
  · obtain ⟨hok, hgains, -⟩ := Core.gains_addReachable {} S.options hs.core hnew
    have henter : Carries S s (s.enter m) := by
      refine .of_still hs hok hgains ?_ (fun _ => rfl) (by simp [Task.Valid])
      rintro q o ⟨i, hd⟩
      obtain ⟨stmt, hstmt⟩ := hd.stmt?
      cases hstmt
    rcases hcases with ⟨-, heq⟩ | ⟨-, heq⟩
    · rw [heq]
      exact henter.trans (carries_notify henter.sane _)
    · let t : Machine π := { s.enter m with
        core := { (s.enter m).core with methods := (s.enter m).core.methods.insert m.method } }
      have hlisted : Carries S s t := henter.trans
        (carries_of_same henter.sane ⟨rfl, rfl, rfl, rfl⟩ ⟨rfl, rfl, rfl, rfl, rfl⟩)
      have hannounce := hlisted.trans (carries_notify hlisted.sane (.newMethod m.method))
      rw [heq]
      exact hannounce.trans (carries_notify hannounce.sane _)

theorem carries_unresolved (hs : Sane S Set.univ s) (e : DispatchError) :
    Carries S s (s.unresolved S e).1 := by
  unfold unresolved
  split
  · exact carries_of_same hs ⟨rfl, rfl, rfl, rfl⟩ ⟨rfl, rfl, rfl, rfl, rfl⟩
  · exact .refl hs

theorem carries_processStmt (hs : Sane S Set.univ s) (m : CSMethod) (i : Nat) (stmt : Stmt Nat) :
    Carries S s (s.processStmt S m i stmt).1 := by
  unfold processStmt
  split
  · split
    · exact .refl hs
    · dsimp only
      split
      · exact .refl hs
      · have hpush : ∀ site call rest, Carries S s (s.push [.callees site call rest]) :=
          fun _ _ _ => carries_push hs (by simp [Task.Valid])
        split
        · exact (hpush _ _ _).trans (carries_unresolved (hpush _ _ _).sane _)
        · exact hpush _ _ _
  · exact carries_request hs _

/-! ## Objects that are new to a variable -/

/-- An object that is asked for as a receiver is one, or on its way. -/
theorem carries_receiver (hs : Sane S Set.univ s) (m : CSMethod) {i : CSObjId} {o : HeapObj}
    (ho : s.core.Names i o) :
    Carries S s (s.request (receiverRequests S.program m o)) ∧
      ∀ r, (S.program.method m.method).receiver = some r →
        .holds (.var m.ctx r) o ∈ (s.request (receiverRequests S.program m o)).core.met := by
  have hcarries := carries_request hs (receiverRequests S.program m o)
  refine ⟨hcarries, fun r hr => ?_⟩
  have hmem : .pointTo m.ctx r [(o.ctx, o.obj)] ∈ receiverRequests S.program m o := by
    simp only [receiverRequests, hr]
    exact List.mem_singleton.mpr rfl
  obtain ⟨b, hb, hkey, hmet⟩ :=
    granted_request hs _ _ hmem (o.ctx, o.obj) (List.mem_singleton.mpr rfl)
  -- the object was made before, so that its key stands for it
  obtain rfl := hcarries.sane.core.tables.eq_of_key hb (hcarries.tables.mem_objs ho.obj_mem) hkey
  exact hmet

/-- A call on an object that is not an error leaves due what it gives for the object. -/
theorem carries_processCall (hs : Sane S Set.univ s) {c : Context} {site : Site} {i : CSObjId}
    {o : HeapObj} (ho : s.core.Names i o) (hfine : (s.processCall S c site i).2 = none) :
    Carries S s (s.processCall S c site i).1 ∧
      ∀ v f, (S.program.callAt? site).isSome → Uses S.program S.options c v o site f → f ≠ .fault →
        f ∈ (s.processCall S c site i).1.due S := by
  rcases processCall_cases (S := S) (c := c) ho with ⟨hcall, heq⟩ | ⟨x, call, hstmt, -, hcases⟩
  · rw [heq, hcall]
    exact ⟨.refl hs, by simp⟩
  · rcases hcases with ⟨e, hm, heq⟩ | ⟨hm, heq⟩ | ⟨m, hm, heq⟩
    · rw [heq] at hfine ⊢
      refine ⟨carries_unresolved hs e, fun v f _ hu hne => ?_⟩
      rcases hu.invoke_cases hstmt with ⟨m, hm', -⟩ | ⟨e', -, hignore⟩
      · cases hm.symm.trans hm'
      · -- without leave to skip the call the step has failed
        simp [unresolved, hignore] at hfine
    · rw [heq]
      refine ⟨.refl hs, fun v f _ hu hne => ?_⟩
      rcases hu.invoke_cases hstmt with ⟨m, hm', -⟩ | ⟨e', hm', -⟩ <;> cases hm.symm.trans hm'
    · obtain ⟨hreq, hrecv⟩ :=
        carries_receiver hs (calleeIn S.program S.options.selector c site o m) ho
      obtain ⟨hadd, hedge⟩ := carries_addCallEdge hreq.sane call.kind ⟨c, site⟩
        (calleeIn S.program S.options.selector c site o m)
      rw [heq]
      refine ⟨hreq.trans hadd, fun v f _ hu hne => ?_⟩
      rcases hu.invoke_cases hstmt with ⟨m', hm', hf⟩ | ⟨e', hm', -⟩ <;> cases hm.symm.trans hm'
      rcases hf with rfl | ⟨r, hr, rfl⟩
      · exact Or.inl (Or.inl hedge)
      · exact hadd.due (Or.inl (hrecv r hr))

/-- What is owed for an object that is new to a variable becomes flows and calls to look at. -/
theorem carries_objects (hs : Sane S Set.univ s) {c : Context} {v : VarId} {i : CSObjId}
    {rest : List CSObjId} (hvalid : (Task.objects c v (i :: rest)).Valid S.program s.core) :
    Carries S s (perform S s (.objects c v (i :: rest))).1 ∧
      ∀ f ∈ (Task.objects c v (i :: rest)).owes S.program S.options s.core, f ≠ .fault →
        f ∈ (perform S s (.objects c v (i :: rest))).1.due S := by
  obtain ⟨o, ho⟩ := hvalid i List.mem_cons_self
  simp only [perform, fine]
  rw [ho.heapObj_eq]
  have hreq := carries_request hs (accessRequests S.program c v o)
  have hmet := (serves_accessRequests (K := Set.univ) S.options c v o).met _ hreq.sane.core
    (granted_request hs _)
  have hpush := carries_leaves hreq.sane (.objects c v i rest) (hvalid.mono hreq.tables hreq.facts)
  refine ⟨hreq.trans hpush, ?_⟩
  rintro f ⟨k, hk, o', ho', site, hu⟩ hne
  rcases List.mem_cons.mp hk with rfl | hk
  · obtain rfl := ho.unique ho'
    cases hcall : S.program.callAt? site with
    | none => exact hpush.due (Or.inl (hmet ⟨site, hcall, hu⟩))
    | some call =>
      have hsite : site ∈ S.program.sitesThrough v := Program.mem_sitesThrough.mpr hu.base?
      exact Or.inr ⟨hne, .calls c k _, by simp [push], trivial, o, hreq.tables.names ho, site, hsite,
        by simp [hcall], v, hu⟩
  · exact Or.inr ⟨hne, .objects c v rest, by simp [push], trivial, k, hk, o', hreq.tables.names ho',
      site, hu⟩

theorem carries_calls (hs : Sane S Set.univ s) {c : Context} {i : CSObjId} {site : Site}
    {rest : List Site} (hvalid : (Task.calls c i (site :: rest)).Valid S.program s.core)
    (hfine : (perform S s (.calls c i (site :: rest))).2 = none) :
    Carries S s (perform S s (.calls c i (site :: rest))).1 ∧
      ∀ f ∈ (Task.calls c i (site :: rest)).owes S.program S.options s.core, f ≠ .fault →
        f ∈ (perform S s (.calls c i (site :: rest))).1.due S := by
  have hpush := carries_leaves hs (.calls c i site rest) hvalid
  obtain ⟨o, ho⟩ := hvalid.1
  obtain ⟨hcarries, hdue⟩ := carries_processCall hpush.sane (hpush.tables.names ho) hfine
  refine ⟨hpush.trans hcarries, ?_⟩
  rintro f ⟨o', ho', site', hsite', hcall, v, hu⟩ hne
  obtain rfl := ho.unique ho'
  rcases List.mem_cons.mp hsite' with rfl | hsite'
  · exact hdue v f hcall hu hne
  · exact hcarries.due (Or.inr ⟨hne, .calls c i rest, by simp [push], trivial, o, ho, site', hsite',
      hcall, v, hu⟩)

/-! ## Steps -/

/-- A task that is not an error carries over, and leaves due what it owed for objects. -/
theorem carries_perform (hs : Sane S Set.univ s) {task : Task} (hvalid : task.Valid S.program s.core)
    (hfine : (perform S s task).2 = none) :
    Carries S s (perform S s task).1 ∧
      (task.OfObjects → ∀ f ∈ task.owes S.program S.options s.core, f ≠ .fault →
        f ∈ (perform S s task).1.due S) := by
  cases task with
  | reach m => exact ⟨carries_reach hs m, False.elim⟩
  | body m i =>
    refine ⟨?_, False.elim⟩
    simp only [perform]
    cases (S.program.method m.method).stmt? i with
    | none => exact .refl hs
    | some stmt =>
      have hpush := carries_leaves hs (.body m i) trivial
      exact hpush.trans (carries_processStmt hpush.sane m i stmt)
  | callees site call rest =>
    refine ⟨?_, False.elim⟩
    cases rest with
    | nil => exact .refl hs
    | cons m rest =>
      have hpush := carries_leaves hs (.callees site call m rest) trivial
      exact hpush.trans (carries_addCallEdge hpush.sane _ _ _).1
  | connect e =>
    have hreq := carries_request hs (linkRequests S.program e)
    exact ⟨hreq.trans (carries_notify hreq.sane _), False.elim⟩
  | objects c v rest =>
    cases rest with
    | nil => exact ⟨.refl hs, by simp [Task.owes]⟩
    | cons i rest => exact ⟨(carries_objects hs hvalid).1, fun _ => (carries_objects hs hvalid).2⟩
  | calls c i rest =>
    cases rest with
    | nil => exact ⟨.refl hs, by simp [Task.owes]⟩
    | cons site rest =>
      exact ⟨(carries_calls hs hvalid hfine).1, fun _ => (carries_calls hs hvalid hfine).2⟩

/-- Carrying out the first task. -/
theorem carries_task (hs : Sane S Set.univ s) {task : Task} {rest : List Task}
    (hagenda : s.agenda = task :: rest)
    (h : perform S { s with agenda := rest } task = (s', none)) : Carries S s s' := by
  have hmem : ∀ t ∈ rest, t ∈ s.agenda := fun t ht => hagenda ▸ List.mem_cons_of_mem _ ht
  have hs₀ : Sane S Set.univ { s with agenda := rest } := ⟨hs.core, fun t ht => hs.tasks t (hmem t ht)⟩
  obtain ⟨hcarries, howes⟩ := carries_perform hs₀
    (hs.tasks task (hagenda ▸ List.mem_cons_self)) (congrArg Prod.snd h)
  rw [h] at hcarries howes
  refine ⟨hcarries.sane, hcarries.tables, hcarries.facts, ?_, hcarries.spreads⟩
  rintro f (hf | ⟨hne, t, ht, hkind, hf⟩)
  · exact hcarries.due (Or.inl hf)
  · rw [hagenda] at ht
    rcases List.mem_cons.mp ht with rfl | ht
    · exact howes hkind f hf hne
    · exact hcarries.due (Or.inr ⟨hne, t, ht, hkind, hf⟩)

/-- Taking an entry of the worklist: what is new to a variable becomes a task, and the plugin hears of
it. -/
theorem carries_takeEntry (hs : Sane S Set.univ s) {q : Pointer} {set : IdSet}
    {w : Queue (Pointer × IdSet)} (hpop : s.core.waiting.toList = (q, set) :: w.toList) (n : Nat) :
    Carries S s
      (takeEntry S q set { s with core := { s.core with waiting := w }, iterations := n }) := by
  obtain ⟨core, htaken, -, hcases⟩ := takeEntry_cases (S := S) hpop n
  have hgains := htaken.gains {} S.options
  have hok := htaken.ok hs.core
  have hD : ∀ a o, .holds a o ∉ Core.entryDemands {} S.options s.core q (set.diff (s.core.pointsTo q)) := by
    rintro a o ⟨c, v, -, i, -, o', -, site, hu⟩
    obtain ⟨stmt, hstmt, -⟩ := hu.base?
    cases hstmt
  -- what a variable holds it held before, or it was in the entry
  have hnew : ∀ c v o, .holds (.var c v) o ∈ core.facts → .holds (.var c v) o ∈ s.core.facts ∨
      q = .var c v ∧ ∃ i ∈ set.diff (s.core.pointsTo q), s.core.Names i o := by
    intro c v o ho
    refine ((htaken.mem_facts_iff _).mp ho).imp_right fun ⟨i, hi, o', ho', heq⟩ => ?_
    obtain ⟨hq, rfl⟩ := Fact.holds.inj heq
    exact ⟨hq.symm, i, hi, ho'⟩
  rcases hcases with ⟨heq, hquiet⟩ | ⟨c, v, rfl, -, heq⟩
  · rw [heq]
    have htasks : ∀ task ∈ ([] : List Task), task.Valid S.program core := by simp
    refine .of_gains hs hok hgains hD htasks fun c v o ho => ?_
    refine (hnew c v o ho).imp_right fun ⟨hq, i, hi, _⟩ => ?_
    exact absurd hi (hquiet c v i hq)
  · rw [heq]
    have hentered : Carries S s
        { core, plugin := s.plugin, iterations := n,
          agenda := [.objects c v (set.diff (s.core.pointsTo (.var c v))).toList] ++ s.agenda } := by
      refine .of_gains hs hok hgains hD (fun task htask => ?_) fun c' v' o ho => ?_
      · rw [List.mem_singleton.mp htask]
        exact objects_valid hs.core htaken
      · refine (hnew c' v' o ho).imp_right fun ⟨hq, i, hi, hi'⟩ => ?_
        cases hq
        exact ⟨_, List.mem_singleton.mpr rfl, trivial, fun site f hu =>
          ⟨i, (IdSet.mem_toList _ _).mpr hi, o, htaken.tables.tableLe.names hi', site, hu⟩⟩
    exact hentered.trans (carries_notify hentered.sane _)

/-- A step carries over, whatever the plugin asks for meanwhile. -/
theorem carries_step (hs : Sane S Set.univ s) (h : Next S s s') : Carries S s s' := by
  rcases next_cases h with ⟨task, rest, hagenda, hperform⟩ | ⟨q, set, w, -, hpop, rfl⟩
  · exact carries_task hs hagenda hperform
  · exact carries_takeEntry hs hpop _

end Machine

end WholeProgram.PointsTo
