import Mathlib.Algebra.GroupWithZero.Nat
import Mathlib.Data.Set.BooleanAlgebra
import Mathlib.Order.CompletePartialOrder
import WholeProgram.Proofs.PointsTo.Demands
import WholeProgram.Proofs.PointsTo.Parts

/-!
# What the solver owes

Between two entries of the worklist the solver has tasks to do. Each task stands for facts that it
still owes (`Task.owes`); what the machine holds, promises and owes together is what it claims
(`Machine.claimed`).

A run stays within a set of facts `X` that is closed under the rules and that the plugin respects
(`Bounds`):

* `Inv` — the invariant of the machine: all that it claims is in `X`;
* `Advance` — what a step leaves: the invariant holds, no claim is lost, and what the rules ask for
  on top of what they asked for before is claimed;
* `Task.Leaves`, `advance_leaves` — a task that is begun leaves the rest of itself on the agenda;
* `perform_spec` — every task advances the machine and leaves what it owed claimed; a task fails
  only if `X` has a fault.
-/

namespace WholeProgram.PointsTo

variable {p : Program} {opts : Options} {K : Set Obj} {X : Set Fact}

/-! ## Plugins -/

/-- What the event says is so. -/
def Event.Sound (core : Core) : Event → Prop
  | .start | .finish => True
  | .newMethod m => ∃ ctx, .reach ⟨ctx, m⟩ ∈ core.facts
  | .newCSMethod m => .reach m ∈ core.facts
  | .newPointsTo ctx v delta => ∀ i ∈ delta, i ∈ core.pointsTo (.var ctx v)
  | .newCallEdge e => .edge e.site e.callee ∈ core.facts

/-- The request names objects of `K` and asks for facts of `X` only. -/
def Request.Within (K : Set Obj) (X : Set Fact) (r : Request) : Prop :=
  (∀ x ∈ r.objs, x.2 ∈ K) ∧ r.asks K ⊆ X

/-- A plugin that asks for objects of `K` and facts of `X` only, as long as it is told the truth
about a core within `X`; `J` holds of its states. -/
structure Plugin.Respects {π : Type} (plugin : Plugin π) (K : Set Obj) (X : Set Fact)
    (J : π → Prop) : Prop where
  initial : J plugin.initial
  handle : ∀ {e : Event} {core : Core} {st : π}, core.Ok K → core.facts ⊆ X → e.Sound core → J st →
    J (plugin.handle e core st).1 ∧
    ∀ r ∈ (plugin.handle e core st).2, r.Within K X

/-- The plugin that asks for nothing respects everything. -/
theorem Plugin.respects_none : Plugin.none.Respects K X fun _ => True :=
  ⟨trivial, fun _ _ _ _ => ⟨trivial, fun _ hr => by cases hr⟩⟩

/-! ## Tasks -/

namespace Task

/-- The facts that a task still owes. -/
def owes (p : Program) (opts : Options) (core : Core) : Task → Set Fact
  | .reach m => {.reach m}
  | .body m i => {f | ∃ j, i ≤ j ∧ Does p opts m j f}
  | .callees site _ rest =>
    {f | ∃ m ∈ rest, f = .edge site ⟨opts.selector.staticContext site.ctx site.site, m⟩}
  | .connect e => {f | Links p e.site e.callee f}
  | .objects c v rest => {f | ∃ i ∈ rest, ∃ o, core.Names i o ∧ ∃ site, Uses p opts c v o site f}
  | .calls c recv rest =>
    {f | ∃ o, core.Names recv o ∧ ∃ site ∈ rest, (p.callAt? site).isSome ∧
      ∃ b, Uses p opts c b o site f}

/-- The numbers of a task name objects, its sites have a base, and its edge is there. -/
def Valid (p : Program) (core : Core) : Task → Prop
  | .reach _ | .body _ _ | .callees _ _ _ => True
  | .connect e => .edge e.site e.callee ∈ core.facts
  | .objects _ _ rest => ∀ i ∈ rest, ∃ o, core.Names i o
  | .calls _ recv rest => (∃ o, core.Names recv o) ∧
    ∀ site ∈ rest, ∃ stmt b, p.stmt? site = some stmt ∧ stmt.base? = some b

variable {s t : Core}

theorem Valid.mono {task : Task} (h : task.Valid p s) (hle : Core.TableLe s t)
    (hfacts : s.facts ⊆ t.facts) :
    task.Valid p t := by
  cases task with
  | reach | body | callees => exact trivial
  | connect e => exact hfacts h
  | objects c v rest =>
    intro i hi
    obtain ⟨o, ho⟩ := h i hi
    exact ⟨o, hle.names ho⟩
  | calls c recv rest =>
    obtain ⟨⟨o, ho⟩, hsites⟩ := h
    exact ⟨⟨o, hle.names ho⟩, hsites⟩

/-- What a valid task owes does not change while the tables grow. -/
theorem Valid.owes_eq (opts : Options) {task : Task} (h : task.Valid p s) (hle : Core.TableLe s t) :
    task.owes p opts t = task.owes p opts s := by
  have hnames : ∀ {i : CSObjId} {o : HeapObj}, (∃ o', s.Names i o') →
    (t.Names i o ↔ s.Names i o) := by
    rintro i o ⟨o', ho'⟩
    constructor
    · intro ho
      rwa [(hle.names ho').unique ho] at ho'
    · exact hle.names
  cases task with
  | reach | body | callees | connect => rfl
  | objects c v rest =>
    ext f
    constructor
    · rintro ⟨i, hi, o, ho, hu⟩
      exact ⟨i, hi, o, (hnames (h i hi)).mp ho, hu⟩
    · rintro ⟨i, hi, o, ho, hu⟩
      exact ⟨i, hi, o, hle.names ho, hu⟩
  | calls c recv rest =>
    ext f
    constructor
    · rintro ⟨o, ho, hu⟩
      exact ⟨o, (hnames h.1).mp ho, hu⟩
    · rintro ⟨o, ho, hu⟩
      exact ⟨o, hle.names ho, hu⟩

/-- The tasks that stay when a task is begun: the rest of it, and the calls on an object that is new to
a variable. -/
inductive Leaves (p : Program) : Task → List Task → Prop
  | body (m : CSMethod) (i : Nat) : Leaves p (.body m i) [.body m (i + 1)]
  | callees (site : CSSite) (call : Call) (m : MethodId) (rest : List MethodId) :
      Leaves p (.callees site call (m :: rest)) [.callees site call rest]
  | objects (c : Context) (v : VarId) (i : CSObjId) (rest : List CSObjId) :
      Leaves p (.objects c v (i :: rest)) [.calls c i (p.sitesThrough v), .objects c v rest]
  | calls (c : Context) (i : CSObjId) (site : Site) (rest : List Site) :
      Leaves p (.calls c i (site :: rest)) [.calls c i rest]

variable {task task' : Task} {tasks : List Task}

theorem Leaves.valid (h : Leaves p task tasks) (hvalid : task.Valid p s) (htask' : task' ∈ tasks) :
    task'.Valid p s := by
  cases h with
  | body | callees =>
    rw [List.mem_singleton.mp htask']
    exact trivial
  | objects c v i rest =>
    rcases List.mem_pair.mp htask' with rfl | rfl
    · refine ⟨hvalid i List.mem_cons_self, fun site hsite => ?_⟩
      obtain ⟨stmt, hstmt, hb⟩ := Program.mem_sitesThrough.mp hsite
      exact ⟨stmt, v, hstmt, hb⟩
    · exact fun k hk => hvalid k (List.mem_cons_of_mem _ hk)
  | calls c i site rest =>
    rw [List.mem_singleton.mp htask']
    exact ⟨hvalid.1, fun site' h => hvalid.2 site' (List.mem_cons_of_mem _ h)⟩

/-- What stays owes nothing that the task did not owe. -/
theorem Leaves.owes (h : Leaves p task tasks) (htask' : task' ∈ tasks) :
    task'.owes p opts s ⊆ task.owes p opts s := by
  cases h with
  | body m i =>
    rw [List.mem_singleton.mp htask']
    rintro f ⟨j, hj, hf⟩
    exact ⟨j, Nat.le_of_succ_le hj, hf⟩
  | callees site call m rest =>
    rw [List.mem_singleton.mp htask']
    rintro f ⟨k, hk, hf⟩
    exact ⟨k, List.mem_cons_of_mem _ hk, hf⟩
  | objects c v i rest =>
    rcases List.mem_pair.mp htask' with rfl | rfl
    · rintro f ⟨o, ho, site, hsite, -, b, hu⟩
      -- the statements at the sites go through the variable of the task
      obtain ⟨stmt, hstmt, hb⟩ := Program.mem_sitesThrough.mp hsite
      obtain ⟨stmt', hstmt', hb'⟩ := hu.base?
      cases hstmt.symm.trans hstmt'
      cases hb.symm.trans hb'
      exact ⟨i, List.mem_cons_self, o, ho, site, hu⟩
    · rintro f ⟨k, hk, hf⟩
      exact ⟨k, List.mem_cons_of_mem _ hk, hf⟩
  | calls c i site rest =>
    rw [List.mem_singleton.mp htask']
    rintro f ⟨o, ho, site', hsite', hf⟩
    exact ⟨o, ho, site', List.mem_cons_of_mem _ hsite', hf⟩

end Task

/-! ## The invariant of the machine -/

namespace Machine

variable {π : Type} {S : Setting π} {J : π → Prop} {s s' s'' : Machine π}

/-- `X` is closed under the rules, and the plugin does not leave it. -/
structure Bounds (S : Setting π) (K : Set Obj) (X : Set Fact) (J : π → Prop) : Prop where
  genuine : Genuine S.program K
  closed : Closed S.program S.options false X
  plugin : S.plugin.Respects K X J

/-- The facts that the tasks of the machine owe. -/
def owed (S : Setting π) (s : Machine π) : Set Fact :=
  {f | ∃ task ∈ s.agenda, f ∈ task.owes S.program S.options s.core}

/-- The facts that the machine holds, promises or owes. -/
def claimed (S : Setting π) (s : Machine π) : Set Fact := s.core.met ∪ s.owed S

/-- The machine is in order, and claims facts of `X` only. -/
structure Inv (S : Setting π) (K : Set Obj) (X : Set Fact) (J : π → Prop) (s : Machine π) :
    Prop where
  core : s.core.Ok K
  tasks : ∀ task ∈ s.agenda, task.Valid S.program s.core
  claimed : s.claimed S ⊆ X
  plugin : J s.plugin

theorem Inv.facts (h : Inv S K X J s) : s.core.facts ⊆ X :=
  fun _ hf => h.claimed (Or.inl (Or.inl hf))

/-- From `s` to `s'` no claim is lost, and what the rules ask for in `s'` and not in `s` is
claimed. -/
structure Advance (S : Setting π) (K : Set Obj) (X : Set Fact) (J : π → Prop) (s s' : Machine π) :
    Prop where
  inv : Inv S K X J s'
  tables : Core.TableLe s.core s'.core
  facts : s.core.facts ⊆ s'.core.facts
  claimed : s.claimed S ⊆ s'.claimed S
  demands : ∀ f, Yields S.program S.options false s'.core.facts f →
    Yields S.program S.options false s.core.facts f ∨ f ∈ s'.claimed S

theorem Advance.refl (h : Inv S K X J s) : Advance S K X J s s :=
  ⟨h, .refl _, subset_rfl, subset_rfl, fun _ hf => Or.inl hf⟩

theorem Advance.trans (h : Advance S K X J s s') (h' : Advance S K X J s' s'') :
    Advance S K X J s s'' where
  inv := h'.inv
  tables := h.tables.trans h'.tables
  facts := h.facts.trans h'.facts
  claimed := h.claimed.trans h'.claimed
  demands := by
    intro f hf
    rcases h'.demands f hf with hf | hf
    · exact (h.demands f hf).imp_right (@h'.claimed f)
    · exact Or.inr hf

/-- The machine advances when its core gains facts of `X` and all that is asked for besides becomes
a task. -/
theorem Advance.of_gains (hX : Bounds S K X J) (hs : Inv S K X J s) {core : Core} {plugin : π}
    {tasks : List Task} {n : Nat} {A D : Set Fact} (hok : core.Ok K)
    (hgains : Core.Gains S.program S.options A D s.core core) (hA : A ⊆ X) (hplugin : J plugin)
    (htasks : ∀ task ∈ tasks, task.Valid S.program core ∧ task.owes S.program S.options core ⊆ X)
    (hD : ∀ f ∈ D, f ∈ core.met ∨ ∃ task ∈ tasks, f ∈ task.owes S.program S.options core) :
    Advance S K X J s { core, plugin, agenda := tasks ++ s.agenda, iterations := n } := by
  have hfacts : core.facts ⊆ X := by
    intro f hf
    rcases hgains.facts_new f hf with hf | hf
    · exact hs.facts hf
    · exact hA hf
  have howes : ∀ task ∈ s.agenda,
      task.owes S.program S.options core = task.owes S.program S.options s.core :=
    fun task htask => (hs.tasks task htask).owes_eq S.options hgains.tables
  refine ⟨⟨hok, ?_, ?_, hplugin⟩, hgains.tables, hgains.facts, ?_, ?_⟩
  -- the old tasks stay valid, since tables and facts only grow
  · intro task htask
    rcases List.mem_append.mp htask with htask | htask
    · exact (htasks task htask).1
    · exact (hs.tasks task htask).mono hgains.tables hgains.facts
  -- what is new comes from `A` or follows from facts of `X`, and `X` is closed
  · rintro f (hf | ⟨task, htask, hf⟩)
    · rcases hgains.met_new f hf with hf | hf | hf
      · exact hs.claimed (Or.inl hf)
      · exact hA hf
      · exact hX.closed (hf.mono hfacts)
    · rcases List.mem_append.mp htask with htask | htask
      · exact (htasks task htask).2 hf
      · rw [howes task htask] at hf
        exact hs.claimed (Or.inr ⟨task, htask, hf⟩)
  · rintro f (hf | ⟨task, htask, hf⟩)
    · exact Or.inl (hgains.met hf)
    · rw [← howes task htask] at hf
      exact Or.inr ⟨task, List.mem_append_right _ htask, hf⟩
  -- of what is asked for, all but `D` is met, and the tasks owe `D`
  · intro f hf
    rcases hgains.demands f hf with hf | hf | hf
    · exact Or.inl hf
    · exact Or.inr (Or.inl hf)
    · rcases hD f hf with hf | ⟨task, htask, hf⟩
      · exact Or.inr (Or.inl hf)
      · exact Or.inr (Or.inr ⟨task, List.mem_append_left _ htask, hf⟩)

/-- The machine advances when its core gains facts of `X` and nothing is asked for besides. -/
theorem Advance.of_gains_only (hX : Bounds S K X J) (hs : Inv S K X J s) {core : Core}
    {plugin : π} {n : Nat} {A : Set Fact} (hok : core.Ok K)
    (hgains : Core.Gains S.program S.options A ∅ s.core core) (hA : A ⊆ X) (hplugin : J plugin) :
    Advance S K X J s { core, plugin, agenda := s.agenda, iterations := n } := by
  have htasks : ∀ task ∈ ([] : List Task),
      task.Valid S.program core ∧ task.owes S.program S.options core ⊆ X := by simp
  exact Advance.of_gains hX hs hok hgains hA hplugin htasks (by simp)

/-! ## Parts of a step -/

theorem advance_push (hX : Bounds S K X J) (hs : Inv S K X J s) {tasks : List Task}
    (htasks : ∀ task ∈ tasks, task.Valid S.program s.core ∧ task.owes S.program S.options s.core ⊆ X) :
    Advance S K X J s (s.push tasks) :=
  .of_gains hX hs hs.core (Core.Gains.refl s.core) (Set.empty_subset _) hs.plugin htasks (by simp)

/-- A task is begun: the tasks that stay are put on the agenda. -/
theorem advance_leaves (hX : Bounds S K X J) (hs : Inv S K X J s) {task : Task} {tasks : List Task}
    (hleaves : task.Leaves S.program tasks) (hvalid : task.Valid S.program s.core)
    (howes : task.owes S.program S.options s.core ⊆ X) : Advance S K X J s (s.push tasks) :=
  advance_push hX hs fun _ htask => ⟨hleaves.valid hvalid htask, (hleaves.owes htask).trans howes⟩

/-- Requests that serve facts of `X` leave them held or promised. -/
theorem advance_request (hX : Bounds S K X J) (hs : Inv S K X J s) {rs : List Request}
    {F : Set Fact} (hF : Serves K rs F) (hFX : F ⊆ X) :
    Advance S K X J s (s.request rs) ∧ F ⊆ (s.request rs).core.met := by
  obtain ⟨hok, hgains, hgranted⟩ := Core.gains_carryOutAll S.program S.options hs.core rs hF.objs
  constructor
  · refine Advance.of_gains_only hX hs hok hgains ?_ hs.plugin
    rintro f ⟨r, hr, hf⟩
    exact hFX (hF.asks r hr hf)
  · exact hF.met _ hok hgranted

/-- Telling the plugin the truth keeps the machine within bounds. -/
theorem advance_notify (hX : Bounds S K X J) (hs : Inv S K X J s) {e : Event}
    (he : e.Sound s.core) :
    Advance S K X J s (s.notify S e) := by
  obtain ⟨hJ, hrs⟩ := hX.plugin.handle hs.core hs.facts he hs.plugin
  obtain ⟨hok, hgains, _⟩ := Core.gains_carryOutAll S.program S.options hs.core
    (S.plugin.handle e s.core s.plugin).2 fun r hr => (hrs r hr).1
  refine Advance.of_gains_only hX hs hok hgains ?_ hJ
  rintro f ⟨r, hr, hf⟩
  exact (hrs r hr).2 hf

/-- What is no part of a fact may change at will. -/
theorem advance_of_same (hX : Bounds S K X J) (hs : Inv S K X J s) {core : Core}
    (htables : Core.SameTables s.core core) (hstate : Core.SameState s.core core) :
    Advance S K X J s { s with core } := by
  obtain ⟨hok, hgains⟩ := Core.gains_of_same S.program S.options hs.core htables hstate
  exact Advance.of_gains_only hX hs hok hgains (Set.empty_subset _) hs.plugin

/-- Announcing a method that is reachable in some context keeps the machine within bounds. -/
theorem advance_announce (hX : Bounds S K X J) (hs : Inv S K X J s) {m : MethodId}
    (hm : ∃ ctx, .reach ⟨ctx, m⟩ ∈ s.core.facts) : Advance S K X J s (s.announce S m) := by
  have hlisted : Advance S K X J s { s with core := { s.core with methods := s.core.methods.insert m } } :=
    advance_of_same hX hs ⟨rfl, rfl, rfl, rfl⟩ ⟨rfl, rfl, rfl, rfl, rfl⟩
  exact hlisted.trans (advance_notify hX hlisted.inv (e := .newMethod m) hm)

/-- Adding a call edge of `X` leaves the edge held. Either it is new, or nothing happens. -/
theorem advance_addCallEdge (hX : Bounds S K X J) (hs : Inv S K X J s) (kind : CallKind)
    {site : CSSite} {m : CSMethod} (he : .edge site m ∈ X) :
    Advance S K X J s (s.addCallEdge kind site m) ∧
    .edge site m ∈ (s.addCallEdge kind site m).core.facts ∧
      (.edge site m ∉ s.core.facts ∨ s.addCallEdge kind site m = s) := by
  rcases addCallEdge_cases hs.core.graph kind site m with ⟨hold, heq⟩ | ⟨hnew, heq⟩
  · rw [heq]
    exact ⟨.refl hs, hold, Or.inr rfl⟩
  · obtain ⟨hok, hgains, hedge⟩ := Core.gains_addEdge S.program S.options hs.core kind hnew
    rw [heq]
    refine ⟨Advance.of_gains hX hs hok hgains ?_ hs.plugin ?_ ?_, hedge, Or.inl hnew⟩
    · rintro f rfl
      exact he
    · intro task htask
      rcases List.mem_cons.mp htask with rfl | htask
      · refine ⟨trivial, ?_⟩
        rintro f rfl
        exact hX.closed (.callee he)
      · rw [List.mem_singleton.mp htask]
        exact ⟨hedge, fun f hf => hX.closed (.link he hf)⟩
    · rintro f (rfl | hf)
      · exact Or.inr ⟨.reach m, by simp, rfl⟩
      · exact Or.inr ⟨.connect { kind, site, callee := m }, by simp, hf⟩

/-- Making a method of `X` reachable leaves it so, and its body a task. Either it is new, or nothing
happens. -/
theorem advance_reach (hX : Bounds S K X J) (hs : Inv S K X J s) {m : CSMethod}
    (hm : .reach m ∈ X) :
    Advance S K X J s (s.reach S m) ∧ .reach m ∈ (s.reach S m).core.facts ∧
      (.reach m ∉ s.core.facts ∨ s.reach S m = s) := by
  rcases reach_cases (S := S) hs.core.graph m with ⟨hold, heq⟩ | ⟨hnew, hcases⟩
  · rw [heq]
    exact ⟨.refl hs, hold, Or.inr rfl⟩
  · obtain ⟨hok, hgains, hreach⟩ := Core.gains_addReachable S.program S.options hs.core hnew
    have henter : Advance S K X J s (s.enter m) := by
      refine Advance.of_gains hX hs hok hgains ?_ hs.plugin ?_ ?_
      · rintro f rfl
        exact hm
      · intro task htask
        rw [List.mem_singleton.mp htask]
        refine ⟨trivial, ?_⟩
        rintro f ⟨j, _, hf⟩
        exact hX.closed (.stmt hm hf)
      · rintro f ⟨i, hf⟩
        exact Or.inr ⟨.body m 0, by simp, i, Nat.zero_le i, hf⟩
    rcases hcases with ⟨-, heq⟩ | ⟨-, heq⟩
    · have hadv := advance_notify hX henter.inv (e := .newCSMethod m) hreach
      rw [heq]
      exact ⟨henter.trans hadv, hadv.facts hreach, Or.inl hnew⟩
    · have hannounce := advance_announce hX henter.inv (m := m.method) ⟨m.ctx, hreach⟩
      have hadv := advance_notify hX hannounce.inv (e := .newCSMethod m) (hannounce.facts hreach)
      rw [heq]
      exact ⟨henter.trans (hannounce.trans hadv), hadv.facts (hannounce.facts hreach), Or.inl hnew⟩

/-! ## Tasks one by one -/

/-- The number of callees of a call without receiver. -/
def numCallees (p : Program) (site : Site) : Nat :=
  match p.stmt? site with
  | some (.invoke _ call) => match p.resolve site call with
    | .ok r => r.callees.length
    | .error _ => 0
  | _ => 0

/-- A bound on the number of steps that a task takes, with the tasks it leads to, while no fact is
new. -/
def weight (p : Program) : Task → Nat
  | .reach _ | .connect _ => 1
  | .body m i =>
    ((List.range' i ((p.method m.method).body.size - i)).map fun j =>
      numCallees p ⟨m.method, j⟩ + 2).sum + 1
  | .callees _ _ rest | .calls _ _ rest => rest.length + 1
  | .objects _ v rest => rest.length * ((p.sitesThrough v).length + 2) + 1

/-- The weight of the whole agenda. -/
def work (p : Program) (s : Machine π) : Nat := (s.agenda.map (weight p)).sum

theorem work_push (p : Program) (tasks : List Task) (s : Machine π) :
    (s.push tasks).work p = (tasks.map (weight p)).sum + s.work p := by
  simp [work, push]

theorem weight_body {m : CSMethod} {i : Nat} {stmt : Stmt Nat}
    (h : (p.method m.method).stmt? i = some stmt) :
    weight p (.body m i) = numCallees p ⟨m.method, i⟩ + 2 + weight p (.body m (i + 1)) := by
  have hlt := Method.stmt?_lt_size h
  have hrange : (p.method m.method).body.size - i =
      (p.method m.method).body.size - (i + 1) + 1 := by omega
  simp only [weight]
  rw [hrange, List.range'_succ, List.map_cons, List.sum_cons]
  omega

/-- What carrying out a task leaves: the machine advances, what the task owed is claimed, and either
a fact is new or the agenda is lighter. -/
structure Performed (S : Setting π) (K : Set Obj) (X : Set Fact) (J : π → Prop) (s : Machine π)
    (task : Task) (s' : Machine π) : Prop where
  advance : Advance S K X J s s'
  owed : task.owes S.program S.options s.core ⊆ s'.claimed S
  progress : s.core.facts ⊂ s'.core.facts ∨
    s'.work S.program < weight S.program task + s.work S.program

/-- The error is about a call: it has no callee, or its kind is not declared. -/
def IsCallError (e : AnalysisError) : Prop :=
  (∃ d, e = .dispatch d) ∨ ∃ code, e = .unknownCallKind code

/-- A step that is not fine keeps the invariant and shows a fault. -/
def Fails (S : Setting π) (K : Set Obj) (X : Set Fact) (J : π → Prop) (r : Stepped π) : Prop :=
  ∃ s' e, r = (s', some e) ∧ Inv S K X J s' ∧ .fault ∈ X ∧ IsCallError e

theorem performed_reach (hX : Bounds S K X J) (hs : Inv S K X J s) {m : CSMethod}
    (hm : .reach m ∈ X) :
    Performed S K X J s (.reach m) (s.reach S m) := by
  obtain ⟨hadv, hreach, hnew⟩ := advance_reach hX hs hm
  refine ⟨hadv, ?_, ?_⟩
  · rintro f rfl
    exact Or.inl (Or.inl hreach)
  · rcases hnew with hnew | hsame
    · exact Or.inl ⟨hadv.facts, fun h => hnew (h hreach)⟩
    · rw [hsame]
      exact Or.inr (by simp [weight])

/-- A call that cannot be resolved is skipped, or it shows a fault. -/
theorem unresolved_spec (hX : Bounds S K X J) (hs : Inv S K X J s) (e : DispatchError)
    (hfault : S.options.ignoreUnresolved = false → .fault ∈ X) :
    (S.options.ignoreUnresolved = true ∧
      ∃ s', s.unresolved S e = (s', none) ∧ Advance S K X J s s' ∧ s'.agenda = s.agenda) ∨
    Fails S K X J (s.unresolved S e) := by
  unfold unresolved
  split
  · rename_i hignore
    exact Or.inl ⟨hignore, _, rfl,
      advance_of_same hX hs ⟨rfl, rfl, rfl, rfl⟩ ⟨rfl, rfl, rfl, rfl, rfl⟩, rfl⟩
  · rename_i hignore
    exact Or.inr ⟨s, _, rfl, hs, hfault (by simpa using hignore), Or.inl ⟨e, rfl⟩⟩

/-- What looking at a statement comes to: requests, nothing yet for a call on a receiver, an error for a call
of no declared kind, or a task for the callees that the class hierarchy finds, whatever comes of its
error. -/
theorem processStmt_cases (s : Machine π) (m : CSMethod) (i : Nat) (stmt : Stmt Nat) :
    (stmt.call? = none ∧
      s.processStmt S m i stmt = (s.request (stmtRequests S.options.selector m i stmt), none)) ∨
    ∃ x call, stmt = .invoke x call ∧
      ((∃ b, call.base = some b ∧ s.processStmt S m i stmt = (s, none)) ∨
        (call.base = none ∧
          ((∃ code, S.program.resolve ⟨m.method, i⟩ call = .error code ∧
              s.processStmt S m i stmt = (s, some (.unknownCallKind code))) ∨
            ∃ r, S.program.resolve ⟨m.method, i⟩ call = .ok r ∧
              let t := s.push [.callees ⟨m.ctx, ⟨m.method, i⟩⟩ call r.callees]
              ((r.error = none ∧ s.processStmt S m i stmt = (t, none)) ∨
                ∃ e, r.error = some e ∧ s.processStmt S m i stmt = t.unresolved S e)))) := by
  cases hcall : stmt.call? with
  | none =>
    refine Or.inl ⟨rfl, ?_⟩
    cases stmt <;> first | rfl | cases hcall
  | some call =>
    obtain ⟨x, rfl⟩ := Stmt.eq_invoke_of_call? hcall
    refine Or.inr ⟨x, call, rfl, ?_⟩
    unfold processStmt
    dsimp only
    cases hbase : call.base with
    | some b => exact Or.inl ⟨b, rfl, rfl⟩
    | none =>
      refine Or.inr ⟨rfl, ?_⟩
      cases hres : S.program.resolve ⟨m.method, i⟩ call with
      | error code => exact Or.inl ⟨code, rfl, rfl⟩
      | ok r =>
        refine Or.inr ⟨r, rfl, ?_⟩
        cases herror : r.error with
        | none => exact Or.inl ⟨rfl, by simp only [herror]; rfl⟩
        | some e => exact Or.inr ⟨e, rfl, by simp only [herror]⟩

/-- The callees found for a call without receiver become a task that owes the call; only an error that may
not be skipped is left. -/
theorem advance_callees (hX : Bounds S K X J) (hs : Inv S K X J s) {m : CSMethod} {i : Nat}
    {x : Option VarId} {call : Call} {r : Program.Resolved}
    (hstmt : S.program.stmt? ⟨m.method, i⟩ = some (.invoke x call)) (hbase : call.base = none)
    (hres : S.program.resolve ⟨m.method, i⟩ call = .ok r)
    (hdoes : ∀ f, Does S.program S.options m i f → f ∈ X) :
    let t := s.push [.callees ⟨m.ctx, ⟨m.method, i⟩⟩ call r.callees]
    Advance S K X J s t ∧ t.work S.program = r.callees.length + 1 + s.work S.program ∧
      ∀ f, Does S.program S.options m i f →
        (∀ e, r.error = some e → S.options.ignoreUnresolved = true) → f ∈ t.claimed S := by
  refine ⟨advance_push hX hs fun task htask => ?_, ?_, fun f hf herror => ?_⟩
  · rw [List.mem_singleton.mp htask]
    refine ⟨trivial, ?_⟩
    rintro f ⟨k, hk, rfl⟩
    exact hdoes _ (.call hstmt hbase hres hk)
  · simp only [work_push, List.map_cons, List.map_nil, List.sum_cons, List.sum_nil, weight]
    omega
  · rcases (hf.invoke_cases hstmt).2 with
      ⟨r', k, hr', hk, rfl⟩ | ⟨r', e, hr', he, hignore⟩ | ⟨code, hcode⟩
    · cases hres.symm.trans hr'
      exact Or.inr ⟨.callees _ call r.callees,
        List.mem_append_left _ (List.mem_singleton.mpr rfl), k, hk, rfl⟩
    · cases hres.symm.trans hr'
      have := herror e he
      rw [hignore] at this
      cases this
    · cases hres.symm.trans hcode

/-- The rule of a statement leaves all that the statement does claimed. -/
theorem processStmt_spec (hX : Bounds S K X J) (hs : Inv S K X J s) {m : CSMethod} {i : Nat}
    {stmt : Stmt Nat} (hstmt : S.program.stmt? ⟨m.method, i⟩ = some stmt)
    (hdoes : ∀ f, Does S.program S.options m i f → f ∈ X) :
    (∃ s', s.processStmt S m i stmt = (s', none) ∧ Advance S K X J s s' ∧
      (∀ f, Does S.program S.options m i f → f ∈ s'.claimed S) ∧
      s'.work S.program ≤ numCallees S.program ⟨m.method, i⟩ + 1 + s.work S.program) ∨
    Fails S K X J (s.processStmt S m i stmt) := by
  rcases processStmt_cases (S := S) s m i stmt with
    ⟨hcall, heq⟩ | ⟨x, call, rfl, ⟨b, hbase, heq⟩ | ⟨hbase, ⟨code, hres, heq⟩ | ⟨r, hres, hcases⟩⟩⟩
  · obtain ⟨hadv, hmet⟩ := advance_request hX hs (serves_stmtRequests hX.genuine hstmt hcall) hdoes
    refine Or.inl ⟨_, heq, hadv, fun f hf => Or.inl (hmet hf), ?_⟩
    show s.work S.program ≤ _
    omega
  · -- a call on a receiver waits for the objects of the receiver
    refine Or.inl ⟨s, heq, .refl hs, fun f hf => ?_, by omega⟩
    have := (hf.invoke_cases hstmt).1
    rw [hbase] at this
    cases this
  · exact Or.inr ⟨s, _, heq, hs, hdoes _ (.undeclared hstmt hbase hres), Or.inr ⟨code, rfl⟩⟩
  · have hcount : numCallees S.program ⟨m.method, i⟩ = r.callees.length := by
      simp only [numCallees, hstmt, hres]
    obtain ⟨hadv, hwork, hclaimed⟩ := advance_callees hX hs hstmt hbase hres hdoes
    rcases hcases with ⟨herror, heq⟩ | ⟨e, herror, heq⟩
    · refine Or.inl ⟨_, heq, hadv, fun f hf => hclaimed f hf fun e he => ?_, by omega⟩
      rw [herror] at he
      cases he
    · rw [heq]
      rcases unresolved_spec hX hadv.inv e fun h =>
        hdoes _ (.unresolved hstmt hbase hres herror h) with
        ⟨hignore, s', hs', hadv', hagenda⟩ | hfails
      · have hsame : s'.work S.program = r.callees.length + 1 + s.work S.program := by
          rw [← hwork]
          simp only [work, hagenda]
        exact Or.inl ⟨s', hs', hadv.trans hadv',
          fun f hf => hadv'.claimed (hclaimed f hf fun _ _ => hignore), by omega⟩
      · exact Or.inr hfails

theorem performed_body (hX : Bounds S K X J) (hs : Inv S K X J s) {m : CSMethod} {i : Nat}
    (howes : (Task.body m i).owes S.program S.options s.core ⊆ X) :
    (∃ s', perform S s (.body m i) = (s', none) ∧ Performed S K X J s (.body m i) s') ∨
    Fails S K X J (perform S s (.body m i)) := by
  cases hstmt : (S.program.method m.method).stmt? i with
  | none =>
    refine Or.inl ⟨s, by simp only [perform, hstmt, fine], .refl hs, ?_, Or.inr ?_⟩
    · -- no statement stands at `i` or later
      rintro f ⟨j, hj, hf⟩
      obtain ⟨stmt, hstmt'⟩ := hf.stmt?
      have hlt : j < (S.program.method m.method).body.size := Method.stmt?_lt_size hstmt'
      have hsize : (S.program.method m.method).body.size ≤ i := by
        simpa [Method.stmt?, Array.getElem?_eq_none_iff] using hstmt
      omega
    · simp only [weight]
      omega
  | some stmt =>
    have hadv := advance_leaves hX hs (.body m i) trivial howes
    have heq : perform S s (.body m i) = (s.push [.body m (i + 1)]).processStmt S m i stmt := by
      simp only [perform, hstmt]
    rw [heq]
    rcases processStmt_spec hX hadv.inv hstmt fun f hf => howes ⟨i, le_rfl, hf⟩ with
      ⟨s', hs', hadv', hclaimed, hwork⟩ | hfails
    · refine Or.inl ⟨s', hs', hadv.trans hadv', ?_, Or.inr ?_⟩
      · rintro f ⟨j, hj, hf⟩
        rcases Nat.eq_or_lt_of_le hj with rfl | hlt
        · exact hclaimed f hf
        · refine hadv'.claimed (Or.inr ⟨.body m (i + 1), ?_, j, hlt, hf⟩)
          exact List.mem_append_left _ (List.mem_singleton.mpr rfl)
      · rw [work_push] at hwork
        rw [weight_body hstmt]
        simp only [List.map_cons, List.map_nil, List.sum_cons, List.sum_nil] at hwork
        omega
    · exact Or.inr hfails

theorem performed_callees (hX : Bounds S K X J) (hs : Inv S K X J s) {site : CSSite} {call : Call}
    {m : MethodId} {rest : List MethodId}
    (howes : (Task.callees site call (m :: rest)).owes S.program S.options s.core ⊆ X) :
    Performed S K X J s (.callees site call (m :: rest))
      ((s.push [.callees site call rest]).addCallEdge call.kind
      site ⟨S.options.selector.staticContext site.ctx site.site, m⟩) := by
  have hadv := advance_leaves hX hs (.callees site call m rest) trivial howes
  obtain ⟨hadv', hedge, hnew⟩ := advance_addCallEdge hX hadv.inv call.kind
    (howes ⟨m, List.mem_cons_self, rfl⟩)
  refine ⟨hadv.trans hadv', ?_, ?_⟩
  · rintro f ⟨k, hk, rfl⟩
    rcases List.mem_cons.mp hk with rfl | hk
    · exact Or.inl (Or.inl hedge)
    · refine hadv'.claimed (Or.inr ⟨.callees site call rest, ?_, k, hk, rfl⟩)
      exact List.mem_append_left _ (List.mem_singleton.mpr rfl)
  · rcases hnew with hnew | hsame
    · exact Or.inl ⟨hadv'.facts, fun h => hnew (h hedge)⟩
    · rw [hsame, work_push]
      refine Or.inr ?_
      simp only [List.map_cons, List.map_nil, List.sum_cons, List.sum_nil, weight, List.length_cons]
      omega

theorem performed_connect (hX : Bounds S K X J) (hs : Inv S K X J s) {e : CSEdge}
    (hedge : .edge e.site e.callee ∈ s.core.facts)
    (howes : (Task.connect e).owes S.program S.options s.core ⊆ X) :
    Performed S K X J s (.connect e) (s.connect S e) := by
  obtain ⟨hadv, hmet⟩ := advance_request hX hs (serves_linkRequests e) howes
  have hadv' := advance_notify hX hadv.inv (e := .newCallEdge e) (hadv.facts hedge)
  refine ⟨hadv.trans hadv', ?_, Or.inr ?_⟩
  · intro f hf
    exact hadv'.claimed (Or.inl (hmet hf))
  · show s.work S.program < 1 + s.work S.program
    omega

theorem performed_objects (hX : Bounds S K X J) (hs : Inv S K X J s) {c : Context} {v : VarId}
    {i : CSObjId} {rest : List CSObjId}
    (hvalid : (Task.objects c v (i :: rest)).Valid S.program s.core)
    (howes : (Task.objects c v (i :: rest)).owes S.program S.options s.core ⊆ X) :
    Performed S K X J s (.objects c v (i :: rest))
      ((s.request (accessRequests S.program c v (s.core.heapObj i))).push
        [.calls c i (S.program.sitesThrough v), .objects c v rest]) := by
  obtain ⟨o, ho⟩ := hvalid i List.mem_cons_self
  rw [ho.heapObj_eq]
  obtain ⟨hadv, hmet⟩ := advance_request hX hs (serves_accessRequests S.options c v o) (by
    rintro f ⟨site, _, hu⟩
    exact howes ⟨i, List.mem_cons_self, o, ho, site, hu⟩)
  have ho' := hadv.tables.names ho
  have howes' := hvalid.owes_eq S.options hadv.tables
  have hadv' := advance_leaves hX hadv.inv (.objects c v i rest)
    (hvalid.mono hadv.tables hadv.facts) (howes'.trans_subset howes)
  refine ⟨hadv.trans hadv', ?_, Or.inr ?_⟩
  · rw [← howes']
    rintro f ⟨k, hk, o', hk', site, hu⟩
    rcases List.mem_cons.mp hk with rfl | hk
    · obtain rfl := hk'.unique ho'
      -- accesses are met by the requests, calls are left to do
      cases hcall : S.program.callAt? site with
      | none => exact Or.inl (hmet ⟨site, hcall, hu⟩)
      | some call =>
        refine Or.inr ⟨.calls c k (S.program.sitesThrough v), by simp [push], o', ho', site, ?_, ?_⟩
        · obtain ⟨stmt, hs, hb⟩ := hu.base?
          exact Program.mem_sitesThrough.mpr ⟨stmt, hs, hb⟩
        · exact ⟨by simp [hcall], v, hu⟩
    · exact Or.inr ⟨.objects c v rest, by simp [push], k, hk, o', hk', site, hu⟩
  · rw [work_push]
    have hsame : (s.request (accessRequests S.program c v o)).work S.program = s.work S.program :=
      rfl
    rw [hsame]
    simp only [List.map_cons, List.map_nil, List.sum_cons, List.sum_nil, weight, List.length_cons,
      Nat.succ_mul]
    omega

/-- What looking at a call comes to, for one object: nothing, a call that cannot be resolved, or an edge to
the method that the call runs on the object, which is in the receiver before. -/
theorem processCall_cases {c : Context} {site : Site} {i : CSObjId} {o : HeapObj} (ho : s.core.Names i o) :
    (S.program.callAt? site = none ∧ s.processCall S c site i = (s, none)) ∨
    ∃ x call, S.program.stmt? site = some (.invoke x call) ∧ S.program.callAt? site = some call ∧
      ((∃ e, calleeOn S.program o.obj site call = .error e ∧
          s.processCall S c site i = s.unresolved S e) ∨
        (calleeOn S.program o.obj site call = .ok none ∧ s.processCall S c site i = (s, none)) ∨
        ∃ m, calleeOn S.program o.obj site call = .ok (some m) ∧
          s.processCall S c site i = ((s.request (receiverRequests S.program
            (calleeIn S.program S.options.selector c site o m) o)).addCallEdge call.kind ⟨c, site⟩
              (calleeIn S.program S.options.selector c site o m), none)) := by
  unfold processCall
  cases hcall : S.program.callAt? site with
  | none => exact Or.inl ⟨rfl, rfl⟩
  | some call =>
    obtain ⟨x, hstmt⟩ := Program.stmt?_of_callAt? hcall
    refine Or.inr ⟨x, call, hstmt, rfl, ?_⟩
    dsimp only
    rw [ho.heapObj_eq]
    rcases calleeOn S.program o.obj site call with e | _ | m
    · exact Or.inl ⟨e, rfl, rfl⟩
    · exact Or.inr (Or.inl ⟨rfl, rfl⟩)
    · exact Or.inr (Or.inr ⟨m, rfl, rfl⟩)

/-- One call on an object leaves all that the call gives for it claimed. -/
theorem processCall_spec (hX : Bounds S K X J) (hs : Inv S K X J s) {c : Context} {site : Site}
    {i : CSObjId} {o : HeapObj} (ho : s.core.Names i o) {stmt : Stmt Nat} {b : VarId}
    (hstmt : S.program.stmt? site = some stmt) (hb : stmt.base? = some b)
    (huses : ∀ f, (S.program.callAt? site).isSome → Uses S.program S.options c b o site f → f ∈ X) :
    (∃ s', s.processCall S c site i = (s', none) ∧ Advance S K X J s s' ∧
      (∀ f, (S.program.callAt? site).isSome → Uses S.program S.options c b o site f →
        f ∈ s'.claimed S) ∧
      (s.core.facts ⊂ s'.core.facts ∨ s'.work S.program = s.work S.program)) ∨
    Fails S K X J (s.processCall S c site i) := by
  rcases processCall_cases (S := S) (c := c) ho with ⟨hcall, heq⟩ | ⟨x, call, hinvoke, hcall, hcases⟩
  · refine Or.inl ⟨s, heq, .refl hs, fun f hsome => ?_, Or.inr rfl⟩
    rw [hcall] at hsome
    cases hsome
  · obtain rfl := Option.some.inj (hstmt.symm.trans hinvoke)
    have hsome : (S.program.callAt? site).isSome := by rw [hcall]; rfl
    have hbase : call.base = some b := hb
    rcases hcases with ⟨e, hm, heq⟩ | ⟨hm, heq⟩ | ⟨m, hm, heq⟩
    · rw [heq]
      rcases unresolved_spec hX hs e fun h => huses _ hsome (.unresolved hstmt hbase hm h) with
        ⟨hignore, s', hs', hadv, hagenda⟩ | hfails
      · refine Or.inl ⟨s', hs', hadv, fun f _ hf => ?_, Or.inr (by simp only [work, hagenda])⟩
        rcases hf.invoke_cases hstmt with ⟨m, hok, _⟩ | ⟨e', _, hno⟩
        · cases hm.symm.trans hok
        · rw [hignore] at hno
          cases hno
      · exact Or.inr hfails
    · -- an object of no class runs no method
      refine Or.inl ⟨s, heq, .refl hs, fun f _ hf => ?_, Or.inr rfl⟩
      rcases hf.invoke_cases hstmt with ⟨m, hok, _⟩ | ⟨e', herr, _⟩
      · cases hm.symm.trans hok
      · cases hm.symm.trans herr
    · have hobj : o.obj ∈ K := hs.core.objs _ ho.obj_mem
      have hrecv := serves_receiverRequests hX.genuine
        (calleeIn S.program S.options.selector c site o m) hobj
      obtain ⟨hadv, hmet⟩ := advance_request hX hs hrecv (by
        rintro f ⟨r, hr, rfl⟩
        exact huses _ hsome (.receiver hstmt hbase hm hr))
      -- the receiver gets the object before the edge is added
      obtain ⟨hadv', hedge, hnew⟩ := advance_addCallEdge hX hadv.inv call.kind
        (huses _ hsome (.call hstmt hbase hm))
      refine Or.inl ⟨_, heq, hadv.trans hadv', fun f _ hf => ?_, ?_⟩
      · rcases hf.invoke_cases hstmt with ⟨m', hok, hf⟩ | ⟨e', herr, _⟩
        · cases hm.symm.trans hok
          rcases hf with rfl | ⟨r, hr, rfl⟩
          · exact Or.inl (Or.inl hedge)
          · exact hadv'.claimed (Or.inl (hmet ⟨r, hr, rfl⟩))
        · cases hm.symm.trans herr
      · rcases hnew with hnew | hsame
        · exact Or.inl ⟨hadv.facts.trans hadv'.facts, fun h => hnew (hadv.facts (h hedge))⟩
        · rw [hsame]
          exact Or.inr rfl

theorem performed_calls (hX : Bounds S K X J) (hs : Inv S K X J s) {c : Context} {i : CSObjId}
    {site : Site} {rest : List Site}
    (hvalid : (Task.calls c i (site :: rest)).Valid S.program s.core)
    (howes : (Task.calls c i (site :: rest)).owes S.program S.options s.core ⊆ X) :
    (∃ s', (s.push [.calls c i rest]).processCall S c site i = (s', none) ∧
      Performed S K X J s (.calls c i (site :: rest)) s') ∨
    Fails S K X J ((s.push [.calls c i rest]).processCall S c site i) := by
  have hadv := advance_leaves hX hs (.calls c i site rest) hvalid howes
  obtain ⟨⟨o, ho⟩, hsites⟩ := hvalid
  obtain ⟨stmt, b, hstmt, hb⟩ := hsites site List.mem_cons_self
  rcases processCall_spec hX hadv.inv (c := c) (hadv.tables.names ho) hstmt hb (fun f hcall hf =>
      howes ⟨o, ho, site, List.mem_cons_self, hcall, b, hf⟩)
      with ⟨s', hs', hadv', hclaimed, hwork⟩ | hfails
  · refine Or.inl ⟨s', hs', hadv.trans hadv', ?_, hwork.imp_right fun hwork => ?_⟩
    · rintro f ⟨o', ho', site', hsite', hcall, b', hf⟩
      obtain rfl := ho'.unique ho
      rcases List.mem_cons.mp hsite' with rfl | hsite'
      · obtain ⟨stmt', hstmt', hb'⟩ := hf.base?
        cases hstmt.symm.trans hstmt'
        cases hb.symm.trans hb'
        exact hclaimed f hcall hf
      · refine hadv'.claimed (Or.inr ⟨.calls c i rest, ?_, o', ho, site', hsite', hcall, b', hf⟩)
        exact List.mem_append_left _ (List.mem_singleton.mpr rfl)
    · rw [hwork, work_push]
      simp only [List.map_cons, List.map_nil, List.sum_cons, List.sum_nil, weight, List.length_cons]
      omega
  · exact Or.inr hfails

/-- A task without anything left to do is dropped. -/
theorem performed_nothing (hs : Inv S K X J s) {task : Task}
    (howes : ∀ f, f ∉ task.owes S.program S.options s.core) (hweight : 0 < weight S.program task) :
    Performed S K X J s task s :=
  ⟨.refl hs, fun f hf => absurd hf (howes f), Or.inr (by omega)⟩

/-- Every task advances the machine and leaves what it owed claimed; it fails only on a fault. -/
theorem perform_spec (hX : Bounds S K X J) (hs : Inv S K X J s) {task : Task}
    (hvalid : task.Valid S.program s.core) (howes : task.owes S.program S.options s.core ⊆ X) :
    (∃ s', perform S s task = (s', none) ∧ Performed S K X J s task s') ∨
    Fails S K X J (perform S s task) := by
  cases task with
  | reach m => exact Or.inl ⟨_, rfl, performed_reach hX hs (howes rfl)⟩
  | body m i => exact performed_body hX hs howes
  | callees site call rest =>
    cases rest with
    | nil => exact Or.inl ⟨s, rfl, performed_nothing hs (by simp [Task.owes]) (by simp [weight])⟩
    | cons m rest => exact Or.inl ⟨_, rfl, performed_callees hX hs howes⟩
  | connect e => exact Or.inl ⟨_, rfl, performed_connect hX hs hvalid howes⟩
  | objects c v rest =>
    cases rest with
    | nil => exact Or.inl ⟨s, rfl, performed_nothing hs (by simp [Task.owes]) (by simp [weight])⟩
    | cons i rest => exact Or.inl ⟨_, rfl, performed_objects hX hs hvalid howes⟩
  | calls c i rest =>
    cases rest with
    | nil => exact Or.inl ⟨s, rfl, performed_nothing hs (by simp [Task.owes]) (by simp [weight])⟩
    | cons site rest => exact performed_calls hX hs hvalid howes

end Machine

end WholeProgram.PointsTo
