import Mathlib.Logic.Relation
import WholeProgram.Proofs.PointsTo.Agenda

/-!
# Runs of the solver

One step of the solver, and from it a whole run:

* `step_eq`, `takeEntry_cases` — what a step can do, and what becomes of an entry of the worklist;
* `step_spec` — a step keeps the invariant and completeness (`Complete`: what the rules ask for is
  claimed), and makes progress (`Before`); the machine stops when nothing is left to do, at the
  limit, or on a fault;
* `begin_spec` — the machine starts in order;
* `Steps.spec` — and so it stays;
* `run_eq_some_iff` — `run` is the end of the steps.
-/

namespace WholeProgram.PointsTo.Machine

variable {K : Set Obj} {X : Set Fact} {π : Type} {S : Setting π} {J : π → Prop} {s s' t : Machine π}

/-- All that the rules ask for is held, promised or owed. -/
def Complete (S : Setting π) (s : Machine π) : Prop :=
  ∀ f, Yields S.program S.options false s.core.facts f → f ∈ s.claimed S

theorem Complete.advance (h : s.Complete S) (hadv : Advance S K X J s s') : s'.Complete S := by
  intro f hf
  rcases hadv.demands f hf with hf | hf
  · exact hadv.claimed (h f hf)
  · exact hf

/-- The machine `s'` is closer to its end than `s`: it has more facts, or less to do, or less that
waits. -/
def Before (p : Program) (s' s : Machine π) : Prop :=
  s.core.facts ⊂ s'.core.facts ∨
  (s'.core.facts = s.core.facts ∧ (s'.work p < s.work p ∨
    (s'.work p = s.work p ∧ s'.core.waiting.toList.length < s.core.waiting.toList.length)))

/-! ## Carrying out a task -/

/-- Taking the first task off the agenda leaves the machine in order. -/
theorem Inv.tail (hs : Inv S K X J s) {task : Task} {rest : List Task}
    (hagenda : s.agenda = task :: rest) :
    Inv S K X J { s with agenda := rest } := by
  have hmem : ∀ task' ∈ rest, task' ∈ s.agenda := fun task' h => by
    rw [hagenda]; exact List.mem_cons_of_mem _ h
  refine ⟨hs.core, fun task' h => hs.tasks task' (hmem task' h), ?_, hs.plugin⟩
  rintro f (hf | ⟨task', htask', hf⟩)
  · exact hs.claimed (Or.inl hf)
  · exact hs.claimed (Or.inr ⟨task', hmem task' htask', hf⟩)

/-- A task that was carried out keeps completeness: what it owed is claimed. -/
theorem Complete.performed (h : s.Complete S) {task : Task} {rest : List Task}
    (hagenda : s.agenda = task :: rest) (hp : Performed S K X J { s with agenda := rest } task s') :
    s'.Complete S := by
  intro f hf
  rcases hp.advance.demands f hf with hf | hf
  · rcases h f hf with hf | ⟨task', htask', hf⟩
    · exact hp.advance.claimed (Or.inl hf)
    · rw [hagenda] at htask'
      rcases List.mem_cons.mp htask' with rfl | htask'
      · exact hp.owed hf
      · exact hp.advance.claimed (Or.inr ⟨task', htask', hf⟩)
  · exact hf

theorem before_performed {task : Task} {rest : List Task} (hagenda : s.agenda = task :: rest)
    (hp : Performed S K X J { s with agenda := rest } task s') : Before S.program s' s := by
  rcases hp.progress with hnew | hless
  · exact Or.inl hnew
  · have hwork : s.work S.program =
        weight S.program task + ({ s with agenda := rest } : Machine π).work S.program := by
      simp [work, hagenda]
    by_cases hsame : s'.core.facts = s.core.facts
    · exact Or.inr ⟨hsame, Or.inl (by omega)⟩
    · exact Or.inl (hp.advance.facts.ssubset_of_ne (Ne.symm hsame))

/-! ## Taking an entry -/

/-- An entry without news for a variable changes the core only; what is new to a variable becomes a
task, and the plugin hears of it. -/
theorem takeEntry_cases {q : Pointer} {set : IdSet} {w : Queue (Pointer × IdSet)}
    (hpop : s.core.waiting.toList = (q, set) :: w.toList) (n : Nat) :
    ∃ core, Core.Taken q set s.core core ∧
      ((set.diff (s.core.pointsTo q)).isEmpty = true → core = { s.core with waiting := w }) ∧
      ((takeEntry S q set { s with core := { s.core with waiting := w }, iterations := n } =
          { core, plugin := s.plugin, agenda := s.agenda, iterations := n } ∧
        ∀ c v i, q = .var c v → i ∉ set.diff (s.core.pointsTo q)) ∨
      ∃ c v, q = .var c v ∧ ¬ (set.diff (s.core.pointsTo q)).isEmpty = true ∧
        takeEntry S q set { s with core := { s.core with waiting := w }, iterations := n } =
          notify S (.newPointsTo c v (set.diff (s.core.pointsTo q)))
            { core, plugin := s.plugin, iterations := n,
              agenda := [.objects c v (set.diff (s.core.pointsTo q)).toList] ++ s.agenda }) := by
  obtain ⟨hdelta, htaken⟩ := Core.taken_propagate hpop
  have hsame : (set.diff (s.core.pointsTo q)).isEmpty = true →
      ({ s.core with waiting := w } : Core).propagate q set = ({ s.core with waiting := w }, _) :=
    fun hempty => if_pos hempty
  refine ⟨_, htaken, fun hempty => congrArg Prod.fst (hsame hempty), ?_⟩
  unfold takeEntry
  dsimp only
  generalize ({ s.core with waiting := w } : Core).propagate q set = r at hdelta htaken
  obtain ⟨core, delta⟩ := r
  obtain rfl : delta = set.diff (s.core.pointsTo q) := hdelta
  by_cases hempty : (set.diff (s.core.pointsTo q)).isEmpty = true
  · rw [if_pos hempty]
    exact Or.inl ⟨rfl, fun _ _ i _ => (IdSet.isEmpty_iff _).mp hempty i⟩
  · rw [if_neg hempty]
    cases q with
    | field | static | array => exact Or.inl ⟨rfl, by simp⟩
    | var c v => exact Or.inr ⟨c, v, rfl, hempty, rfl⟩

/-- The objects that are new to a variable are known to the core. -/
theorem objects_valid {p : Program} (hs : s.core.Ok K) {c : Context} {v : VarId} {set : IdSet}
    {core : Core} (h : Core.Taken (.var c v) set s.core core) :
    (Task.objects c v (set.diff (s.core.pointsTo (.var c v))).toList).Valid p core := by
  intro i hi
  obtain ⟨o, ho⟩ := h.delta_names hs ((IdSet.mem_toList _ _).mp hi)
  exact ⟨o, h.tables.tableLe.names ho⟩

/-- If an object is new to the pointer, so is the fact that the pointer has it. -/
theorem facts_ssubset_of_taken (hs : s.core.Ok K) {q : Pointer} {set : IdSet} {core : Core}
    (h : Core.Taken q set s.core core) (hsome : ¬ (set.diff (s.core.pointsTo q)).isEmpty = true) :
    s.core.facts ⊂ core.facts := by
  refine ⟨fun f hf => (h.mem_facts_iff f).mpr (Or.inl hf), fun hsub => ?_⟩
  obtain ⟨i, hi⟩ := (IdSet.isEmpty_eq_false_iff _).mp (Bool.eq_false_iff.mpr hsome)
  obtain ⟨o, ho⟩ := h.delta_names hs hi
  have hfact : Fact.holds q o ∈ core.facts :=
    ⟨i, (h.sets q i).mpr (Or.inr ⟨rfl, hi⟩), h.tables.tableLe.names ho⟩
  -- the core had this object under a number that the pointer did not have
  obtain ⟨j, hj, ho'⟩ := hsub hfact
  obtain rfl := hs.tables.names_unique ho' ho
  exact ((IdSet.mem_diff _ _ _).mp hi).2 hj

/-- Where the rules ask for nothing, nothing becomes a task. -/
theorem advance_quiet (hX : Bounds S K X J) (hs : Inv S K X J s) {q : Pointer} {set : IdSet}
    {core : Core} (h : Core.Taken q set s.core core)
    (hquiet : ∀ c v i, q = .var c v → i ∉ set.diff (s.core.pointsTo q)) (n : Nat) :
    Advance S K X J s { core, plugin := s.plugin, agenda := s.agenda, iterations := n } := by
  have hD : Core.entryDemands S.program S.options s.core q (set.diff (s.core.pointsTo q)) ⊆ ∅ := by
    rintro f ⟨c, v, hq, i, hi, _⟩
    exact absurd hi (hquiet c v i hq)
  exact .of_gains_only hX hs (h.ok hs.core) ((h.gains _ _).mono subset_rfl hD)
    (fun f hf => hs.claimed (Or.inl (h.promised hf))) hs.plugin

/-- Objects that are new to a variable become a task. -/
theorem advance_objects (hX : Bounds S K X J) (hs : Inv S K X J s) {c : Context} {v : VarId}
    {set : IdSet} {core : Core} (h : Core.Taken (.var c v) set s.core core) (n : Nat) :
    Advance S K X J s
      { core, plugin := s.plugin, iterations := n,
        agenda := [.objects c v (set.diff (s.core.pointsTo (.var c v))).toList] ++ s.agenda } := by
  have hgains := h.gains S.program S.options
  have hfacts : Core.entryFacts s.core (.var c v) (set.diff (s.core.pointsTo (.var c v))) ⊆ X :=
    fun f hf => hs.claimed (Or.inl (h.promised hf))
  refine Advance.of_gains hX hs (h.ok hs.core) hgains hfacts hs.plugin ?_ ?_
  · intro task htask
    rw [List.mem_singleton.mp htask]
    refine ⟨objects_valid hs.core h, ?_⟩
    rintro f ⟨i, hi, o, ho, site, hu⟩
    have hholds : Fact.holds (.var c v) o ∈ X :=
      hfacts ⟨i, (IdSet.mem_toList _ _).mp hi, o, h.tables.names ho, rfl⟩
    exact hX.closed (.through hholds hu (by simp))
  · rintro f ⟨c', v', hq, i, hi, o, ho, site, hu⟩
    cases hq
    exact Or.inr ⟨_, List.mem_singleton.mpr rfl, i, (IdSet.mem_toList _ _).mpr hi, o,
      hgains.tables.names ho, site, hu⟩

/-- Taking an entry of the worklist advances the machine, with a new fact or a shorter worklist. -/
theorem takeEntry_spec (hX : Bounds S K X J) (hs : Inv S K X J s) {q : Pointer} {set : IdSet}
    {w : Queue (Pointer × IdSet)} (hpop : s.core.waiting.toList = (q, set) :: w.toList) (n : Nat) :
    Advance S K X J s
      (takeEntry S q set { s with core := { s.core with waiting := w }, iterations := n }) ∧
    Before S.program
      (takeEntry S q set { s with core := { s.core with waiting := w }, iterations := n }) s := by
  obtain ⟨core, htaken, hsame, hcases⟩ := takeEntry_cases (S := S) hpop n
  rcases hcases with ⟨heq, hquiet⟩ | ⟨c, v, rfl, hsome, heq⟩
  · rw [heq]
    refine ⟨advance_quiet hX hs htaken hquiet n, ?_⟩
    by_cases hempty : (set.diff (s.core.pointsTo q)).isEmpty = true
    · -- nothing is new: the entry is dropped
      obtain rfl := hsame hempty
      refine Or.inr ⟨rfl, Or.inr ⟨rfl, ?_⟩⟩
      rw [hpop]
      exact Nat.lt_succ_self _
    · exact Or.inl (facts_ssubset_of_taken hs.core htaken hempty)
  · rw [heq]
    have hadv := advance_objects hX hs htaken n
    have hadv' := advance_notify hX hadv.inv (e := .newPointsTo c v _) fun i hi =>
      (htaken.sets _ i).mpr (Or.inr ⟨rfl, hi⟩)
    exact ⟨hadv.trans hadv',
      Or.inl ((facts_ssubset_of_taken hs.core htaken hsome).trans_subset hadv'.facts)⟩

/-! ## Steps -/

/-- A step carries out the first task; without one, the machine is done or takes the next entry of the
worklist, unless that is one too many. -/
theorem step_eq (S : Setting π) (s : Machine π) :
    (∃ task rest, s.agenda = task :: rest ∧
      s.step S = ((perform S { s with agenda := rest } task).1,
        (perform S { s with agenda := rest } task).2.map .failed)) ∨
    (s.agenda = [] ∧ s.core.waiting.toList = [] ∧ s.step S = (s, some .done)) ∨
    ∃ q set w, s.agenda = [] ∧ s.core.waiting.toList = (q, set) :: w.toList ∧
      s.step S =
        if 0 < S.options.limit ∧ S.options.limit < (s.iterations + 1 : Nat) then
          ({ s with iterations := s.iterations + 1 },
            some (.failed (.iterationLimit S.options.limit "worklist entries")))
        else
          (takeEntry S q set
            { s with core := { s.core with waiting := w }, iterations := s.iterations + 1 }, none) := by
  unfold step
  cases hagenda : s.agenda with
  | cons task rest =>
    refine Or.inl ⟨task, rest, rfl, ?_⟩
    rcases hp : perform S { s with agenda := rest } task with ⟨t, _ | e⟩
    · simp only [hp, Option.map_none]
    · simp only [hp, Option.map_some]
  | nil =>
    cases hpop : s.core.waiting.pop? with
    | none => exact Or.inr (Or.inl ⟨rfl, (Queue.pop?_eq_none_iff _).mp hpop, rfl⟩)
    | some r =>
      obtain ⟨⟨q, set⟩, w⟩ := r
      exact Or.inr (Or.inr ⟨q, set, w, rfl, Queue.toList_pop? _ _ _ hpop, rfl⟩)

/-- What a step can do. It goes on, in order and with progress; or it is done, with nothing left to
do; or it fails, at the limit or on a fault. -/
theorem step_spec (hX : Bounds S K X J) (hs : Inv S K X J s) :
    (∃ s', s.step S = (s', none) ∧ Inv S K X J s' ∧ s.core.facts ⊆ s'.core.facts ∧
      (s.Complete S → s'.Complete S) ∧ Before S.program s' s) ∨
    (s.step S = (s, some .done) ∧ s.agenda = [] ∧ s.core.waiting.toList = []) ∨
    (∃ s' e, s.step S = (s', some (.failed e)) ∧ Inv S K X J s' ∧
      ((.fault ∈ X ∧ IsCallError e) ∨
        (0 < S.options.limit ∧ ∃ what, e = .iterationLimit S.options.limit what))) := by
  rcases step_eq S s with ⟨task, rest, hagenda, hstep⟩ | ⟨hagenda, hlist, hstep⟩ |
    ⟨q, set, w, hagenda, hlist, hstep⟩
  · have hvalid := hs.tasks task (by rw [hagenda]; exact List.mem_cons_self)
    have howes : task.owes S.program S.options s.core ⊆ X := by
      intro f hf
      exact hs.claimed (Or.inr ⟨task, by rw [hagenda]; exact List.mem_cons_self, hf⟩)
    rcases perform_spec hX (hs.tail hagenda) hvalid howes
      with ⟨s', heq, hp⟩ | ⟨s', e, heq, hinv, hfault⟩
    · rw [heq] at hstep
      exact Or.inl ⟨s', hstep, hp.advance.inv, hp.advance.facts, fun h => h.performed hagenda hp,
        before_performed hagenda hp⟩
    · rw [heq] at hstep
      exact Or.inr (Or.inr ⟨s', e, hstep, hinv, Or.inl hfault⟩)
  · exact Or.inr (Or.inl ⟨hstep, hagenda, hlist⟩)
  · split at hstep
    · rename_i hlimit
      refine Or.inr (Or.inr ⟨_, _, hstep, ?_, Or.inr ⟨hlimit.1, "worklist entries", rfl⟩⟩)
      exact ⟨hs.core, hs.tasks, hs.claimed, hs.plugin⟩
    · obtain ⟨hadv, hbefore⟩ := takeEntry_spec hX hs hlist (s.iterations + 1)
      exact Or.inl ⟨_, hstep, hadv.inv, hadv.facts, fun h => h.advance hadv, hbefore⟩

/-! ## The beginning -/

theorem ok_empty : ({} : Core).Ok K where
  tables := Core.tables_empty
  listed := by
    intro q hq
    simp at hq
  objs := by simp
  graph := CallGraph.consistent_empty
  held := by
    intro q i hi
    simp [Core.pointsTo] at hi
  waiting := by simp
  used := by
    rintro i o ⟨n, hn, _⟩
    simp at hn

/-- The empty core holds and promises nothing. -/
theorem met_empty (f : Fact) : f ∉ ({} : Core).met := by
  rintro (hf | ⟨q, set, i, o, _, hq, _⟩)
  · cases f with
    | reach m => simp [Core.facts, Core.Has] at hf
    | edge site m => simp [Core.facts, Core.Has, CallGraph.HasEdge] at hf
    | flow a b => simp [Core.facts, Core.Has, Core.succsOf] at hf
    | holds q o => simp [Core.facts, Core.Has, Core.pointsTo] at hf
    | fault => exact hf
  · simp at hq

/-- Listing entries of the call graph changes no fact. -/
theorem gains_entries (p : Program) (opts : Options) {core : Core} (hcore : core.Ok K)
    (entries : List MethodId) :
    ({ core with graph := entries.foldl (fun g m => g.addEntry ⟨[], m⟩) core.graph } : Core).Ok K ∧
      Core.Gains p opts ∅ ∅ core
        { core with graph := entries.foldl (fun g m => g.addEntry ⟨[], m⟩) core.graph } := by
  obtain ⟨hcons, hreach, hedges⟩ := hcore.graph.addEntries entries fun m => (⟨[], m⟩ : CSMethod)
  generalize entries.foldl (fun g m => g.addEntry ⟨[], m⟩) core.graph = g at hcons hreach hedges
  have hfacts : ({ core with graph := g } : Core).facts = core.facts := by
    ext f
    cases f with
    | reach m => simp [Core.facts, Core.Has, hreach]
    | edge site m => simp [Core.facts, Core.Has, CallGraph.HasEdge, hedges]
    | flow | holds | fault => rfl
  have hmet : ({ core with graph := g } : Core).met = core.met := by
    unfold Core.met
    rw [hfacts]
    rfl
  refine ⟨⟨⟨hcore.tables.objIndex, hcore.tables.csObjIndex, hcore.tables.valid⟩, hcore.listed,
    hcore.objs, hcons,
    hcore.held, hcore.waiting, ?_⟩, ⟨id, id⟩, ?_, ?_, ?_, ?_, ?_⟩
  · rw [hmet]
    exact hcore.used
  · rw [hfacts]
  · intro f hf
    rw [hfacts] at hf
    exact Or.inl hf
  · rw [hmet]
  · intro f hf
    rw [hmet] at hf
    exact Or.inl hf
  · intro f hf
    rw [hfacts] at hf
    exact Or.inl hf

/-- The machine starts in order, and owes the entry methods. -/
theorem begin_spec (hX : Bounds S K X J) : Inv S K X J (begin S) ∧ (begin S).Complete S := by
  let s₀ : Machine π := { plugin := S.plugin.initial }
  have hinv₀ : Inv S K X J s₀ := by
    refine ⟨ok_empty, by simp [s₀], ?_, hX.plugin.initial⟩
    rintro f (hf | ⟨task, htask, _⟩)
    · exact absurd hf (met_empty f)
    · cases htask
  have hadv₁ := advance_notify hX hinv₀ (e := .start) trivial
  have hadv₂ : Advance S K X J (s₀.notify S .start) (begin S) := by
    obtain ⟨hok, hgains⟩ := gains_entries S.program S.options hadv₁.inv.core S.program.entries
    have htasks : ∀ core, ∀ task ∈ S.program.entries.map fun m => Task.reach ⟨[], m⟩,
        task.Valid S.program core ∧ task.owes S.program S.options core ⊆ X := by
      intro core task htask
      obtain ⟨m, hm, rfl⟩ := List.mem_map.mp htask
      refine ⟨trivial, ?_⟩
      rintro f rfl
      exact hX.closed (.entry hm)
    have h := Advance.of_gains (n := 0) hX hadv₁.inv hok hgains (Set.empty_subset _)
      hadv₁.inv.plugin (htasks _) (by simp)
    rw [show (s₀.notify S .start).agenda = [] from rfl, List.append_nil] at h
    exact h
  refine ⟨hadv₂.inv, ?_⟩
  intro f hf
  rcases (hadv₁.trans hadv₂).demands f hf with hf | hf
  · -- without facts only the rule of the entries asks for something
    cases hf with
    | entry hm =>
      exact Or.inr ⟨.reach ⟨[], _⟩, List.mem_map.mpr ⟨_, hm, rfl⟩, rfl⟩
    | stmt hr => exact absurd (Or.inl hr) (met_empty _)
    | through hh => exact absurd (Or.inl hh) (met_empty _)
    | callee he => exact absurd (Or.inl he) (met_empty _)
    | link he => exact absurd (Or.inl he) (met_empty _)
    | flow hab => exact absurd (Or.inl hab) (met_empty _)
  · exact hf

/-! ## Runs -/

/-- The machine goes on from `s` to `s'`. -/
def Next (S : Setting π) (s s' : Machine π) : Prop := s.step S = (s', none)

/-- The machine gets from `s` to `s'` by steps. -/
abbrev Steps (S : Setting π) : Machine π → Machine π → Prop := Relation.ReflTransGen (Next S)

theorem Next.spec (hX : Bounds S K X J) (hs : Inv S K X J s) (h : Next S s s') :
    Inv S K X J s' ∧ (s.Complete S → s'.Complete S) ∧ Before S.program s' s := by
  rcases step_spec hX hs with ⟨t, ht, hinv, _, hcomplete, hbefore⟩ | ⟨hdone, _⟩ | ⟨t, e, hfail, _⟩
  · cases h.symm.trans ht
    exact ⟨hinv, hcomplete, hbefore⟩
  · cases h.symm.trans hdone
  · cases h.symm.trans hfail

/-- The invariant and completeness hold along every run. -/
theorem Steps.spec (hX : Bounds S K X J) (hs : Inv S K X J s) (h : Steps S s s') :
    Inv S K X J s' ∧ (s.Complete S → s'.Complete S) := by
  induction h with
  | refl => exact ⟨hs, id⟩
  | tail _ hnext ih =>
    obtain ⟨hinv, hcomplete, _⟩ := hnext.spec hX ih.1
    exact ⟨hinv, fun h => hcomplete (ih.2 h)⟩

/-- The outcome of a run is that of the step after which the machine stops. -/
theorem run_eq_some_iff {r : Machine π × Halt} :
    s.run S = some r ↔ ∃ t, Steps S s t ∧ t.step S = (r.1, some r.2) := by
  constructor
  · intro hrun
    -- what holds of every outcome is shown for one unfolding of the run
    refine run.partial_correctness S (fun s r => ∃ t, Steps S s t ∧
      t.step S = (r.1, some r.2)) ?_ s r hrun
    intro again ih s r hr
    split at hr
    · rename_i s' h hstep
      cases hr
      exact ⟨s, .refl, hstep⟩
    · rename_i s' hstep
      obtain ⟨t, hsteps, hend⟩ := ih s' r hr
      exact ⟨t, .head hstep hsteps, hend⟩
  · rintro ⟨t, hsteps, hend⟩
    induction hsteps using Relation.ReflTransGen.head_induction_on with
    | refl =>
      rw [run, hend]
    | head hnext _ ih =>
      rw [run, show Machine.step S _ = (_, none) from hnext]
      exact ih

end WholeProgram.PointsTo.Machine
