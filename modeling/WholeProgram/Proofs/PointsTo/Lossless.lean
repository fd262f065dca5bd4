import WholeProgram.Proofs.PointsTo.Exact
import WholeProgram.Proofs.PointsTo.Notifications
import WholeProgram.Proofs.PointsTo.Spreading

/-!
# Difference propagation loses nothing

Whenever the solver is about to take an entry of the worklist, what its objects ask for is there, or
waits to come (`Machine.Lossless`). So it is in every run with every plugin, and also if clients ask for
objects and flows of their own between the steps, or after the end of a run, which then goes on
(`propagation_lossless`).

* `Machine.Supplied` — the invariant: what objects ask for is due;
* `Machine.Move`, `carries_moves` — what can happen to a solver, and that it keeps the invariant.
-/

namespace WholeProgram.PointsTo

open Relation (ReflTransGen)

/-! ## What is kept -/

namespace Core

variable {K : Set Obj} {s t : Core}

/-- The object with this number is in a points-to set, or in an entry of the worklist for it. -/
def Receives (s : Core) (q : Pointer) (i : CSObjId) : Prop :=
  i ∈ s.pointsTo q ∨ ∃ set, (q, set) ∈ s.waiting.toList ∧ i ∈ set

/-- A number in a points-to set names the object with this number. -/
theorem Ok.names_heapObj (hs : s.Ok K) {q : Pointer} {i : CSObjId} (hi : i ∈ s.pointsTo q) :
    s.Names i (s.heapObj i) := by
  obtain ⟨o, ho⟩ := hs.held hi
  rwa [ho.heapObj_eq]

theorem Ok.receives (hs : s.Ok K) {q : Pointer} {i : CSObjId} {o : HeapObj} (ho : s.Names i o)
    (hmet : .holds q o ∈ s.met) : s.Receives q i := by
  rcases hmet with hh | ⟨q', set, j, o', heq, hq, hj, ho'⟩
  · exact Or.inl (hs.mem_of_holds ho hh)
  · obtain ⟨rfl, rfl⟩ := Fact.holds.inj heq
    obtain rfl := hs.tables.names_unique ho ho'
    exact Or.inr ⟨set, hq, hj⟩

/-- From `s` to `t` no points-to set, no set of flows or call edges and no set of reachable methods has
shrunk. -/
structure Grows (s t : Core) : Prop where
  pointsTo : ∀ {q i}, i ∈ s.pointsTo q → i ∈ t.pointsTo q ∧ t.heapObj i = s.heapObj i
  succsOf : ∀ {a b}, b ∈ s.succsOf a → b ∈ t.succsOf a
  edges : ∀ {site m}, s.graph.HasEdge site m → t.graph.HasEdge site m
  reachable : ∀ {m}, m ∈ s.graph.reachable → m ∈ t.graph.reachable

theorem Ok.grows (hs : s.Ok K) (ht : t.Ok K) (hle : TableLe s t) (hfacts : s.facts ⊆ t.facts) :
    s.Grows t where
  pointsTo := by
    intro q i hi
    have ho := hs.names_heapObj hi
    have hh : .holds q (s.heapObj i) ∈ s.facts := ⟨i, hi, ho⟩
    exact ⟨ht.mem_of_holds (hle.names ho) (hfacts hh), (hle.names ho).heapObj_eq⟩
  succsOf {a b} h := hfacts (show .flow a b ∈ s.facts from h)
  edges {site m} h := hfacts (show .edge site m ∈ s.facts from h)
  reachable {m} h := hfacts (show .reach m ∈ s.facts from h)

end Core

namespace Machine

variable {π : Type} {S : Setting π} {s s' : Machine π}

/-- What the objects of pointers ask for is there, or waits to come. -/
structure Lossless (S : Setting π) (s : Machine π) : Prop where
  flow : ∀ {a b i}, b ∈ s.core.succsOf a → i ∈ s.core.pointsTo a → s.core.Receives b i
  loadField : ∀ {c v i site x f}, i ∈ s.core.pointsTo (.var c v) →
    S.program.stmt? site = some (.loadField x (some v) f) →
    .var c x ∈ s.core.succsOf (.field (s.core.heapObj i) f)
  storeField : ∀ {c v i site f y}, i ∈ s.core.pointsTo (.var c v) →
    S.program.stmt? site = some (.storeField (some v) f y) →
    .field (s.core.heapObj i) f ∈ s.core.succsOf (.var c y)
  loadArray : ∀ {c v i site x k}, i ∈ s.core.pointsTo (.var c v) →
    S.program.stmt? site = some (.loadArray x v k) →
    .var c x ∈ s.core.succsOf (.array (s.core.heapObj i))
  storeArray : ∀ {c v i site k y}, i ∈ s.core.pointsTo (.var c v) →
    S.program.stmt? site = some (.storeArray v k y) →
    .array (s.core.heapObj i) ∈ s.core.succsOf (.var c y)
  call : ∀ {c v i site x call m}, i ∈ s.core.pointsTo (.var c v) →
    S.program.stmt? site = some (.invoke x call) → call.base = some v →
    calleeOn S.program (s.core.heapObj i).obj site call = .ok (some m) →
    s.core.graph.HasEdge ⟨c, site⟩ (calleeIn S.program S.options.selector c site (s.core.heapObj i) m) ∧
    ∀ r, (S.program.method m).receiver = some r →
      s.core.Receives (.var (calleeIn S.program S.options.selector c site (s.core.heapObj i) m).ctx r) i

/-- What objects ask for is due. -/
def Supplied (S : Setting π) (s : Machine π) : Prop :=
  ∀ f, Spreads S.program S.options s.core.facts f → f ∈ s.due S

theorem Supplied.carries (h : s.Supplied S) (hc : Carries S s s') : s'.Supplied S := by
  intro f hf
  rcases hc.spreads f hf with hf | hf
  · exact hc.due (h f hf)
  · exact hf

/-- Between two entries of the worklist nothing is owed any more. -/
theorem Supplied.lossless (h : s.Supplied S) (hs : Sane S Set.univ s) (hagenda : s.agenda = []) :
    s.Lossless S := by
  have hmet : ∀ {f}, Spreads S.program S.options s.core.facts f → f ∈ s.core.met := by
    intro f hf
    rcases h f hf with hf | ⟨_, task, htask, _⟩
    · exact hf
    · rw [hagenda] at htask
      cases htask
  have hused : ∀ {c v i site f}, i ∈ s.core.pointsTo (.var c v) →
      Uses S.program S.options c v (s.core.heapObj i) site f → f ≠ .fault → f ∈ s.core.met :=
    fun hi hu hne => hmet (.use ⟨_, hi, hs.core.names_heapObj hi⟩ hu hne)
  -- flows and call edges are not promised, so that they are there
  have hflow : ∀ {a b}, .flow a b ∈ s.core.met → b ∈ s.core.succsOf a := by
    rintro a b (hab | ⟨_, _, _, _, heq, _⟩)
    · exact hab
    · cases heq
  have hedge : ∀ {site m}, .edge site m ∈ s.core.met → s.core.graph.HasEdge site m := by
    rintro site m (he | ⟨_, _, _, _, heq, _⟩)
    · exact he
    · cases heq
  exact {
    flow := fun hab hi => by
      have ho := hs.core.names_heapObj hi
      exact hs.core.receives ho (hmet (.flow hab ⟨_, hi, ho⟩))
    loadField := fun hi hstmt => hflow (hused hi (.loadField hstmt) nofun)
    storeField := fun hi hstmt => hflow (hused hi (.storeField hstmt) nofun)
    loadArray := fun hi hstmt => hflow (hused hi (.loadArray hstmt) nofun)
    storeArray := fun hi hstmt => hflow (hused hi (.storeArray hstmt) nofun)
    call := fun hi hstmt hbase hm => ⟨hedge (hused hi (.call hstmt hbase hm) nofun), fun r hr =>
      hs.core.receives (hs.core.names_heapObj hi) (hused hi (.receiver hstmt hbase hm hr) nofun)⟩ }

/-! ## What can happen to a solver -/

/-- The solver takes a step, or a client asks for something meanwhile. -/
inductive Move (S : Setting π) (s : Machine π) : Machine π → Prop
  | step {s' : Machine π} : Next S s s' → Move S s s'
  | ask (rs : List Request) : Move S s (s.request rs)

/-- What can become of a solver, from before its first step on. -/
abbrev Reached (S : Setting π) (s : Machine π) : Prop := ReflTransGen (Move S) (begin S) s

theorem Move.carries (hs : Sane S Set.univ s) (h : Move S s s') : Carries S s s' := by
  cases h with
  | step h => exact carries_step hs h
  | ask rs => exact carries_request hs rs

theorem carries_moves (hs : Sane S Set.univ s) (h : ReflTransGen (Move S) s s') : Carries S s s' := by
  induction h with
  | refl => exact .refl hs
  | tail _ hmove ih => exact ih.trans (hmove.carries ih.sane)

/-- Before the first step nothing is held, but the plugin has asked for what it likes. -/
theorem supplied_begin (S : Setting π) : Sane S Set.univ (begin S) ∧ (begin S).Supplied S := by
  let s₀ : Machine π := { plugin := S.plugin.initial }
  have hs₀ : Sane S Set.univ s₀ := ⟨ok_empty, by simp [s₀]⟩
  have hsupplied : s₀.Supplied S := by
    intro f hf
    cases hf with
    | flow hab _ => exact absurd (Or.inl hab) (met_empty _)
    | use ho _ _ => exact absurd (Or.inl ho) (met_empty _)
  have hstart := carries_notify hs₀ .start
  obtain ⟨hok, hgains⟩ := gains_entries {} S.options hstart.sane.core S.program.entries
  have hentries : Carries S (s₀.notify S .start) (begin S) := by
    have htasks : ∀ core, ∀ task ∈ S.program.entries.map fun m => Task.reach ⟨[], m⟩,
        task.Valid S.program core := by simp [Task.Valid]
    have h : Carries S (s₀.notify S .start) { begin S with
        agenda := (S.program.entries.map fun m => .reach ⟨[], m⟩) ++ (s₀.notify S .start).agenda } :=
      .of_still hstart.sane hok hgains (by simp) (fun _ => rfl) (htasks _)
    rwa [show (s₀.notify S .start).agenda = [] from rfl, List.append_nil] at h
  have hbegin := hstart.trans hentries
  exact ⟨hbegin.sane, hsupplied.carries hbegin⟩

/-- Difference propagation loses nothing. Whatever the plugin and other clients ask for: when the solver is
about to take an entry of the worklist, each object of the source of a flow is one of its target or waits
for it, each access of a field or an array through a variable has its flow for each object of the
variable, and each call on a variable has its edge for each object on which it finds a callee, with the
object in the receiver of the callee or waiting for it. And nothing ever shrinks. -/
theorem propagation_lossless (S : Setting π) (h : Reached S s) :
    (s.agenda = [] → s.Lossless S) ∧ ∀ s', ReflTransGen (Move S) s s' → s.core.Grows s'.core := by
  obtain ⟨hsane, hsupplied⟩ := supplied_begin S
  have hreached := carries_moves hsane h
  refine ⟨(hsupplied.carries hreached).lossless hreached.sane, fun s' hlater => ?_⟩
  have hmoves := carries_moves hreached.sane hlater
  exact hreached.sane.core.grows hmoves.sane.core hmoves.tables hmoves.facts

/-- After the run on the two nodes the first of them, which `first` points to, has the flow of the field
that links it to the second, and is in the receiver of the call on it or waits for it. Clients may go
on. -/
theorem propagation_lossless_twoNodes :
    ∃ (s : Machine Unit) (i : CSObjId) (m : CSMethod),
      Reached ⟨TwoNodes.program, { selector := ⟨.object, 2, 1⟩ }, Plugin.none⟩ s ∧ s.agenda = [] ∧
      i ∈ s.core.pointsTo (.var [] 0) ∧
      .field (s.core.heapObj i) TwoNodes.next ∈ s.core.succsOf (.var [] 1) ∧
      m.method = 1 ∧ s.core.graph.HasEdge ⟨[], ⟨0, 3⟩⟩ m ∧ s.core.Receives (.var m.ctx 3) i ∧
      ∀ rs, s.core.Grows (s.request rs).core := by
  obtain ⟨r, hr⟩ := analyze_succeeds_of_resolvable { selector := ⟨.object, 2, 1⟩ }
    TwoNodes.resolvable (by decide) (by decide)
  obtain ⟨s, hrun, hcore⟩ := analyze_ok hr
  obtain ⟨t, hsteps, hlast⟩ := run_eq_some_iff.mp hrun
  obtain ⟨rfl, hagenda⟩ := step_done hlast
  have hclosed := analyze_closed hr
  rw [hcore] at hclosed
  have hmain := hclosed (.entry (m := 0) List.mem_cons_self)
  obtain ⟨i, hi, ho⟩ := hclosed (.stmt (i := 0) hmain (.new rfl))
  have hreached : Reached ⟨TwoNodes.program, { selector := ⟨.object, 2, 1⟩ }, Plugin.none⟩ s :=
    ReflTransGen.mono (fun _ _ h => Move.step h) _ _ hsteps
  obtain ⟨hhead, hgrows⟩ := propagation_lossless _ hreached
  have hlossless := hhead hagenda
  have hstore : TwoNodes.program.stmt? ⟨0, 2⟩ = some (.storeField (some 0) TwoNodes.next 1) := rfl
  have hcall : TwoNodes.program.stmt? ⟨0, 3⟩ =
      some (.invoke (some 2) ⟨.virtual, ⟨1, "after", "after()"⟩, some 0, []⟩) := rfl
  have hcallee : calleeOn TwoNodes.program (s.core.heapObj i).obj ⟨0, 3⟩
      ⟨.virtual, ⟨1, "after", "after()"⟩, some 0, []⟩ = .ok (some 1) := by
    rw [ho.heapObj_eq]
    rfl
  obtain ⟨hedge, hrecv⟩ := hlossless.call hi hcall rfl hcallee
  exact ⟨s, i, _, hreached, hagenda, hi, hlossless.storeField hi hstore, rfl, hedge, hrecv 3 rfl,
    fun rs => hgrows _ (.single (.ask rs))⟩

end Machine

end WholeProgram.PointsTo
