import WholeProgram.Program.Builder
import WholeProgram.Proofs.PointsTo.Termination

/-!
# The analysis finds exactly what the rules give

* `Resolvable` — it can be checked on a program that every call without receiver has its callees in the
  class hierarchy, and every call on a receiver a callee for every object that the program allocates;
* `analyze_succeeds_of_resolvable` — the analysis of such a program has a result, with every selector;
* `analyze_isLeast` — the reachable methods, call edges, flows and points-to sets of a result are the
  least facts that are closed under the rules. Closedness comes from completeness when the solver is
  done, leastness from the invariant of the machine, taken for every closed set;
* `not_isLeast_guarded_borrowed` — a method that is never reached may use a variable of one that is. The
  solver follows its statement all the same, so that the rules that ask for reachable methods say less.
-/

namespace WholeProgram.PointsTo

variable {p : Program} {opts : Options}

/-- The objects that a program allocates. -/
def allocated (p : Program) : List Obj :=
  p.statements.filterMap fun x => match x.2 with
    | .new _ t => some (.ofAlloc x.1 t)
    | _ => none

theorem mem_allocated {site : Site} {x : VarId} {t : Ty} (h : p.stmt? site = some (.new x t)) :
    .ofAlloc site t ∈ allocated p :=
  List.mem_filterMap.mpr ⟨_, Program.mem_statements h, rfl⟩

/-- The call has callees: by the class hierarchy, or for every object that the program allocates. -/
def resolves (p : Program) (site : Site) (call : Call) : Bool :=
  match call.base with
  | none => match p.resolve site call with
    | .ok r => r.error.isNone
    | .error _ => false
  | some _ => (allocated p).all fun o => (Machine.calleeOn p o site call).isOk

/-- All calls of the program can be resolved. -/
def Resolvable (p : Program) : Prop := ∀ x ∈ p.statements, x.2.call?.all (resolves p x.1) = true

instance (p : Program) : Decidable (Resolvable p) := List.decidableBAll _ _

theorem Resolvable.resolves (h : Resolvable p) {site : Site} {x : Option VarId} {call : Call}
    (hs : p.stmt? site = some (.invoke x call)) : PointsTo.resolves p site call = true :=
  h _ (Program.mem_statements hs)

/-- The facts that are about allocated objects and objects of clients only, and no fault. -/
def faultless (p : Program) : Set Fact :=
  {f | match f with
    | .holds _ o => o.obj ∈ allocated p ∨ o.obj.isMock = true
    | .fault => False
    | _ => True}

/-- A call on an object of a client need not have a callee. -/
theorem calleeOn_ne_error {o : Obj} (ho : o.isMock = true) (site : Site) (call : Call) (e : DispatchError) :
    Machine.calleeOn p o site call ≠ .error e := by
  unfold Machine.calleeOn
  dsimp only
  split
  · nofun
  · split
    · nofun
    · rw [if_pos ho]
      nofun

theorem closed_faultless (h : Resolvable p) : Closed p opts false (faultless p) := by
  intro f hf
  cases hf with
  | entry => exact trivial
  | stmt _ hd =>
    cases hd with
    | new hs => exact Or.inl (mem_allocated hs)
    | copy | loadStatic | storeStatic | call => exact trivial
    | unresolved hs hbase hr he =>
      have := h.resolves hs
      simp [resolves, hbase, hr, he] at this
    | undeclared hs hbase hr =>
      have := h.resolves hs
      simp [resolves, hbase, hr] at this
  | through hh hu _ =>
    have ho := hh
    cases hu with
    | loadField | storeField | loadArray | storeArray | call => exact trivial
    | receiver => exact ho
    | unresolved hs hbase he =>
      rcases ho with ho | hmock
      · have := h.resolves hs
        rw [resolves, hbase] at this
        have hok := List.all_eq_true.mp this _ ho
        rw [he] at hok
        cases hok
      · exact absurd he (calleeOn_ne_error hmock _ _ _)
  | callee => exact trivial
  | link _ hl => cases hl <;> exact trivial
  | flow _ hh => exact hh

/-- The analysis of a program whose calls can all be resolved has a result. -/
theorem analyze_succeeds_of_resolvable (opts : Options) (h : Resolvable p)
    (hentries : p.entries ≠ []) (hlimit : opts.limit ≤ 0) :
    ∃ r, (analyze p opts).start.1 = .ok r :=
  Machine.analyze_succeeds hentries hlimit (closed_faultless h) id

/-- Whether methods use only their own variables can be checked on the lists of a program. -/
theorem ownVars_of_statements
    (hstmts : ∀ x ∈ p.statements,
      x.2.defined?.all (ownerOf? p · = some x.1.method) = true ∧
      x.2.base?.all (ownerOf? p · = some x.1.method) = true)
    (hmethods : ∀ m ∈ List.range p.methods.size,
      (p.method m).params.toList.all (ownerOf? p · = some m) = true ∧
      (p.method m).receiver.all (ownerOf? p · = some m) = true) : OwnVars p := by
  -- beyond the last method there are no parameters
  have hlt : ∀ {m : MethodId} {v : VarId},
      v ∈ (p.method m).params ∨ (p.method m).receiver = some v →
      m ∈ List.range p.methods.size := by
    intro m v hv
    by_contra hno
    have hm : p.method m = default := Program.method_eq_default (by simpa using hno)
    rw [hm] at hv
    rcases hv with hv | hv
    · exact absurd (show v ∈ (#[] : Array VarId) from hv) (by simp)
    · cases hv
  refine ⟨?_, ?_, ?_, ?_⟩
  · intro site s v hs hv
    have := (hstmts _ (Program.mem_statements hs)).1
    simpa [hv] using this
  · intro site s v hs hv
    have := (hstmts _ (Program.mem_statements hs)).2
    simpa [hv] using this
  · intro m v hv
    have := (hmethods m (hlt (Or.inl hv))).1
    exact of_decide_eq_true (List.all_eq_true.mp this v (Array.mem_toList_iff.mpr hv))
  · intro m v hv
    have := (hmethods m (hlt (Or.inr hv))).2
    simpa [hv] using this

/-! ## A list of two nodes -/

namespace TwoNodes

def node : Ty := .ref 1

def next : FieldId := 0

/-- `main` makes two nodes, links the first to the second, and asks the first for the node after
it. -/
def program : Program where
  classes := #[
    { name := "Main", super := none, isAbstract := false, isInterface := false, methods := #[0] },
    { name := "Node", super := none, isAbstract := false, isInterface := false, methods := #[1],
      fields := #[0] }]
  fields := #[{ name := "next", cls := 1, ty := node, isStatic := false }]
  vars := #[
    { name := "first", ty := node, method := 0, index := 0 },
    { name := "second", ty := node, method := 0, index := 1 },
    { name := "found", ty := node, method := 0, index := 2 },
    { name := "this", ty := node, method := 1, index := 0 },
    { name := "result", ty := node, method := 1, index := 1 }]
  methods := #[
    { name := "main", cls := 0, isStatic := true, isAbstract := false, subsig := "main()",
      returns := none,
      receiver := none, params := #[], vars := #[0, 1, 2], pos := none,
      body := #[
        { stmt := .new 0 node, pos := none },
        { stmt := .new 1 node, pos := none },
        { stmt := .storeField (some 0) next 1, pos := none },
        { stmt := .invoke (some 2) ⟨.virtual, ⟨1, "after", "after()"⟩, some 0, []⟩,
          pos := none }] },
    { name := "after", cls := 1, isStatic := false, isAbstract := false, subsig := "after()",
      returns := some node,
      receiver := some 3, params := #[], vars := #[3, 4], pos := none,
      body := #[
        { stmt := .loadField 4 (some 3) next, pos := none },
        { stmt := .ret (some 4), pos := none }] }]
  entries := [0]

theorem resolvable : Resolvable program := by decide

theorem ownVars : OwnVars program := ownVars_of_statements (by decide) (by decide)

end TwoNodes

/-! ## A variable of another method -/

namespace Borrowed

/-- The type of the objects with a method `foo`. -/
def a : Ty := .ref 1

/-- `main` makes an object. The method `other`, which nothing calls, calls `foo` on the variable of
`main`. -/
def builder : Builder :=
  let b := (({} : Builder).addClass "Main" .concrete none []).1
  let b := (b.addClass "A" .concrete none []).1
  let b := (b.addMethod 0 { name := "main", isStatic := true }).1
  let b := (b.addMethod 0 { name := "other", isStatic := true }).1
  let b := (b.addMethod 1 { name := "foo" }).1
  let b := (b.addVar 0 "x" a).1
  let b := b.add 0 (.new 1 a)
  let b := b.add 0 (.ret none)
  let b := b.add 1 (.invoke none ⟨.virtual, ⟨1, "foo", "foo()"⟩, some 1, []⟩)
  let b := b.add 1 (.ret none)
  b.add 2 (.ret none)

def main : MethodId := 0

def other : MethodId := 1

def foo : MethodId := 2

/-- What the builder makes of it. -/
def program : Program where
  classes := #[
    { name := "Main", super := none, isAbstract := false, isInterface := false, methods := #[0, 1] },
    { name := "A", super := none, isAbstract := false, isInterface := false, methods := #[2] }]
  fields := #[]
  vars := #[
    { name := "this", ty := a, method := 2, index := 0 },
    { name := "x", ty := a, method := 0, index := 0 }]
  methods := #[
    { name := "main", cls := 0, isStatic := true, isAbstract := false, subsig := "main()",
      returns := none, receiver := none, params := #[], vars := #[1], pos := none,
      body := #[
        { stmt := .new 1 a, pos := none },
        { stmt := .ret none, pos := none }] },
    { name := "other", cls := 0, isStatic := true, isAbstract := false, subsig := "other()",
      returns := none, receiver := none, params := #[], vars := #[], pos := none,
      body := #[
        { stmt := .invoke none ⟨.virtual, ⟨1, "foo", "foo()"⟩, some 1, []⟩, pos := none },
        { stmt := .ret none, pos := none }] },
    { name := "foo", cls := 1, isStatic := false, isAbstract := false, subsig := "foo()",
      returns := none, receiver := some 0, params := #[], vars := #[0], pos := none,
      body := #[{ stmt := .ret none, pos := none }] }]
  entries := [0]
  index :=
    { vars := #[{}, { calls := #[⟨1, 0⟩] }]
      bodies := #[
        { indices := #[0, 1], entry := some (-1), exit := some 2 },
        { indices := #[0, 1], callSites := #[0], entry := some (-1), exit := some 2 },
        { indices := #[0], entry := some (-1), exit := some 1 }] }

theorem build_eq : builder.build = .ok program := by decide +kernel

theorem resolvable : Resolvable program := by decide

/-- The only call of the program is that of `other`, on the variable of `main`. -/
theorem call_eq {site : Site} {x : Option VarId} {call : Call}
    (hs : program.stmt? site = some (.invoke x call)) :
    site.method = other ∧ call.base = some 1 ∧ call.kind = .virtual := by
  have hall : ∀ y ∈ program.statements, (y.2.call?.all fun c =>
      y.1.method = other ∧ c.base = some 1 ∧ c.kind = .virtual) = true := by decide
  simpa [Stmt.call?] using hall _ (Program.mem_statements hs)

/-- On the objects that the program allocates, calls run `foo`. -/
theorem callee_eq {o : Obj} (ho : o ∈ allocated program) {site : Site} {x : Option VarId} {call : Call}
    {m : MethodId} (hs : program.stmt? site = some (.invoke x call))
    (hm : Machine.calleeOn program o site call = .ok (some m)) : m = foo := by
  have hall : ∀ o ∈ allocated program, ∀ y ∈ program.statements, (y.2.call?.all fun c =>
      (Machine.calleeOn program o y.1 c).toOption = some (some foo)) = true := by decide
  have hfoo := hall o ho _ (Program.mem_statements hs)
  simp only [Stmt.call?, Option.all_some, decide_eq_true_eq, hm] at hfoo
  exact Option.some.inj (Option.some.inj hfoo)

/-- The facts without a call: of the methods only `main` is reached. -/
def mainFacts : Set Fact :=
  {f | match f with
    | .reach m => m.method = main
    | .edge _ _ | .fault => False
    | _ => True}

/-- Where statements count in reachable methods only, the call of `other` does not count. -/
theorem closed_mainFacts : Closed program {} true mainFacts := by
  -- no call is in `main`
  have hmain : ∀ {site : Site} {x : Option VarId} {call : Call}, site.method = main →
      program.stmt? site ≠ some (.invoke x call) := by
    intro site x call hsite hs
    exact absurd (hsite.symm.trans (call_eq hs).1) (by decide)
  intro f hf
  cases hf with
  | entry hm => exact List.mem_singleton.mp hm
  | stmt hr hd =>
    cases hd with
    | new | copy | loadStatic | storeStatic => exact trivial
    | call hs | unresolved hs | undeclared hs => exact absurd hs (hmain hr)
  | through _ hu hguard =>
    have hsite := hguard rfl
    cases hu with
    | loadField | storeField | loadArray | storeArray | receiver => exact trivial
    | call hs | unresolved hs => exact absurd hs (hmain hsite)
  | callee he => exact he.elim
  | link he => exact he.elim
  | flow => exact trivial

/-- The facts about objects that the program allocates which do not reach `other`. -/
def withoutOther : Set Fact :=
  {f | match f with
    | .reach m | .edge _ m => m.method ≠ other
    | .holds _ o => o.obj ∈ allocated program
    | _ => True}

/-- Wherever statements count, no call runs `other`. -/
theorem closed_withoutOther : Closed program {} false withoutOther := by
  intro f hf
  cases hf with
  | entry hm =>
    obtain rfl := List.mem_singleton.mp hm
    exact Nat.zero_ne_one
  | stmt _ hd =>
    cases hd with
    | new hs => exact mem_allocated hs
    | copy | loadStatic | storeStatic | unresolved | undeclared => exact trivial
    | call hs hb => cases hb.symm.trans (call_eq hs).2.1
  | through hh hu _ =>
    have ho := hh
    cases hu with
    | loadField | storeField | loadArray | storeArray | unresolved => exact trivial
    | receiver => exact ho
    | call hs _ hm =>
      obtain rfl := callee_eq ho hs hm
      exact Nat.succ_ne_self 1
  | callee he => exact he
  | link _ hl => cases hl <;> exact trivial
  | flow _ hh => exact hh

end Borrowed

end WholeProgram.PointsTo

/-! # Results are least -/

namespace WholeProgram.PointsTo

variable {p : Program} {opts : Options} {r : Result} {X : Set Fact}

/-- A set that is closed under the rules bounds the run without a plugin. -/
theorem bounds_none (hX : Closed p opts false X) :
    Machine.Bounds ⟨p, opts, Plugin.none⟩ (objects p {}) X fun _ => True :=
  ⟨genuine_objects p {}, hX, Plugin.respects_none⟩

/-- The core of a result is in order. -/
theorem analyze_core_ok (h : (analyze p opts).start.1 = .ok r) : r.core.Ok (objects p {}) := by
  obtain ⟨s, hrun, hcore⟩ := analyze_ok h
  rw [hcore]
  exact (Machine.run_done_spec (bounds_none (X := Set.univ) fun _ _ => trivial) hrun).1.core

/-- No rule leads out of the facts of a result. -/
theorem analyze_closed (h : (analyze p opts).start.1 = .ok r) :
    Closed p opts false r.core.facts := by
  obtain ⟨s, hrun, hcore⟩ := analyze_ok h
  rw [hcore]
  exact (Machine.run_done_spec (bounds_none (X := Set.univ) fun _ _ => trivial) hrun).2

/-- The facts of a result are in every closed set. -/
theorem analyze_facts_subset (h : (analyze p opts).start.1 = .ok r) (hX : Closed p opts false X) :
    r.core.facts ⊆ X := by
  obtain ⟨s, hrun, hcore⟩ := analyze_ok h
  rw [hcore]
  exact (Machine.run_done_spec (bounds_none hX) hrun).1.facts

/-- The analysis follows the call of `other` on the object of `main`. -/
theorem Borrowed.reach_foo (h : (analyze program {}).start.1 = .ok r) :
    .edge ⟨[], ⟨other, 0⟩⟩ ⟨[], foo⟩ ∈ r.core.facts ∧ .reach ⟨[], foo⟩ ∈ r.core.facts := by
  have hclosed := analyze_closed h
  have hmain := hclosed (.entry (m := main) List.mem_cons_self)
  have hnew := hclosed (.stmt (i := 0) hmain (.new rfl))
  have hcall : program.stmt? ⟨other, 0⟩ =
    some (.invoke none ⟨.virtual, ⟨1, "foo", "foo()"⟩, some 1, []⟩) := rfl
  have hedge := hclosed (.through hnew (.call hcall rfl rfl) nofun)
  exact ⟨hedge, hclosed (.callee hedge)⟩

/-- The reachable methods, the call edges, the flows and the points-to sets of a result are the
least solution of the rules. Where methods use only their own variables, it is the same whether a
statement through a variable asks for its method to be reachable or not. -/
theorem analyze_isLeast (h : (analyze p opts).start.1 = .ok r) :
    IsLeast {X | Closed p opts false X} r.core.facts ∧
    (OwnVars p → IsLeast {X | Closed p opts true X} r.core.facts) := by
  have hleast : IsLeast {X | Closed p opts false X} r.core.facts :=
    ⟨analyze_closed h, fun X hX => analyze_facts_subset h hX⟩
  exact ⟨hleast, fun hown => isLeast_closed_guarded (fun _ => hown) hleast⟩

/-- The analysis of the two nodes, with contexts of two objects, has a result, and it is the least
solution. -/
theorem analyze_isLeast_twoNodes :
    ∃ r, (analyze TwoNodes.program { selector := ⟨.object, 2, 1⟩ }).start.1 = .ok r ∧
      IsLeast {X | Closed TwoNodes.program { selector := ⟨.object, 2, 1⟩ } false X} r.core.facts ∧
      IsLeast {X | Closed TwoNodes.program { selector := ⟨.object, 2, 1⟩ } true X}
        r.core.facts := by
  obtain ⟨r, hr⟩ := analyze_succeeds_of_resolvable { selector := ⟨.object, 2, 1⟩ }
    TwoNodes.resolvable (by decide) (by decide)
  exact ⟨r, hr, (analyze_isLeast hr).1, (analyze_isLeast hr).2 TwoNodes.ownVars⟩

/-- The builder accepts a program in which a method that is reached in no context uses a variable of
another one. The analysis follows its call and reaches `foo`, which the least solution of the rules for
reachable methods does not. -/
theorem not_isLeast_guarded_borrowed :
    Borrowed.builder.build = .ok Borrowed.program ∧
    ∃ r, (analyze Borrowed.program {}).start.1 = .ok r ∧
      .reach ⟨[], Borrowed.foo⟩ ∈ r.core.facts ∧
      (∀ c, .reach ⟨c, Borrowed.other⟩ ∉ r.core.facts) ∧
      ¬ IsLeast {X | Closed Borrowed.program {} true X} r.core.facts := by
  obtain ⟨r, hr⟩ := analyze_succeeds_of_resolvable {} Borrowed.resolvable (by decide) (by decide)
  have hfoo := (Borrowed.reach_foo hr).2
  refine ⟨Borrowed.build_eq, r, hr, hfoo, fun c hother => ?_, fun hleast => ?_⟩
  · exact analyze_facts_subset hr Borrowed.closed_withoutOther hother rfl
  · have hmain : Borrowed.foo = Borrowed.main := hleast.2 Borrowed.closed_mainFacts hfoo
    exact absurd hmain (by decide)

end WholeProgram.PointsTo
