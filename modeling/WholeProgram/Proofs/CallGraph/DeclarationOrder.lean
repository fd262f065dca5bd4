import Mathlib.Logic.Equiv.Basic
import WholeProgram.Proofs.CallGraph.Hierarchy
import WholeProgram.Proofs.CallGraph.Closure

/-!
# The order of declarations

Two declarations of one hierarchy number its classes differently, and list the direct subclasses of a class
in different orders (`Program.Redeclared`). Dispatch and the classes below a class do not depend on this.
The callees of a call do when errors are ignored: the search ends at the first class that has no method, and
what was found before it stays.

* `Redeclared.dispatch_eq`, `Redeclared.mem_concreteBelow` — the views of the hierarchy that calls go by;
* `Program.Uniform` — of the classes that a call may run on, all have the method or none has it;
* `ignoring_independent` — where the calls are uniform, the call graph does not depend on the order;
* `order_changes_callees` — where one is not, it does.
-/

namespace WholeProgram

open Relation (ReflTransGen)

/-- The call of a method of the class with the new number. -/
def Call.renamed (ρ : ClassId ≃ ClassId) (call : Call) : Call :=
  { call with ref := { call.ref with cls := ρ call.ref.cls } }

/-- The class with the new numbers for its super class and for its direct subclasses, which may stand in
another order. -/
structure Class.Redeclared (ρ : ClassId ≃ ClassId) (d d' : Class) : Prop where
  super : d'.super = d.super.map ρ
  isAbstract : d'.isAbstract = d.isAbstract
  isInterface : d'.isInterface = d.isInterface
  methods : d'.methods = d.methods
  subclasses : d'.subclasses.toList.Perm (d.subclasses.toList.map ρ)

theorem Class.redeclared_refl (d : Class) : Class.Redeclared (.refl _) d d where
  super := by simp
  isAbstract := rfl
  isInterface := rfl
  methods := rfl
  subclasses := by simp

namespace Program

/-- Two declarations of one program: the classes have new numbers and list their direct subclasses in any
order; methods and calls are the same. -/
structure Redeclared (ρ : ClassId ≃ ClassId) (p q : Program) : Prop where
  size : q.classes.size = p.classes.size
  classes : ∀ c, Option.Rel (Class.Redeclared ρ) (p.class? c) (q.class? (ρ c))
  subsig : ∀ m, (q.method m).subsig = (p.method m).subsig
  isAbstract : ∀ m, (q.method m).isAbstract = (p.method m).isAbstract
  calls : ∀ site, q.callAt? site = (p.callAt? site).map (Call.renamed ρ)
  entries : q.entries = p.entries

variable {ρ : ClassId ≃ ClassId} {p q : Program} {c d k : ClassId} {m : MethodId} {subsig : String}
  {site : Site} {call : Call}

namespace Redeclared

theorem symm (h : Redeclared ρ p q) : Redeclared ρ.symm q p where
  size := h.size.symm
  classes c := by
    have hc := h.classes (ρ.symm c)
    rw [ρ.apply_symm_apply] at hc
    cases hp : p.class? (ρ.symm c) <;> cases hq : q.class? c <;> rw [hp, hq] at hc
    · exact .none
    · cases hc
    · cases hc
    · obtain ⟨hsuper, habstract, hinterface, hmethods, hsubs⟩ := Option.rel_some_some.mp hc
      refine .some ⟨?_, habstract.symm, hinterface.symm, hmethods.symm, ?_⟩
      · simp [hsuper, Option.map_map]
      · have hback := hsubs.map ρ.symm
        simp only [List.map_map, ρ.symm_comp_self, List.map_id] at hback
        exact hback.symm
  subsig m := (h.subsig m).symm
  isAbstract m := (h.isAbstract m).symm
  calls site := by simp [h.calls, Option.map_map, Function.comp_def, Call.renamed]
  entries := h.entries.symm

/-! ## The hierarchy -/

theorem class_cases (h : Redeclared ρ p q) (c : ClassId) :
    (p.class? c = none ∧ q.class? (ρ c) = none) ∨
      ∃ d d', p.class? c = some d ∧ q.class? (ρ c) = some d' ∧ Class.Redeclared ρ d d' := by
  have hc := h.classes c
  cases hp : p.class? c <;> cases hq : q.class? (ρ c) <;> rw [hp, hq] at hc
  · exact Or.inl ⟨rfl, rfl⟩
  · cases hc
  · cases hc
  · exact Or.inr ⟨_, _, rfl, rfl, Option.rel_some_some.mp hc⟩

theorem lt_iff (h : Redeclared ρ p q) (c : ClassId) : ρ c < q.classes.size ↔ c < p.classes.size := by
  rcases h.class_cases c with ⟨hp, hq⟩ | ⟨d, d', hp, hq, -⟩
  · exact iff_of_false (Nat.not_lt.mpr (Array.getElem?_eq_none_iff.mp hq))
      (Nat.not_lt.mpr (Array.getElem?_eq_none_iff.mp hp))
  · exact iff_of_true (Array.getElem?_eq_some_iff.mp hq).1 (Array.getElem?_eq_some_iff.mp hp).1

theorem isAbstractClass_eq (h : Redeclared ρ p q) (c : ClassId) :
    q.isAbstractClass (ρ c) = p.isAbstractClass c := by
  rcases h.class_cases c with ⟨hp, hq⟩ | ⟨d, d', hp, hq, hd⟩
  · simp [isAbstractClass, hp, hq]
  · simp [isAbstractClass, hp, hq, hd.isAbstract, hd.isInterface]

theorem superOf_eq (h : Redeclared ρ p q) (c : ClassId) : q.superOf (ρ c) = (p.superOf c).map ρ := by
  rcases h.class_cases c with ⟨hp, hq⟩ | ⟨d, d', hp, hq, hd⟩
  · simp [superOf, hp, hq]
  · simp [superOf, hp, hq, hd.super]

theorem concreteMethod?_eq (h : Redeclared ρ p q) (c : ClassId) (subsig : String) :
    q.concreteMethod? (ρ c) subsig = p.concreteMethod? c subsig := by
  rcases h.class_cases c with ⟨hp, hq⟩ | ⟨d, d', hp, hq, hd⟩
  · simp [concreteMethod?, declaredMethod?, hp, hq]
  · simp [concreteMethod?, declaredMethod?, hp, hq, hd.methods, h.subsig, h.isAbstract]

theorem superChain_eq (h : Redeclared ρ p q) (c : ClassId) :
    q.superChain (ρ c) = (p.superChain c).map ρ := by
  have hgo : ∀ fuel c, superChain.go q fuel (ρ c) = (superChain.go p fuel c).map ρ := by
    intro fuel
    induction fuel with
    | zero => exact fun _ => rfl
    | succ fuel ih =>
      intro c
      simp only [superChain.go, h.superOf_eq c]
      cases p.superOf c with
      | none => rfl
      | some s => simp [ih]
  rw [superChain, superChain, h.size, hgo]

/-- Dispatch finds the same method. -/
theorem dispatch_eq (h : Redeclared ρ p q) (c : ClassId) (subsig : String) :
    q.dispatch (ρ c) subsig = p.dispatch c subsig := by
  rw [dispatch, dispatch, h.superChain_eq, List.findSome?_map]
  simp only [Function.comp_def, h.concreteMethod?_eq]

theorem subclass_of_mem (h : Redeclared ρ p q) (hk : k ∈ p.subclassesOf c) : ρ k ∈ q.subclassesOf (ρ c) := by
  rcases h.class_cases c with ⟨hp, -⟩ | ⟨d, d', hp, hq, hd⟩
  · simp [subclassesOf, hp] at hk
  · have hk : k ∈ d.subclasses.toList := by simpa [subclassesOf, hp] using hk
    have hmem := hd.subclasses.mem_iff.mpr (List.mem_map_of_mem (f := ρ) hk)
    simpa [subclassesOf, hq] using hmem

theorem allSubclasses_of_mem (h : Redeclared ρ p q) (hk : k ∈ p.allSubclasses c) :
    ρ k ∈ q.allSubclasses (ρ c) := by
  unfold allSubclasses at hk ⊢
  rw [Explore.mem_order_iff] at hk ⊢
  obtain ⟨s, hs, hlt, hreach⟩ := hk
  obtain rfl := List.mem_singleton.mp hs
  refine ⟨ρ s, List.mem_cons_self, (h.lt_iff s).mpr hlt, ?_⟩
  exact hreach.lift ρ fun v w ⟨hw, hwlt⟩ => ⟨h.subclass_of_mem hw, (h.lt_iff w).mpr hwlt⟩

/-- Below a class are the same concrete classes. -/
theorem mem_concreteBelow (h : Redeclared ρ p q) :
    ρ k ∈ q.concreteBelow (ρ c) ↔ k ∈ p.concreteBelow c := by
  have hbelow : ρ k ∈ q.allSubclasses (ρ c) ↔ k ∈ p.allSubclasses c :=
    ⟨fun hk => by simpa using h.symm.allSubclasses_of_mem hk, h.allSubclasses_of_mem⟩
  rw [concreteBelow, concreteBelow, List.mem_filter, List.mem_filter, hbelow, h.isAbstractClass_eq]

theorem sitesIn_iff (h : Redeclared ρ p q) : site ∈ q.sitesIn m ↔ site ∈ p.sitesIn m := by
  rw [mem_sitesIn, mem_sitesIn, h.calls, Option.isSome_map]

end Redeclared

/-! ## Calls -/

/-- Of the concrete classes that a virtual or an interface call may run on, all have the method, or none has
it. -/
def Uniform (p : Program) (call : Call) : Prop :=
  call.kind = .virtual ∨ call.kind = .interface →
    (∀ c ∈ p.concreteBelow call.ref.cls, p.dispatch c call.ref.subsig ≠ none) ∨
    ∀ c ∈ p.concreteBelow call.ref.cls, p.dispatch c call.ref.subsig = none

/-- The class hierarchy has the method for the call: for the class that the call names, or for a concrete
class below that. -/
def MayRun (p : Program) (call : Call) (m : MethodId) : Prop :=
  (call.kind = .static ∨ call.kind = .special) ∧ p.dispatch call.ref.cls call.ref.subsig = some m ∨
  (call.kind = .virtual ∨ call.kind = .interface) ∧
    ∃ c ∈ p.concreteBelow call.ref.cls, p.dispatch c call.ref.subsig = some m

/-- The search that goes by the classes below does not end too early for a uniform call. -/
theorem Uniform.mem_dispatchAll (hu : p.Uniform call) (hkind : call.kind = .virtual ∨ call.kind = .interface) :
    m ∈ (p.dispatchAll call.ref.subsig (p.concreteBelow call.ref.cls) []).1 ↔
      ∃ c ∈ p.concreteBelow call.ref.cls, p.dispatch c call.ref.subsig = some m := by
  constructor
  · exact fun hm => (exists_of_mem_dispatchAll _ [] hm).resolve_left List.not_mem_nil
  · rintro ⟨c, hc, hm⟩
    rcases hu hkind with hall | hnone
    · have hends : (p.dispatchAll call.ref.subsig (p.concreteBelow call.ref.cls) []).2 = none := by
        by_contra hne
        obtain ⟨d, hd⟩ := Option.ne_none_iff_exists'.mp hne
        obtain ⟨hmem, hfails⟩ := failed_dispatchAll _ [] hd
        exact hall d hmem hfails
      obtain ⟨k, hk, hck⟩ := (Program.mem_dispatchAll _ [] hends).2 c hc
      obtain rfl := Option.some.inj (hm.symm.trans hck)
      exact hk
    · cases (hnone c hc).symm.trans hm

namespace Redeclared

theorem exists_concreteBelow (h : Redeclared ρ p q) {P : ClassId → Prop} :
    (∃ c ∈ q.concreteBelow (ρ d), P c) ↔ ∃ c ∈ p.concreteBelow d, P (ρ c) := by
  constructor
  · rintro ⟨c, hc, hP⟩
    rw [← ρ.apply_symm_apply c] at hc hP
    exact ⟨_, h.mem_concreteBelow.mp hc, hP⟩
  · rintro ⟨c, hc, hP⟩
    exact ⟨ρ c, h.mem_concreteBelow.mpr hc, hP⟩

theorem forall_concreteBelow (h : Redeclared ρ p q) {P : ClassId → Prop} :
    (∀ c ∈ q.concreteBelow (ρ d), P c) ↔ ∀ c ∈ p.concreteBelow d, P (ρ c) := by
  have hexists := h.exists_concreteBelow (d := d) (P := fun c => ¬ P c)
  simpa only [not_exists, not_and, not_not] using not_congr hexists

theorem uniform_iff (h : Redeclared ρ p q) : q.Uniform (call.renamed ρ) ↔ p.Uniform call := by
  simp only [Uniform, Call.renamed, h.forall_concreteBelow, h.dispatch_eq]

theorem mayRun_iff (h : Redeclared ρ p q) : q.MayRun (call.renamed ρ) m ↔ p.MayRun call m := by
  simp only [MayRun, Call.renamed, h.exists_concreteBelow, h.dispatch_eq]

end Redeclared

end Program

namespace ClassHierarchyAnalysis

open Program (Redeclared)

variable {ρ : ClassId ≃ ClassId} {p q : Program} {site : Site} {call : Call} {m k : MethodId}

/-- A virtual or an interface call finds what the search for the concrete classes below finds. -/
theorem foundAt_below (hcall : p.callAt? site = some call)
    (hkind : call.kind = .virtual ∨ call.kind = .interface) :
    FoundAt p site m ↔ m ∈ (p.dispatchAll call.ref.subsig (p.concreteBelow call.ref.cls) []).1 := by
  obtain ⟨r, hr, -⟩ : ∃ r, p.resolve site call = .ok r ∧ _ := Program.resolve_below_spec hkind
  rw [FoundAt, resolveSite_eq hcall, hr, ← (Program.resolve_below hkind hr).1]
  simp

/-- For a uniform call, all that the class hierarchy has is found. -/
theorem foundAt_iff (hcall : p.callAt? site = some call) (hu : p.Uniform call) :
    FoundAt p site m ↔ p.MayRun call m := by
  by_cases hbelow : call.kind = .virtual ∨ call.kind = .interface
  · rw [foundAt_below hcall hbelow, hu.mem_dispatchAll hbelow]
    rcases hbelow with hkind | hkind <;> simp [Program.MayRun, hkind]
  · unfold FoundAt
    rw [resolveSite_eq hcall]
    cases hr : p.resolve site call with
    | error code => simp [Program.MayRun, kind_of_error hr]
    | ok r =>
      have hkind := (Program.kind_of_resolve hr).resolve_right hbelow
      simp [Program.MayRun, hkind, hbelow, (Program.resolve_single hkind hr).1]

/-- All calls of the methods are uniform. -/
def UniformCalls (p : Program) (M : MethodId → Prop) : Prop :=
  ∀ m, M m → ∀ site ∈ p.sitesIn m, ∀ call, p.callAt? site = some call → p.Uniform call

/-- At a uniform call, both programs find the same. -/
theorem foundAt_redeclared (h : Redeclared ρ p q) (hsite : site ∈ p.sitesIn m)
    (hu : ∀ call, p.callAt? site = some call → p.Uniform call) : FoundAt q site k ↔ FoundAt p site k := by
  obtain ⟨call, hcall⟩ := Option.isSome_iff_exists.mp (Program.mem_sitesIn.mp hsite).2
  have hcall' : q.callAt? site = some (call.renamed ρ) := by rw [h.calls, hcall, Option.map_some]
  rw [foundAt_iff hcall (hu call hcall), foundAt_iff hcall' (h.uniform_iff.mpr (hu call hcall)), h.mayRun_iff]

theorem found_redeclared (h : Redeclared ρ p q) (hu : UniformCalls p (Found p)) : Found q m ↔ Found p m := by
  constructor
  · intro hm
    induction hm with
    | entry hm => exact .entry (h.entries ▸ hm)
    | callee _ hsite hk ih =>
      have hsite := h.sitesIn_iff.mp hsite
      exact ih.callee hsite ((foundAt_redeclared h hsite (hu _ ih _ hsite)).mp hk)
  · intro hm
    induction hm with
    | entry hm => exact .entry (h.entries.symm ▸ hm)
    | callee hm hsite hk ih =>
      exact ih.callee (h.sitesIn_iff.mpr hsite) ((foundAt_redeclared h hsite (hu _ hm _ hsite)).mpr hk)

theorem foundCall_redeclared (h : Redeclared ρ p q) (hu : UniformCalls p (Found p)) :
    FoundCall q site k ↔ FoundCall p site k := by
  refine exists_congr fun m => ?_
  rw [found_redeclared h hu, h.sitesIn_iff]
  exact and_congr_right fun hm => and_congr_right fun hsite =>
    foundAt_redeclared h hsite (hu m hm site hsite)

theorem foundUndeclared_redeclared (h : Redeclared ρ p q) (hu : UniformCalls p (Found p))
    (hq : FoundUndeclared q) : FoundUndeclared p := by
  obtain ⟨m, site, call', code, hm, hsite, hcall', hkind⟩ := hq
  rw [h.calls] at hcall'
  obtain ⟨call, hcall, rfl⟩ := Option.map_eq_some_iff.mp hcall'
  exact ⟨m, site, call, code, (found_redeclared h hu).mp hm, h.sitesIn_iff.mp hsite, hcall, hkind⟩

/-- Where unresolved calls are ignored, a program with an entry method has a call graph if all kinds of its
calls are declared. If all calls of the methods of the graph are uniform, every other declaration of the
program has one with the same methods and the same calls. -/
theorem ignoring_independent (h : Redeclared ρ p q) :
    (p.entries ≠ [] → DeclaredKinds p → ∃ g, (analyze p true).start.1 = .ok g) ∧
    ∀ g, (analyze p true).start.1 = .ok g → UniformCalls p (· ∈ g.reachable) →
      ∃ g', (analyze q true).start.1 = .ok g' ∧ (∀ m, m ∈ g'.reachable ↔ m ∈ g.reachable) ∧
        ∀ site m, g'.HasEdge site m ↔ g.HasEdge site m := by
  refine ⟨analyze_ignoring_succeeds, fun g hg hu => ?_⟩
  have hentries := (analyze_closed hg).1
  obtain ⟨hreach, hedges⟩ := (analyze_ignoring hentries).2 g hg
  have hu : UniformCalls p (Found p) := fun m hm => hu m ((hreach m).mpr hm)
  obtain ⟨hends, hq⟩ := analyze_ignoring (p := q) (h.entries.symm ▸ hentries)
  obtain ⟨g', hg'⟩ := hends.resolve_right fun hund =>
    not_foundUndeclared hg (foundUndeclared_redeclared h hu hund)
  obtain ⟨hreach', hedges'⟩ := hq g' hg'
  refine ⟨g', hg', fun m => ?_, fun site m => ?_⟩
  · rw [hreach', hreach, found_redeclared h hu]
  · rw [hedges', hedges, foundCall_redeclared h hu]

namespace Sounds

/-- `main` asks an animal for its sound. A cat has one; a dog has the method with the subsignature. The
animals are listed in the given order. -/
def program (subsig : String) (animals : Array ClassId) : Program where
  classes := #[
    { name := "Main", super := none, isAbstract := false, isInterface := false, methods := #[0] },
    { name := "Animal", super := none, isAbstract := true, isInterface := true, methods := #[1],
      subclasses := animals },
    { name := "Cat", super := none, interfaces := #[1], isAbstract := false, isInterface := false,
      methods := #[2] },
    { name := "Dog", super := none, interfaces := #[1], isAbstract := false, isInterface := false,
      methods := #[3] }]
  vars := #[{ name := "x", ty := .ref 1, method := 0, index := 0 }]
  methods := #[
    { name := "main", cls := 0, isStatic := true, isAbstract := false, subsig := "main()",
      returns := none, receiver := none, params := #[], vars := #[0], pos := none,
      body := #[
        { stmt := .invoke none ⟨.interface, ⟨1, "sound", "sound()"⟩, some 0, []⟩, pos := none },
        { stmt := .ret none, pos := none }] },
    { name := "sound", cls := 1, isStatic := false, isAbstract := true, subsig := "sound()",
      returns := none, receiver := none, params := #[], vars := #[], pos := none, body := #[] },
    { name := "sound", cls := 2, isStatic := false, isAbstract := false, subsig := "sound()",
      returns := none, receiver := none, params := #[], vars := #[], pos := none,
      body := #[{ stmt := .ret none, pos := none }] },
    { name := "own", cls := 3, isStatic := false, isAbstract := false, subsig := subsig,
      returns := none, receiver := none, params := #[], vars := #[], pos := none,
      body := #[{ stmt := .ret none, pos := none }] }]
  entries := [0]

variable {subsig : String} {animals : Array ClassId} {site : Site} {c : Call} {m : MethodId}

/-- The programs of two orders are declarations of one program. -/
theorem redeclared (subsig : String) :
    Redeclared (.refl _) (program subsig #[2, 3]) (program subsig #[3, 2]) where
  size := rfl
  classes
    | 0 => .some (Class.redeclared_refl _)
    | 1 => .some ⟨rfl, rfl, rfl, rfl, .swap 2 3 []⟩
    | 2 => .some (Class.redeclared_refl _)
    | 3 => .some (Class.redeclared_refl _)
    | _ + 4 => .none
  subsig _ := rfl
  isAbstract _ := rfl
  calls _ := Option.map_id'.symm
  entries := rfl

/-- The only call. -/
theorem callAt?_eq_some (h : (program subsig animals).callAt? site = some c) :
    site = ⟨0, 0⟩ ∧ c = ⟨.interface, ⟨1, "sound", "sound()"⟩, some 0, []⟩ := by
  obtain ⟨x, hstmt⟩ := Program.stmt?_of_callAt? h
  obtain ⟨m, i⟩ := site
  match m, i with
  | 0, 0 =>
    cases hstmt
    exact ⟨rfl, rfl⟩
  | 0, 1 => cases hstmt
  | 0, _ + 2 => cases hstmt
  | 1, _ => cases hstmt
  | 2, 0 => cases hstmt
  | 2, _ + 1 => cases hstmt
  | 3, 0 => cases hstmt
  | 3, _ + 1 => cases hstmt
  | _ + 4, _ => cases hstmt

theorem declaredKinds (subsig : String) (animals : Array ClassId) :
    DeclaredKinds (program subsig animals) := by
  intro site call hcall code hkind
  obtain ⟨-, rfl⟩ := callAt?_eq_some hcall
  cases hkind

/-- What is found for the call. -/
theorem foundAt_iff : FoundAt (program subsig animals) ⟨0, 0⟩ m ↔
    m ∈ ((program subsig animals).dispatchAll "sound()"
      ((program subsig animals).concreteBelow 1) []).1 :=
  have hcall : (program subsig animals).callAt? ⟨0, 0⟩ =
      some ⟨.interface, ⟨1, "sound", "sound()"⟩, some 0, []⟩ := rfl
  foundAt_below hcall (Or.inr rfl)

theorem found_main : Found (program subsig animals) 0 := .entry List.mem_cons_self

theorem mem_sitesIn_main : ⟨0, 0⟩ ∈ (program subsig animals).sitesIn 0 :=
  Program.mem_sitesIn.mpr ⟨rfl, rfl⟩

end Sounds

/-- A cat and a dog have the method that is called, so that both orders give the call graph with both
callees. -/
theorem ignoring_independent_sounds : ∃ g g',
    (analyze (Sounds.program "sound()" #[2, 3]) true).start.1 = .ok g ∧
    UniformCalls (Sounds.program "sound()" #[2, 3]) (· ∈ g.reachable) ∧
    (analyze (Sounds.program "sound()" #[3, 2]) true).start.1 = .ok g' ∧
    (∀ m, m ∈ g'.reachable ↔ m ∈ g.reachable) ∧ g'.HasEdge ⟨0, 0⟩ 2 ∧ g'.HasEdge ⟨0, 0⟩ 3 := by
  obtain ⟨hsome, hsame⟩ := ignoring_independent (Sounds.redeclared "sound()")
  obtain ⟨g, hg⟩ := hsome (List.cons_ne_nil _ _) (Sounds.declaredKinds _ _)
  have hu : UniformCalls (Sounds.program "sound()" #[2, 3]) (· ∈ g.reachable) := by
    intro m _ site _ call hcall
    obtain ⟨-, rfl⟩ := Sounds.callAt?_eq_some hcall
    exact fun _ => Or.inl (by decide +kernel)
  obtain ⟨g', hg', hreach, hedges⟩ := hsame g hg hu
  have hfound : ∀ m ∈ [2, 3], g.HasEdge ⟨0, 0⟩ m := by
    intro m hm
    refine hasEdge_of_foundCall hg ⟨0, Sounds.found_main, Sounds.mem_sitesIn_main, Sounds.foundAt_iff.mpr ?_⟩
    revert m
    decide +kernel
  exact ⟨g, g', hg, hu, hg', hreach, (hedges _ _).mpr (hfound 2 (by decide)),
    (hedges _ _).mpr (hfound 3 (by decide))⟩

/-- A dog that has no sound hides that of the cat if it is listed first, and does not if it is listed last. -/
theorem order_changes_callees :
    Redeclared (.refl _) (Sounds.program "bark()" #[2, 3]) (Sounds.program "bark()" #[3, 2]) ∧
    ∃ g g', (analyze (Sounds.program "bark()" #[2, 3]) true).start.1 = .ok g ∧
      (analyze (Sounds.program "bark()" #[3, 2]) true).start.1 = .ok g' ∧
      2 ∈ g.reachable ∧ g.HasEdge ⟨0, 0⟩ 2 ∧ 2 ∉ g'.reachable ∧ ¬ g'.HasEdge ⟨0, 0⟩ 2 := by
  obtain ⟨g, hg⟩ := analyze_ignoring_succeeds (p := Sounds.program "bark()" #[2, 3]) (List.cons_ne_nil _ _)
    (Sounds.declaredKinds _ _)
  obtain ⟨g', hg'⟩ := analyze_ignoring_succeeds (p := Sounds.program "bark()" #[3, 2]) (List.cons_ne_nil _ _)
    (Sounds.declaredKinds _ _)
  obtain ⟨hreach, hedges⟩ := (analyze_ignoring (List.cons_ne_nil _ _)).2 g hg
  obtain ⟨hreach', hedges'⟩ := (analyze_ignoring (List.cons_ne_nil _ _)).2 g' hg'
  have hcat : FoundAt (Sounds.program "bark()" #[2, 3]) ⟨0, 0⟩ 2 := Sounds.foundAt_iff.mpr (by decide +kernel)
  have hnone : ∀ site m, site ∈ (Sounds.program "bark()" #[3, 2]).sitesIn m →
      ¬ FoundAt (Sounds.program "bark()" #[3, 2]) site 2 := by
    intro site m hsite
    obtain ⟨call, hcall⟩ := Option.isSome_iff_exists.mp (Program.mem_sitesIn.mp hsite).2
    obtain ⟨rfl, -⟩ := Sounds.callAt?_eq_some hcall
    rw [Sounds.foundAt_iff]
    decide +kernel
  refine ⟨Sounds.redeclared _, g, g', hg, hg', ?_, ?_, ?_, ?_⟩
  · exact (hreach 2).mpr (Sounds.found_main.callee Sounds.mem_sitesIn_main hcat)
  · exact (hedges _ _).mpr ⟨0, Sounds.found_main, Sounds.mem_sitesIn_main, hcat⟩
  · intro hmem
    cases (hreach' 2).mp hmem with
    | entry hm => exact absurd hm (by decide)
    | callee _ hsite hk => exact hnone _ _ hsite hk
  · intro hedge
    obtain ⟨m, -, hsite, hk⟩ := (hedges' _ _).mp hedge
    exact hnone _ _ hsite hk

end ClassHierarchyAnalysis

end WholeProgram
