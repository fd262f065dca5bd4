import WholeProgram.Proofs.Builder.Represents
import WholeProgram.Proofs.CallGraph.ClassHierarchy
import WholeProgram.Proofs.Data.Explore

/-!
# The class hierarchy of a program that was built

Classes are created after their super classes, but interfaces may be linked later and in cycles, and a
class may name an interface twice. Yet the views of the hierarchy are exact:

* `mem_allSubclasses_iff` — below a class is what names it, over any number of steps (`Extends`);
* `dispatch_eq_some_iff` — dispatch finds the concrete method (`Declares`) of the nearest class on the
  chain of super classes (`superAt`);
* `resolve_below_spec` — a virtual or an interface call runs what the concrete classes below dispatch to;
* `hierarchy_resolution_exact` — all this, for every program that a builder makes.
-/

namespace WholeProgram

open Relation (ReflTransGen)

namespace Program

variable {p : Program} {c d k n fuel : Nat} {m : MethodId} {subsig : String}

/-- The class `k` names `c` as its super class or as one of its interfaces. -/
def Extends (p : Program) (c k : ClassId) : Prop :=
  ∃ d, p.classes[k]? = some d ∧ (d.super = some c ∨ c ∈ d.interfaces)

/-- The class `n` steps up the chain of super classes. -/
def superAt (p : Program) (c : ClassId) : Nat → Option ClassId
  | 0 => some c
  | n + 1 => (p.superOf c).bind fun s => p.superAt s n

/-- The class declares the method with the subsignature, and the method is not abstract. -/
def Declares (p : Program) (c : ClassId) (subsig : String) (m : MethodId) : Prop :=
  m < p.methods.size ∧ (p.method m).cls = c ∧ (p.method m).subsig = subsig ∧ (p.method m).isAbstract = false

/-- The method is the one that the nearest class on the chain of super classes declares. -/
def Inherits (p : Program) (c : ClassId) (subsig : String) (m : MethodId) : Prop :=
  ∃ n d, p.superAt c n = some d ∧ p.Declares d subsig m ∧
    ∀ i < n, ∀ e, p.superAt c i = some e → ∀ k, ¬ p.Declares e subsig k

/-! ## The chain of super classes -/

theorem getElem?_superChain_go : (superChain.go p fuel c)[n]? = if n < fuel then p.superAt c n else none := by
  induction fuel generalizing c n with
  | zero => rfl
  | succ fuel ih =>
    unfold superChain.go
    cases n with
    | zero => rfl
    | succ n =>
      rw [List.getElem?_cons_succ, superAt]
      cases p.superOf c with
      | none => simp
      | some s => simp [ih]

/-- Super classes come before their subclasses. -/
def SupersFirst (p : Program) : Prop := ∀ c s : Nat, p.superOf c = some s → s < c

theorem SupersFirst.superAt_le (h : p.SupersFirst) (hd : p.superAt c n = some d) : d + n ≤ c := by
  induction n generalizing c with
  | zero => exact (Option.some.inj hd).symm.le
  | succ n ih =>
    obtain ⟨s, hs, hd⟩ := Option.bind_eq_some_iff.mp hd
    have := h c s hs
    have := ih hd
    omega

/-- A chain lists all super classes: it is long enough. -/
theorem SupersFirst.getElem?_superChain (h : p.SupersFirst) (hc : c < p.classes.size) (n : Nat) :
    (p.superChain c)[n]? = p.superAt c n := by
  unfold superChain
  rw [getElem?_superChain_go]
  split
  · rfl
  · rename_i hn
    cases hd : p.superAt c n with
    | none => rfl
    | some d =>
      have := h.superAt_le hd
      omega

/-- Dispatch finds the method of the nearest class that has one. -/
theorem SupersFirst.dispatch_eq_some (h : p.SupersFirst) (hc : c < p.classes.size) :
    p.dispatch c subsig = some m ↔ ∃ n d, p.superAt c n = some d ∧ p.concreteMethod? d subsig = some m ∧
      ∀ k < n, ∀ e, p.superAt c k = some e → p.concreteMethod? e subsig = none := by
  unfold dispatch
  rw [List.findSome?_eq_some_iff]
  constructor
  · rintro ⟨near, d, far, hchain, hm, hnone⟩
    have hat := h.getElem?_superChain hc
    rw [hchain] at hat
    refine ⟨near.length, d, ?_, hm, fun k hk e he => hnone e ?_⟩
    · rw [← hat, List.getElem?_append_right (Nat.le_refl _), Nat.sub_self]
      rfl
    · rw [← hat, List.getElem?_append_left hk] at he
      exact List.mem_of_getElem? he
  · rintro ⟨n, d, hd, hm, hnone⟩
    rw [← h.getElem?_superChain hc] at hd
    obtain ⟨hn, hget⟩ := List.getElem?_eq_some_iff.mp hd
    refine ⟨(p.superChain c).take n, d, (p.superChain c).drop (n + 1), ?_, hm, fun e he => ?_⟩
    · rw [← hget, ← List.drop_eq_getElem_cons hn, List.take_append_drop]
    · obtain ⟨k, hk⟩ := List.mem_iff_getElem?.mp he
      rw [List.getElem?_take] at hk
      split at hk
      · rename_i hkn
        rw [h.getElem?_superChain hc] at hk
        exact hnone k hkn e hk
      · cases hk

theorem SupersFirst.dispatch_eq_none (h : p.SupersFirst) (hc : c < p.classes.size) :
    p.dispatch c subsig = none ↔ ∀ n d, p.superAt c n = some d → p.concreteMethod? d subsig = none := by
  unfold dispatch
  rw [List.findSome?_eq_none_iff]
  constructor
  · exact fun hall n d hd => hall d (List.mem_of_getElem? (h.getElem?_superChain hc n ▸ hd))
  · intro hall d hd
    obtain ⟨n, hn⟩ := List.mem_iff_getElem?.mp hd
    exact hall n d (h.getElem?_superChain hc n ▸ hn)

/-! ## Virtual and interface calls -/

/-- What dispatch from a list of classes finds, it finds for one of them. -/
theorem exists_of_mem_dispatchAll (cs : List ClassId) (found : List MethodId)
    (h : m ∈ (p.dispatchAll subsig cs found).1) : m ∈ found ∨ ∃ c ∈ cs, p.dispatch c subsig = some m := by
  induction cs generalizing found with
  | nil => exact Or.inl h
  | cons c cs ih =>
    unfold dispatchAll at h
    cases hc : p.dispatch c subsig with
    | none =>
      rw [hc] at h
      exact Or.inl h
    | some k =>
      rw [hc] at h
      rcases ih _ h with hm | ⟨e, he, hem⟩
      · split at hm
        · exact Or.inl hm
        · rcases List.mem_append.mp hm with hm | hm
          · exact Or.inl hm
          · exact Or.inr ⟨c, List.mem_cons_self, List.mem_singleton.mp hm ▸ hc⟩
      · exact Or.inr ⟨e, List.mem_cons_of_mem c he, hem⟩

/-- Dispatch from a list of classes fails at a class for which there is no method. -/
theorem failed_dispatchAll (cs : List ClassId) (found : List MethodId)
    (h : (p.dispatchAll subsig cs found).2 = some c) : c ∈ cs ∧ p.dispatch c subsig = none := by
  induction cs generalizing found with
  | nil => cases h
  | cons e cs ih =>
    unfold dispatchAll at h
    cases he : p.dispatch e subsig with
    | none =>
      rw [he] at h
      obtain rfl := Option.some.inj h
      exact ⟨List.mem_cons_self, he⟩
    | some k =>
      rw [he] at h
      exact (ih _ h).imp_left (List.mem_cons_of_mem e)

variable {site : Site} {call : Call}

/-- A virtual or an interface call runs the methods that the concrete classes below dispatch to, each
listed once; it has an error when one of them has none. -/
theorem resolve_below_spec (hkind : call.kind = .virtual ∨ call.kind = .interface) :
    ∃ r, p.resolve site call = .ok r ∧ r.callees.Nodup ∧
      (r.error = none → ∀ m, m ∈ r.callees ↔
        ∃ c ∈ p.concreteBelow call.ref.cls, p.dispatch c call.ref.subsig = some m) ∧
      (r.error ≠ none ↔ ∃ c ∈ p.concreteBelow call.ref.cls, p.dispatch c call.ref.subsig = none) ∧
      ∀ e, r.error = some e → e.kind = call.kind ∧ e.subsig = call.ref.subsig ∧ e.site = some site ∧
        e.cls ∈ p.concreteBelow call.ref.cls ∧ p.dispatch e.cls call.ref.subsig = none := by
  have hr : p.resolve site call = .ok {
      callees := (p.dispatchAll call.ref.subsig (p.concreteBelow call.ref.cls) []).1
      error := (p.dispatchAll call.ref.subsig (p.concreteBelow call.ref.cls) []).2.map fun c =>
        { kind := call.kind, cls := c, subsig := call.ref.subsig, site := some site } } := by
    rcases hkind with hkind | hkind <;> simp only [resolve, hkind] <;> rfl
  refine ⟨_, hr, (dispatchAll_spec _ List.nodup_nil fun m hm => by cases hm).1, fun hnone m => ?_, ?_,
    fun e he => ?_⟩
  · obtain ⟨-, hall⟩ := mem_dispatchAll _ [] (Option.map_eq_none_iff.mp hnone)
    constructor
    · exact fun hm => (exists_of_mem_dispatchAll _ [] hm).resolve_left List.not_mem_nil
    · rintro ⟨c, hc, hm⟩
      obtain ⟨k, hk, hck⟩ := hall c hc
      obtain rfl := Option.some.inj (hm.symm.trans hck)
      exact hk
  · constructor
    · intro hne
      obtain ⟨e, he⟩ := Option.ne_none_iff_exists'.mp hne
      obtain ⟨c, hc, -⟩ := Option.map_eq_some_iff.mp he
      exact ⟨c, failed_dispatchAll _ [] hc⟩
    · rintro ⟨c, hc, hcnone⟩ hnone
      obtain ⟨m, -, hm⟩ := (mem_dispatchAll _ [] (Option.map_eq_none_iff.mp hnone)).2 c hc
      cases hcnone.symm.trans hm
  · obtain ⟨c, hc, rfl⟩ := Option.map_eq_some_iff.mp he
    exact ⟨rfl, rfl, rfl, failed_dispatchAll _ [] hc⟩

end Program

/-! ## Programs that were built -/

namespace Builder

variable {b : Builder} {p : Program} {c k : Nat} {m : MethodId} {subsig : String}

/-- The classes and their members are in order when the calls met no fault. -/
theorem Session.tables (h : Session b) (hok : b.errors = #[]) : Hierarchy b.classes ∧ Members b := by
  induction h with
  | start => exact ⟨empty_hierarchy, empty_members⟩
  | call _ hrefers hperform ih =>
    obtain ⟨hold, heffect⟩ := Operation.perform_effect hperform hok
    obtain ⟨hhierarchy, hmembers⟩ := ih hold
    exact ⟨heffect.hierarchy hrefers hok hhierarchy, heffect.members hrefers hok hmembers⟩

namespace Hierarchy

theorem supersFirst (h : Hierarchy p.classes) : p.SupersFirst := by
  intro c s hs
  obtain ⟨d, hd, hs⟩ := Option.bind_eq_some_iff.mp hs
  exact h.super_lt c s d hd hs

/-- The subclasses that a class lists are those that name it. -/
theorem mem_subclassesOf_iff (h : Hierarchy p.classes) :
    k ∈ p.subclassesOf c ∧ k < p.classes.size ↔ p.Extends c k := by
  constructor
  · rintro ⟨hk, hlt⟩
    have hd := Array.getElem?_eq_getElem hlt
    exact ⟨_, hd, (h.mem_subclassesOf hd).mp hk⟩
  · rintro ⟨d, hd, hnames⟩
    exact ⟨(h.mem_subclassesOf hd).mpr hnames, lt_size_of_getElem? hd⟩

/-- Below a class is what names it, over any number of steps. -/
theorem mem_allSubclasses_iff (h : Hierarchy p.classes) (hc : c < p.classes.size) :
    k ∈ p.allSubclasses c ↔ ReflTransGen p.Extends c k := by
  have hstep : (fun v w => w ∈ p.subclassesOf v ∧ w < p.classes.size) = p.Extends := by
    funext v w
    exact propext h.mem_subclassesOf_iff
  unfold Program.allSubclasses
  rw [Explore.mem_order_iff, hstep]
  constructor
  · rintro ⟨s, hs, -, hreach⟩
    exact List.mem_singleton.mp hs ▸ hreach
  · exact fun hreach => ⟨c, List.mem_cons_self, hc, hreach⟩

end Hierarchy

namespace Contents

theorem concreteMethod_iff (hp : Contents b p) (h : Members b) :
    p.concreteMethod? c subsig = some m ↔ p.Declares c subsig m := by
  unfold Program.concreteMethod?
  rw [Option.filter_eq_some_iff, hp.declaredMethod_iff h, and_assoc, and_assoc, Bool.not_eq_true']
  rfl

theorem concreteMethod_eq_none (hp : Contents b p) (h : Members b) :
    p.concreteMethod? c subsig = none ↔ ∀ m, ¬ p.Declares c subsig m := by
  rw [Option.eq_none_iff_forall_ne_some]
  exact forall_congr' fun m => not_congr (hp.concreteMethod_iff h)

theorem dispatch_eq_some_iff (hp : Contents b p) (h : Members b) (hsupers : p.SupersFirst)
    (hc : c < p.classes.size) : p.dispatch c subsig = some m ↔ p.Inherits c subsig m := by
  rw [hsupers.dispatch_eq_some hc]
  unfold Program.Inherits
  simp only [hp.concreteMethod_iff h, hp.concreteMethod_eq_none h]

theorem dispatch_eq_none_iff (hp : Contents b p) (h : Members b) (hsupers : p.SupersFirst)
    (hc : c < p.classes.size) :
    p.dispatch c subsig = none ↔ ∀ n d, p.superAt c n = some d → ∀ m, ¬ p.Declares d subsig m := by
  rw [hsupers.dispatch_eq_none hc]
  simp only [hp.concreteMethod_eq_none h]

end Contents

/-- The class hierarchy of every program that is built is resolved as its classes say: the subclasses of a
class are listed after it, each once; dispatch finds the nearest concrete method, if there is one; and a
virtual or an interface call runs what the concrete subclasses dispatch to, or has an error for one of them
that has no method. -/
theorem hierarchy_resolution_exact (h : Session b) (hb : b.build = .ok p) :
    (∀ c < p.classes.size, (∃ rest, p.allSubclasses c = c :: rest) ∧ (p.allSubclasses c).Nodup ∧
      ∀ k, k ∈ p.allSubclasses c ↔ ReflTransGen p.Extends c k) ∧
    (∀ c < p.classes.size, ∀ subsig,
      (∀ m, p.dispatch c subsig = some m ↔ p.Inherits c subsig m) ∧
      (p.dispatch c subsig = none ↔ ∀ n d, p.superAt c n = some d → ∀ m, ¬ p.Declares d subsig m)) ∧
    ∀ (site : Site) (call : Call), call.kind = .virtual ∨ call.kind = .interface →
      ∃ r, p.resolve site call = .ok r ∧ r.callees.Nodup ∧
        (r.error = none → ∀ m, m ∈ r.callees ↔
          ∃ c ∈ p.concreteBelow call.ref.cls, p.dispatch c call.ref.subsig = some m) ∧
        (r.error ≠ none ↔ ∃ c ∈ p.concreteBelow call.ref.cls, p.dispatch c call.ref.subsig = none) ∧
        ∀ e, r.error = some e → e.kind = call.kind ∧ e.subsig = call.ref.subsig ∧ e.site = some site ∧
          e.cls ∈ p.concreteBelow call.ref.cls ∧ p.dispatch e.cls call.ref.subsig = none := by
  obtain ⟨hok, hclasses, hfields, hvars, hmethods, -⟩ := build_ok hb
  have hp : Contents b p := ⟨hclasses, hfields, hvars, hmethods⟩
  obtain ⟨hhierarchy, hmembers⟩ := h.tables hok
  rw [← hclasses] at hhierarchy
  have hsupers := hhierarchy.supersFirst
  exact ⟨fun c hc => ⟨Explore.order_singleton hc, Explore.nodup_order, fun k =>
      hhierarchy.mem_allSubclasses_iff hc⟩,
    fun c hc subsig => ⟨fun m => hp.dispatch_eq_some_iff hmembers hsupers hc,
      hp.dispatch_eq_none_iff hmembers hsupers hc⟩,
    fun site call hkind => Program.resolve_below_spec hkind⟩

/-- Two interfaces that extend each other, a class that names one of them as its super class too, a class
below it over two ways, and an abstract method in between. -/
def linkedShapes : List Operation :=
  [.addClass "Shape" .interface none [], .addClass "Sized" .interface none [0], .implement 0 1,
   .addClass "Base" .concrete (some 0) [0], .addClass "Left" .interface none [1],
   .addClass "Right" .interface none [1], .addClass "Box" .abstract (some 2) [3, 4],
   .addClass "Cube" .concrete (some 5) [], .addMethod 2 { name := "area" },
   .addMethod 5 { name := "area", isAbstract := true }]

theorem hierarchy_resolution_exact_linkedShapes : ∃ b p, Session b ∧ b.build = .ok p ∧
    p.allSubclasses 1 = [1, 0, 3, 4, 2, 5, 6] ∧ ReflTransGen p.Extends 1 6 ∧ p.Inherits 6 "area()" 0 := by
  have hrun : ((performAll? {} linkedShapes).bind fun b => b.build.toOption).map
      (fun p => (p.classes.size, p.allSubclasses 1, p.dispatch 6 "area()")) =
        some (7, [1, 0, 3, 4, 2, 5, 6], some 0) := by decide +kernel
  obtain ⟨p, hp, heq⟩ := Option.map_eq_some_iff.mp hrun
  obtain ⟨hsize, hbelow, hdispatch⟩ : p.classes.size = 7 ∧ p.allSubclasses 1 = [1, 0, 3, 4, 2, 5, 6] ∧
      p.dispatch 6 "area()" = some 0 := by simpa using heq
  obtain ⟨b, hb, hbuild⟩ := Option.bind_eq_some_iff.mp hp
  have hsession : Session b := (History.nil.performAll hb).session
  have hok : b.build = .ok p := by
    cases hresult : b.build with
    | error e =>
      rw [hresult] at hbuild
      cases hbuild
    | ok q =>
      rw [hresult] at hbuild
      exact congrArg _ (Option.some.inj hbuild)
  obtain ⟨hclasses, hmethods, -⟩ := hierarchy_resolution_exact hsession hok
  refine ⟨b, p, hsession, hok, hbelow, ?_, ?_⟩
  · exact ((hclasses 1 (by omega)).2.2 6).mp (by rw [hbelow]; decide)
  · exact ((hmethods 6 (by omega) "area()").1 0).mp hdispatch

end Builder

end WholeProgram
