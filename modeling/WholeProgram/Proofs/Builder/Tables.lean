import WholeProgram.Proofs.Builder.Operations

/-!
# The tables of a builder

What the calls of a builder keep, as long as there is no fault, about its tables.

* `Builder.Hierarchy` — classes have different names, super classes come first, and a class has as
  subclasses those that name it as super class or interface;
* `Builder.Roster` — each class lists its members, in order, and no two of them have one name; the
  methods by their subsignatures are one such table, the fields by their names the other;
* `Builder.Variables` — a variable stands at its index among the variables of its method.
-/

namespace WholeProgram

/-- An entry of a modified table comes from an entry of the table. -/
theorem getElem?_modify_eq_some {α : Type} {a : Array α} {i k : Nat} {f : α → α} {y : α} :
    (a.modify i f)[k]? = some y ↔ ∃ x, a[k]? = some x ∧ (if i = k then f x else x) = y := by
  rw [Array.getElem?_modify]
  split
  · rw [Option.map_eq_some_iff]
  · exact ⟨fun h => ⟨y, h, rfl⟩, fun ⟨x, hx, heq⟩ => heq ▸ hx⟩

theorem getElem?_push_eq_some {α : Type} {a : Array α} {k : Nat} {x y : α} :
    (a.push x)[k]? = some y ↔ a[k]? = some y ∨ k = a.size ∧ x = y := by
  rw [Array.getElem?_push]
  split
  · rename_i hk
    subst hk
    simp
  · rename_i hk
    simp [hk]

theorem lt_size_of_getElem? {α : Type} {a : Array α} {k : Nat} {x : α} (h : a[k]? = some x) : k < a.size :=
  (Array.getElem?_eq_some_iff.mp h).1

/-- What a change of an entry leaves alone is the same in the whole table. -/
theorem map_modify_of_same {α β : Type} {g : α → β} {f : α → α} {a : Array α} {i : Nat}
    (hf : ∀ x, g (f x) = g x) : (a.modify i f).map g = a.map g := by
  refine Array.ext_getElem? fun k => ?_
  rw [Array.getElem?_map, Array.getElem?_map, Array.getElem?_modify]
  split
  · rw [Option.map_map, show g ∘ f = g from funext hf]
  · rfl

/-- The class and the subsignature of a method. -/
def Draft.key (d : Draft) : ClassId × String := (d.header.cls, d.header.subsig)

namespace Builder

variable {b b' : Builder} {ops : List Operation}

/-! ## The hierarchy -/

structure Hierarchy (classes : Array Class) : Prop where
  names : ∀ (c k : Nat) (d e : Class), classes[c]? = some d → classes[k]? = some e → d.name = e.name → c = k
  super_lt : ∀ (c s : Nat) (d : Class), classes[c]? = some d → d.super = some s → s < c
  subclasses : ∀ (c k : Nat) (d e : Class), classes[c]? = some d → classes[k]? = some e →
    (k ∈ d.subclasses ↔ e.super = some c ∨ c ∈ e.interfaces)
  subclass_lt : ∀ (c k : Nat) (d : Class), classes[c]? = some d → k ∈ d.subclasses → k < classes.size
  interface_lt : ∀ (c i : Nat) (d : Class), classes[c]? = some d → i ∈ d.interfaces → i < classes.size

/-- A table of classes with one more link from `c` to its interface `i`. -/
theorem Hierarchy.link {classes classes' : Array Class} {c i : Nat} (h : Hierarchy classes)
    (hc : c < classes.size) (hi : i < classes.size) (hsize : classes'.size = classes.size)
    (hlink : ∀ (k : Nat) (e' : Class), classes'[k]? = some e' → ∃ e, classes[k]? = some e ∧
      e'.name = e.name ∧ e'.super = e.super ∧
      (∀ j, j ∈ e'.interfaces ↔ j ∈ e.interfaces ∨ k = c ∧ j = i) ∧
      ∀ j, j ∈ e'.subclasses ↔ j ∈ e.subclasses ∨ k = i ∧ j = c) :
    Hierarchy classes' where
  names k₁ k₂ d' e' hd' he' hname := by
    obtain ⟨d, hd, hdname, -⟩ := hlink k₁ d' hd'
    obtain ⟨e, he, hename, -⟩ := hlink k₂ e' he'
    exact h.names k₁ k₂ d e hd he (hdname ▸ hename ▸ hname)
  super_lt k s d' hd' hs := by
    obtain ⟨d, hd, -, hsuper, -⟩ := hlink k d' hd'
    exact h.super_lt k s d hd (hsuper ▸ hs)
  subclasses k₁ k₂ d' e' hd' he' := by
    obtain ⟨d, hd, -, -, -, hsub⟩ := hlink k₁ d' hd'
    obtain ⟨e, he, -, hsuper, hinterfaces, -⟩ := hlink k₂ e' he'
    rw [hsub, hsuper, hinterfaces, h.subclasses k₁ k₂ d e hd he]
    tauto
  subclass_lt k j d' hd' hj := by
    obtain ⟨d, hd, -, -, -, hsub⟩ := hlink k d' hd'
    rw [hsize]
    rcases (hsub j).mp hj with hj | ⟨-, rfl⟩
    · exact h.subclass_lt k j d hd hj
    · exact hc
  interface_lt k j d' hd' hj := by
    obtain ⟨d, hd, -, -, hinterfaces, -⟩ := hlink k d' hd'
    rw [hsize]
    rcases (hinterfaces j).mp hj with hj | ⟨-, rfl⟩
    · exact h.interface_lt k j d hd hj
    · exact hi

/-- Members of classes do not matter. -/
theorem Hierarchy.modify {classes : Array Class} (h : Hierarchy classes) (c : Nat) {f : Class → Class}
    (hf : ∀ d, (f d).name = d.name ∧ (f d).super = d.super ∧ (f d).interfaces = d.interfaces ∧
      (f d).subclasses = d.subclasses) : Hierarchy (classes.modify c f) := by
  have hsame : ∀ (k : Nat) (e' : Class), (classes.modify c f)[k]? = some e' → ∃ e, classes[k]? = some e ∧
      e'.name = e.name ∧ e'.super = e.super ∧ e'.interfaces = e.interfaces ∧
      e'.subclasses = e.subclasses := by
    intro k e' he'
    obtain ⟨e, he, rfl⟩ := getElem?_modify_eq_some.mp he'
    refine ⟨e, he, ?_⟩
    split
    · exact hf e
    · exact ⟨rfl, rfl, rfl, rfl⟩
  constructor
  · intro k₁ k₂ d' e' hd' he' hname
    obtain ⟨d, hd, hdname, -⟩ := hsame k₁ d' hd'
    obtain ⟨e, he, hename, -⟩ := hsame k₂ e' he'
    exact h.names k₁ k₂ d e hd he (hdname ▸ hename ▸ hname)
  · intro k s d' hd' hs
    obtain ⟨d, hd, -, hsuper, -⟩ := hsame k d' hd'
    exact h.super_lt k s d hd (hsuper ▸ hs)
  · intro k₁ k₂ d' e' hd' he'
    obtain ⟨d, hd, -, -, -, hsub⟩ := hsame k₁ d' hd'
    obtain ⟨e, he, -, hsuper, hinterfaces, -⟩ := hsame k₂ e' he'
    rw [hsub, hsuper, hinterfaces, h.subclasses k₁ k₂ d e hd he]
  · intro k j d' hd' hj
    obtain ⟨d, hd, -, -, -, hsub⟩ := hsame k d' hd'
    rw [Array.size_modify]
    exact h.subclass_lt k j d hd (hsub ▸ hj)
  · intro k j d' hd' hj
    obtain ⟨d, hd, -, -, hinterfaces, -⟩ := hsame k d' hd'
    rw [Array.size_modify]
    exact h.interface_lt k j d hd (hinterfaces ▸ hj)

/-- The classes with one more link, from `c` to its interface `i`. -/
def linkInterface (classes : Array Class) (c i : ClassId) : Array Class :=
  let classes := classes.modify c fun d => { d with interfaces := d.interfaces.push i }
  classes.modify i fun d => { d with subclasses := d.subclasses.push c }

/-- A link is there, or it is made. -/
theorem implement_eq {c i : ClassId} (h : (b.implement c i).errors = #[]) :
    b.implement c i = b ∨ b.implement c i = { b with classes := linkInterface b.classes c i } := by
  unfold implement at h ⊢
  split at h
  · exact absurd h (errors_fail _ _)
  · rename_i hinterface
    rw [if_neg hinterface]
    split
    · exact Or.inl rfl
    · exact Or.inr rfl

theorem Hierarchy.implement {c i : ClassId} (h : Hierarchy b.classes) (hc : c < b.classes.size)
    (hi : i < b.classes.size) (hok : (b.implement c i).errors = #[]) :
    Hierarchy (b.implement c i).classes := by
  rcases implement_eq hok with heq | heq
  · rwa [heq]
  · rw [heq]
    refine h.link hc hi (by simp [linkInterface]) fun k e' he' => ?_
    obtain ⟨e₁, he₁, rfl⟩ := getElem?_modify_eq_some.mp he'
    obtain ⟨e, he, rfl⟩ := getElem?_modify_eq_some.mp he₁
    refine ⟨e, he, ?_⟩
    -- the two changes may be of one class: an interface can extend itself
    by_cases hkc : c = k <;> by_cases hki : i = k <;> simp [hkc, hki, eq_comm]

/-- A class that is opened comes after all others, and is linked to its super class. -/
theorem getElem?_openClass {name : String} {form : ClassForm} {super : Option ClassId} {k : Nat} {e' : Class}
    (hsuper : ∀ s, super = some s → s < b.classes.size)
    (he' : (b.openClass name form super).classes[k]? = some e') :
    (k = b.classes.size ∧ e'.name = name ∧ e'.super = super ∧ e'.interfaces = #[] ∧ e'.subclasses = #[] ∧
      e'.methods = #[] ∧ e'.fields = #[]) ∨
    ∃ e, b.classes[k]? = some e ∧ e'.name = e.name ∧ e'.super = e.super ∧ e'.interfaces = e.interfaces ∧
      (∀ j, j ∈ e'.subclasses ↔ j ∈ e.subclasses ∨ super = some k ∧ j = b.classes.size) ∧
      e'.methods = e.methods ∧ e'.fields = e.fields := by
  unfold openClass at he'
  cases super with
  | none =>
    rcases getElem?_push_eq_some.mp he' with he | ⟨rfl, rfl⟩
    · exact Or.inr ⟨e', he, by simp⟩
    · exact Or.inl (by simp)
  | some s =>
    obtain ⟨e, he, rfl⟩ := getElem?_modify_eq_some.mp he'
    rcases getElem?_push_eq_some.mp he with he | ⟨rfl, rfl⟩
    · refine Or.inr ⟨e, he, ?_⟩
      by_cases hk : s = k <;> simp [hk]
    · rw [if_neg (Nat.ne_of_lt (hsuper s rfl))]
      exact Or.inl (by simp)

theorem size_openClass (b : Builder) (name : String) (form : ClassForm) (super : Option ClassId) :
    (b.openClass name form super).classes.size = b.classes.size + 1 := by
  unfold openClass
  cases super <;> simp

theorem Hierarchy.openClass {name : String} (form : ClassForm) {super : Option ClassId}
    (h : Hierarchy b.classes) (hfind : b.findClass? name = none)
    (hsuper : ∀ s, super = some s → s < b.classes.size) :
    Hierarchy (b.openClass name form super).classes := by
  have hfresh : ∀ (k : Nat) (e : Class), b.classes[k]? = some e → e.name ≠ name := by
    intro k e he
    have := Array.findIdx?_eq_none_iff.mp hfind e (Array.mem_of_getElem? he)
    simpa using this
  have hsize := size_openClass b name form super
  constructor
  · intro k₁ k₂ d' e' hd' he' hname
    rcases getElem?_openClass hsuper hd' with ⟨rfl, hd, -⟩ | ⟨d, hd, hdname, -⟩ <;>
      rcases getElem?_openClass hsuper he' with ⟨rfl, he, -⟩ | ⟨e, he, hename, -⟩
    · rfl
    · exact absurd (hename ▸ hname ▸ hd) (hfresh _ e he)
    · exact absurd (hdname ▸ hname ▸ he) (hfresh _ d hd)
    · exact h.names k₁ k₂ d e hd he (hdname ▸ hename ▸ hname)
  · intro k s d' hd' hs
    rcases getElem?_openClass hsuper hd' with ⟨rfl, -, hd, -⟩ | ⟨d, hd, -, hdsuper, -⟩
    · exact hsuper s (hd ▸ hs)
    · exact h.super_lt k s d hd (hdsuper ▸ hs)
  · intro k₁ k₂ d' e' hd' he'
    rcases getElem?_openClass hsuper hd' with ⟨rfl, -, hdsuper, hdi, hds, -⟩ | ⟨d, hd, -, hdsuper, hdi, hds, -⟩ <;>
      rcases getElem?_openClass hsuper he' with ⟨rfl, -, hesuper, hei, -⟩ | ⟨e, he, -, hesuper, hei, -⟩
    · simp only [hds, hesuper, hei, Array.not_mem_empty, or_false, false_iff]
      intro heq
      exact absurd (hsuper _ heq) (Nat.lt_irrefl _)
    · simp only [hds, hesuper, hei, Array.not_mem_empty, false_iff]
      rintro (heq | hmem)
      · have := h.super_lt _ _ e he heq
        have := lt_size_of_getElem? he
        omega
      · exact absurd (h.interface_lt _ _ e he hmem) (Nat.lt_irrefl _)
    · rw [hds, hesuper, hei]
      have : ¬ b.classes.size ∈ d.subclasses := fun hmem => absurd (h.subclass_lt _ _ d hd hmem) (Nat.lt_irrefl _)
      simp [this]
    · rw [hds, hesuper, hei, h.subclasses k₁ k₂ d e hd he]
      have : k₂ ≠ b.classes.size := Nat.ne_of_lt (lt_size_of_getElem? he)
      simp [this]
  · intro k j d' hd' hj
    rw [hsize]
    rcases getElem?_openClass hsuper hd' with ⟨-, -, -, -, hds, -⟩ | ⟨d, hd, -, -, -, hds, -⟩
    · rw [hds] at hj
      cases Array.not_mem_empty _ hj
    · rcases (hds j).mp hj with hj | ⟨-, rfl⟩
      · exact Nat.lt_succ_of_lt (h.subclass_lt k j d hd hj)
      · exact Nat.lt_succ_self _
  · intro k j d' hd' hj
    rw [hsize]
    rcases getElem?_openClass hsuper hd' with ⟨-, -, -, hdi, -⟩ | ⟨d, hd, -, -, hdi, -⟩
    · rw [hdi] at hj
      cases Array.not_mem_empty _ hj
    · exact Nat.lt_succ_of_lt (h.interface_lt k j d hd (hdi ▸ hj))

/-- What each new link keeps, all interfaces of a new class keep. -/
theorem foldl_implement {P : Builder → Prop} {c : ClassId} {interfaces : List ClassId}
    (hstep : ∀ b : Builder, ∀ i ∈ interfaces, (b.implement c i).errors = #[] → P b → P (b.implement c i))
    (hok : (interfaces.foldl (fun b i => b.implement c i) b).errors = #[]) (h : P b) :
    P (interfaces.foldl (fun b i => b.implement c i) b) := by
  induction interfaces generalizing b with
  | nil => exact h
  | cons i interfaces ih =>
    exact ih (fun b j hj => hstep b j (List.mem_cons_of_mem _ hj)) hok
      (hstep b i List.mem_cons_self (errors_foldl_implement hok) h)

theorem size_classes_implement (b : Builder) (c i : ClassId) :
    (b.implement c i).classes.size = b.classes.size := by
  unfold implement
  split
  · rfl
  · split
    · rfl
    · simp

theorem Effect.hierarchy {o : Operation} (he : Effect b o b') (hrefers : o.Refers b) (hok : b'.errors = #[])
    (h : Hierarchy b.classes) : Hierarchy b'.classes := by
  cases he with
  | addClass form super interfaces hfind =>
    obtain ⟨hsuper, hinterfaces⟩ := hrefers
    have hopen := h.openClass form hfind hsuper
    refine (foldl_implement (P := fun b₁ => Hierarchy b₁.classes ∧ b₁.classes.size = b.classes.size + 1)
      (fun b₁ i hi hok₁ hb₁ => ?_) hok ⟨hopen, size_openClass ..⟩).1
    obtain ⟨hb₁, hsize⟩ := hb₁
    have hnew : b.classes.size < b₁.classes.size := hsize ▸ Nat.lt_succ_self _
    exact ⟨hb₁.implement hnew (Nat.lt_trans (hinterfaces i hi) hnew) hok₁,
      (size_classes_implement ..).trans hsize⟩
  | implement c i => exact h.implement hrefers.1 hrefers.2 hok
  | addField ty isStatic | ensureField ty =>
    unfold pushField
    dsimp only
    exact h.modify _ fun _ => ⟨rfl, rfl, rfl, rfl⟩
  | @addMethod c spec hnew =>
    have hdeclare : Hierarchy (b.declare c spec).classes := (errors_declare b c spec).2.1 ▸ h
    unfold listMethod
    dsimp only
    exact hdeclare.modify _ fun _ => ⟨rfl, rfl, rfl, rfl⟩
  | _ => exact h

/-! ## Members of classes -/

/-- A table whose entries belong to classes and have names there; `list?` is what a class lists. -/
structure Roster (keys : List (ClassId × String)) (size : Nat) (list? : Nat → Option (List Nat)) : Prop where
  owner : ∀ q ∈ keys, q.1 < size
  listed : ∀ c ns, list? c = some ns →
    ns = (List.range keys.length).filter fun n => keys[n]?.any (·.1 == c)
  nodup : keys.Nodup

/-- New classes list nothing. -/
theorem Roster.grow {keys : List (ClassId × String)} {size size' : Nat} {list? list?' : Nat → Option (List Nat)}
    (h : Roster keys size list?) (hsize : size ≤ size')
    (hlist : ∀ c ns, list?' c = some ns → list? c = some ns ∨ size ≤ c ∧ ns = []) :
    Roster keys size' list?' where
  owner q hq := Nat.lt_of_lt_of_le (h.owner q hq) hsize
  listed c ns hns := by
    rcases hlist c ns hns with hns | ⟨hc, rfl⟩
    · exact h.listed c ns hns
    · refine (List.filter_eq_nil_iff.mpr fun n _ hn => ?_).symm
      obtain ⟨q, hq, hcls⟩ := (Option.any_eq_true _ _).mp hn
      have hlt := h.owner q (List.mem_of_getElem? hq)
      rw [beq_iff_eq.mp hcls] at hlt
      exact Nat.not_lt.mpr hc hlt
  nodup := h.nodup

/-- The class of a new entry lists it at the end. -/
theorem Roster.push {keys : List (ClassId × String)} {size c : Nat} {s : String}
    {list? list?' : Nat → Option (List Nat)} (h : Roster keys size list?) (hc : c < size)
    (hnew : (c, s) ∉ keys)
    (hlist : ∀ k ns', list?' k = some ns' → ∃ ns, list? k = some ns ∧
      ns' = if c = k then ns ++ [keys.length] else ns) :
    Roster (keys ++ [(c, s)]) size list?' where
  owner q hq := by
    rcases List.mem_append.mp hq with hq | hq
    · exact h.owner q hq
    · obtain rfl := List.mem_singleton.mp hq
      exact hc
  listed k ns' hns' := by
    obtain ⟨ns, hns, rfl⟩ := hlist k ns' hns'
    have hold : (List.range keys.length).filter (fun n => (keys ++ [(c, s)])[n]?.any (·.1 == k)) = ns := by
      rw [h.listed k ns hns]
      refine List.filter_congr fun n hn => ?_
      rw [List.getElem?_append_left (List.mem_range.mp hn)]
    rw [List.length_append, List.length_singleton, List.range_succ, List.filter_append, hold]
    by_cases hk : c = k <;> simp [hk]
  nodup := by
    rw [List.nodup_append]
    exact ⟨h.nodup, by simp, fun q hq r hr heq => hnew (List.mem_singleton.mp hr ▸ heq ▸ hq)⟩

/-- A class lists all of its members. -/
theorem Roster.mem_list {keys : List (ClassId × String)} {size c : Nat} {list? : Nat → Option (List Nat)}
    {ns : List Nat} (h : Roster keys size list?) (hns : list? c = some ns) {n : Nat} :
    n ∈ ns ↔ ∃ s, keys[n]? = some (c, s) := by
  rw [h.listed c ns hns, List.mem_filter, List.mem_range, Option.any_eq_true]
  constructor
  · rintro ⟨-, ⟨k, s⟩, hq, hk⟩
    obtain rfl : k = c := beq_iff_eq.mp hk
    exact ⟨s, hq⟩
  · rintro ⟨s, hq⟩
    exact ⟨(List.getElem?_eq_some_iff.mp hq).1, (c, s), hq, beq_self_eq_true c⟩

def methodKeys (b : Builder) : List (ClassId × String) := (b.drafts.map Draft.key).toList

def fieldKeys (b : Builder) : List (ClassId × String) := (b.fields.map fun f => (f.cls, f.name)).toList

/-- The classes list their methods and their fields. -/
structure Members (b : Builder) : Prop where
  methods : Roster b.methodKeys b.classes.size fun c => b.classes[c]?.map (·.methods.toList)
  fields : Roster b.fieldKeys b.classes.size fun c => b.classes[c]?.map (·.fields.toList)

/-- Classes are added or change, but not the members of those that there were. -/
theorem Members.classes (h : Members b) (hmethods : b'.methodKeys = b.methodKeys) (hfields : b'.fields = b.fields)
    (hsize : b.classes.size ≤ b'.classes.size)
    (hclass : ∀ (k : Nat) (e' : Class), b'.classes[k]? = some e' →
      (∃ e, b.classes[k]? = some e ∧ e'.methods = e.methods ∧ e'.fields = e.fields) ∨
      b.classes.size ≤ k ∧ e'.methods = #[] ∧ e'.fields = #[]) :
    Members b' := by
  have hkeys : b'.fieldKeys = b.fieldKeys := by rw [fieldKeys, hfields, fieldKeys]
  refine ⟨hmethods ▸ h.methods.grow hsize fun c ns hns => ?_, hkeys ▸ h.fields.grow hsize fun c ns hns => ?_⟩ <;>
    obtain ⟨e', he', rfl⟩ := Option.map_eq_some_iff.mp hns <;>
    rcases hclass c e' he' with ⟨e, he, hm, hf⟩ | ⟨hc, hm, hf⟩
  · exact Or.inl (by rw [he, Option.map_some, hm])
  · exact Or.inr ⟨hc, by rw [hm]⟩
  · exact Or.inl (by rw [he, Option.map_some, hf])
  · exact Or.inr ⟨hc, by rw [hf]⟩

theorem Members.implement {c i : ClassId} (h : Members b) (hok : (b.implement c i).errors = #[]) :
    Members (b.implement c i) := by
  rcases implement_eq hok with heq | heq
  · rwa [heq]
  · rw [heq]
    refine h.classes rfl rfl (by simp [linkInterface]) fun k e' he' => ?_
    obtain ⟨e₁, he₁, rfl⟩ := getElem?_modify_eq_some.mp he'
    obtain ⟨e, he, rfl⟩ := getElem?_modify_eq_some.mp he₁
    refine Or.inl ⟨e, he, ?_⟩
    split <;> split <;> exact ⟨rfl, rfl⟩

theorem Members.openClass {name : String} (form : ClassForm) {super : Option ClassId} (h : Members b)
    (hsuper : ∀ s, super = some s → s < b.classes.size) : Members (b.openClass name form super) := by
  refine h.classes rfl rfl (by rw [size_openClass]; exact Nat.le_succ _) fun k e' he' => ?_
  rcases getElem?_openClass hsuper he' with ⟨rfl, -, -, -, -, hm, hf⟩ | ⟨e, he, -, -, -, -, hm, hf⟩
  · exact Or.inr ⟨Nat.le_refl _, hm, hf⟩
  · exact Or.inl ⟨e, he, hm, hf⟩

theorem Members.pushField {c : ClassId} {name : String} (ty : Ty) (isStatic : Bool) (h : Members b)
    (hc : c < b.classes.size) (hfind : b.findField? c name = none) :
    Members (b.pushField c name ty isStatic) := by
  obtain ⟨d, hd⟩ : ∃ d, b.classes[c]? = some d := ⟨_, Array.getElem?_eq_getElem hc⟩
  have hkeys : (b.pushField c name ty isStatic).fieldKeys = b.fieldKeys ++ [(c, name)] := by
    simp [fieldKeys, Builder.pushField]
  have hsize : b.fieldKeys.length = b.fields.size := by simp [fieldKeys]
  have hnew : (c, name) ∉ b.fieldKeys := by
    intro hmem
    obtain ⟨f, hf⟩ := List.mem_iff_getElem?.mp hmem
    have hlisted : f ∈ d.fields.toList :=
      (h.fields.mem_list (show _ = some d.fields.toList by rw [hd]; rfl)).mpr ⟨name, hf⟩
    rw [findField?, hd, Option.bind_some, Array.find?_eq_none] at hfind
    refine hfind f (Array.mem_toList_iff.mp hlisted) ?_
    obtain ⟨e, he, heq⟩ : ∃ e, b.fields[f]? = some e ∧ (e.cls, e.name) = (c, name) := by
      simpa [fieldKeys] using hf
    rw [he, Option.map_some, (Prod.mk.inj heq).2]
    exact beq_self_eq_true _
  constructor
  · refine Roster.grow h.methods (by simp [Builder.pushField]) fun k ns hns => Or.inl ?_
    obtain ⟨e', he', rfl⟩ := Option.map_eq_some_iff.mp hns
    obtain ⟨e, he, rfl⟩ := getElem?_modify_eq_some.mp he'
    rw [he]
    split <;> rfl
  · rw [hkeys, show (b.pushField c name ty isStatic).classes.size = b.classes.size by simp [Builder.pushField]]
    refine h.fields.push hc hnew fun k ns' hns' => ?_
    obtain ⟨e', he', rfl⟩ := Option.map_eq_some_iff.mp hns'
    obtain ⟨e, he, rfl⟩ := getElem?_modify_eq_some.mp he'
    refine ⟨e.fields.toList, by rw [he]; rfl, ?_⟩
    rw [hsize]
    by_cases hk : c = k <;> simp [hk]

/-- A new method comes last; what its variables do not touch is that of a method without variables. -/
theorem map_drafts_declare {β : Type} {g : Draft → β}
    (hg : ∀ (d : Draft) (vars params : Array VarId) (receiver : Option VarId),
      g { d with header := { d.header with vars, params, receiver } } = g d)
    (b : Builder) (c : ClassId) (spec : MethodSpec) :
    ∃ header : Method, header.cls = c ∧
      header.subsig = subsignature b.className spec.name (spec.params.map (·.2)) ∧
      header.isAbstract = spec.isAbstract ∧
      (b.declare c spec).drafts.map g = (b.drafts.map g).push (g { header }) := by
  refine ⟨{ name := spec.name, cls := c, isStatic := spec.isStatic, isAbstract := spec.isAbstract
            subsig := subsignature b.className spec.name (spec.params.map (·.2))
            returns := spec.returns, receiver := none, params := #[], vars := #[], body := #[]
            pos := spec.pos }, rfl, rfl, rfl, ?_⟩
  unfold declare
  refine List.foldlRecOn spec.params _ (motive := fun d : Builder => d.drafts.map g = _) ?_ fun d hd q _ => ?_
  · split
    · rw [drafts_openMethod, Array.map_push]
    · simp only [addReceiver, addVar]
      rw [map_modify_of_same (fun d => hg d _ _ _), map_modify_of_same (fun d => hg d _ _ _), drafts_openMethod,
        Array.map_push]
  · simp only [addParam, addVar]
    rw [map_modify_of_same (fun d => hg d _ _ _), map_modify_of_same (fun d => hg d _ _ _), hd]

theorem Members.addMethod {c : ClassId} {spec : MethodSpec} (h : Members b) (hc : c < b.classes.size)
    (hnew : ∀ k ∈ (((b.declare c spec).classes[c]?.map (·.methods)).getD #[]),
      ((b.declare c spec).header k).subsig ≠ subsignature b.className spec.name (spec.params.map (·.2))) :
    Members ((b.declare c spec).listMethod c b.drafts.size) := by
  obtain ⟨-, hclasses, hfields⟩ := errors_declare b c spec
  obtain ⟨header, hcls, hsubsig, -, hdrafts⟩ := map_drafts_declare (g := Draft.key) (fun _ _ _ _ => rfl) b c spec
  obtain ⟨d, hd⟩ : ∃ d, b.classes[c]? = some d := ⟨_, Array.getElem?_eq_getElem hc⟩
  generalize subsignature b.className spec.name (spec.params.map (·.2)) = subsig at hsubsig hnew
  have hkeys : ((b.declare c spec).listMethod c b.drafts.size).methodKeys = b.methodKeys ++ [(c, subsig)] := by
    rw [methodKeys, listMethod, hdrafts, Array.toList_push, methodKeys, Draft.key, hcls, hsubsig]
  have hsize : b.methodKeys.length = b.drafts.size := by simp [methodKeys]
  rw [hclasses, hd, Option.map_some, Option.getD_some] at hnew
  have hfresh : (c, subsig) ∉ b.methodKeys := by
    intro hmem
    obtain ⟨k, hk⟩ := List.mem_iff_getElem?.mp hmem
    have hlisted : k ∈ d.methods.toList :=
      (h.methods.mem_list (show _ = some d.methods.toList by rw [hd]; rfl)).mpr ⟨_, hk⟩
    refine hnew k (Array.mem_toList_iff.mp hlisted) ?_
    have hkey : (((b.declare c spec).drafts.map Draft.key).toList)[k]? = some (c, subsig) := by
      rw [hdrafts, Array.toList_push]
      exact (List.getElem?_append_left (List.getElem?_eq_some_iff.mp hk).1).trans hk
    obtain ⟨d, hd, heq⟩ : ∃ d, (b.declare c spec).drafts[k]? = some d ∧ d.key = (c, subsig) := by
      simpa using hkey
    rw [Builder.header, hd]
    exact (Prod.mk.inj heq).2
  constructor
  · rw [hkeys, show ((b.declare c spec).listMethod c b.drafts.size).classes.size = b.classes.size by
      simp [listMethod, hclasses]]
    refine h.methods.push hc hfresh fun k ns' hns' => ?_
    obtain ⟨e', he', rfl⟩ := Option.map_eq_some_iff.mp hns'
    obtain ⟨e, he, rfl⟩ := getElem?_modify_eq_some.mp he'
    rw [hclasses] at he
    refine ⟨e.methods.toList, by rw [he]; rfl, ?_⟩
    rw [hsize]
    by_cases hk : c = k <;> simp [hk]
  · have hfieldKeys : ((b.declare c spec).listMethod c b.drafts.size).fieldKeys = b.fieldKeys := by
      rw [fieldKeys, listMethod, hfields, fieldKeys]
    rw [hfieldKeys]
    refine h.fields.grow (by simp [listMethod, hclasses]) fun k ns hns => Or.inl ?_
    obtain ⟨e', he', rfl⟩ := Option.map_eq_some_iff.mp hns
    obtain ⟨e, he, rfl⟩ := getElem?_modify_eq_some.mp he'
    rw [hclasses] at he
    rw [he]
    split <;> rfl

theorem methodKeys_addVar (b : Builder) (m : MethodId) (name : String) (ty : Ty) :
    (b.addVar m name ty).1.methodKeys = b.methodKeys := by
  rw [methodKeys, addVar, map_modify_of_same, methodKeys]
  exact fun _ => rfl

theorem Effect.members {o : Operation} (he : Effect b o b') (hrefers : o.Refers b) (hok : b'.errors = #[])
    (h : Members b) : Members b' := by
  -- calls that change drafts only leave the keys of the methods alone
  have hdrafts : ∀ (drafts : Array Draft) (index : Index), drafts.map Draft.key = b.drafts.map Draft.key →
      Members { b with drafts, index } := by
    intro drafts index hkeys
    exact h.classes (congrArg Array.toList hkeys) rfl (Nat.le_refl _) fun k e he => Or.inl ⟨e, he, rfl, rfl⟩
  cases he with
  | addClass form super interfaces hfind =>
    exact foldl_implement (fun b₁ i _ hok₁ hb₁ => hb₁.implement hok₁) hok (h.openClass form hrefers.1)
  | implement c i => exact h.implement hok
  | addField ty isStatic hfind => exact h.pushField ty isStatic hrefers hfind
  | hasField => exact h
  | ensureField ty hfind => exact h.pushField ty false hrefers hfind
  | addMethod hnew => exact h.addMethod hrefers hnew
  | addVar m name ty =>
    exact h.classes (methodKeys_addVar b m name ty) rfl (Nat.le_refl _)
      fun k e he => Or.inl ⟨e, he, rfl, rfl⟩
  | newLabel m | bind m l | setPos m pos | add =>
    refine hdrafts _ _ (map_modify_of_same ?_)
    exact fun _ => rfl
  | setEntries ms =>
    exact h.classes rfl rfl (Nat.le_refl _) fun k e he => Or.inl ⟨e, he, rfl, rfl⟩

/-! ## Variables -/

/-- Variables are where their methods list them. -/
structure Variables (b : Builder) : Prop where
  listed : ∀ (v : VarId) (x : Var), b.vars[v]? = some x →
    ∃ d : Draft, b.drafts[x.method]? = some d ∧ d.header.vars[x.index]? = some v
  placed : ∀ (m : MethodId) (d : Draft) (i : Nat) (v : VarId), b.drafts[m]? = some d →
    d.header.vars[i]? = some v → ∃ x, b.vars[v]? = some x ∧ x.method = m ∧ x.index = i
  own : ∀ (m : MethodId) (d : Draft) (v : VarId), b.drafts[m]? = some d →
    d.header.receiver = some v ∨ v ∈ d.header.params → b.Owns m v

theorem Owns.congr {m : MethodId} {v : VarId} (h : b.Owns m v) (hvars : b'.vars = b.vars) : b'.Owns m v := by
  rwa [Owns, hvars]

theorem Owns.addVar {k m : MethodId} {v : VarId} (h : b.Owns k v) (name : String) (ty : Ty) :
    (b.addVar m name ty).1.Owns k v := by
  obtain ⟨x, hx, hm⟩ := h
  exact ⟨x, getElem?_push_eq_some.mpr (Or.inl hx), hm⟩

theorem Variables.congr (h : Variables b) (hdrafts : b'.drafts = b.drafts) (hvars : b'.vars = b.vars) :
    Variables b' where
  listed v x hx := hdrafts ▸ h.listed v x (hvars ▸ hx)
  placed m d i v hd hv := hvars ▸ h.placed m d i v (hdrafts ▸ hd) hv
  own m d v hd hv := (h.own m d v (hdrafts ▸ hd) hv).congr hvars

/-- A draft changes, but not its variables; its receiver and parameters are some of them. -/
theorem Variables.modify (h : Variables b) (m : MethodId) {f : Draft → Draft}
    (hvars : ∀ d, (f d).header.vars = d.header.vars)
    (hown : ∀ d v, b.drafts[m]? = some d → (f d).header.receiver = some v ∨ v ∈ (f d).header.params →
      b.Owns m v) :
    Variables { b with drafts := b.drafts.modify m f } where
  listed v x hx := by
    obtain ⟨d, hd, hv⟩ := h.listed v x hx
    refine ⟨_, getElem?_modify_eq_some.mpr ⟨d, hd, rfl⟩, ?_⟩
    split
    · rwa [hvars]
    · exact hv
  placed k d' i v hd' hv := by
    obtain ⟨d, hd, rfl⟩ := getElem?_modify_eq_some.mp hd'
    refine h.placed k d i v hd ?_
    split at hv
    · rwa [hvars] at hv
    · exact hv
  own k d' v hd' hv := by
    obtain ⟨d, hd, rfl⟩ := getElem?_modify_eq_some.mp hd'
    split at hv
    · rename_i hk
      subst hk
      exact hown d v hd hv
    · exact h.own k d v hd hv

/-- A change that leaves the header of a draft alone. -/
theorem Variables.modify_body (h : Variables b) (m : MethodId) {f : Draft → Draft}
    (hf : ∀ d, (f d).header = d.header) : Variables { b with drafts := b.drafts.modify m f } :=
  h.modify m (fun d => by rw [hf]) fun d v hd hv => h.own m d v hd (by rwa [hf] at hv)

theorem Variables.addVar {m : MethodId} (h : Variables b) (hm : m < b.drafts.size) (name : String) (ty : Ty) :
    Variables (b.addVar m name ty).1 := by
  obtain ⟨e, he⟩ : ∃ e, b.drafts[m]? = some e := ⟨_, Array.getElem?_eq_getElem hm⟩
  have hheader : b.header m = e.header := by rw [header, he]; rfl
  constructor
  · intro v x hx
    rcases getElem?_push_eq_some.mp hx with hx | ⟨rfl, rfl⟩
    · obtain ⟨d, hd, hv⟩ := h.listed v x hx
      refine ⟨_, getElem?_modify_eq_some.mpr ⟨d, hd, rfl⟩, ?_⟩
      split
      · exact getElem?_push_eq_some.mpr (Or.inl hv)
      · exact hv
    · refine ⟨_, getElem?_modify_eq_some.mpr ⟨e, he, rfl⟩, ?_⟩
      rw [if_pos rfl]
      exact getElem?_push_eq_some.mpr (Or.inr ⟨by rw [hheader], rfl⟩)
  · intro k d' i v hd' hv
    obtain ⟨d, hd, rfl⟩ := getElem?_modify_eq_some.mp hd'
    split at hv
    · rename_i hk
      subst hk
      rcases getElem?_push_eq_some.mp hv with hv | ⟨rfl, rfl⟩
      · obtain ⟨x, hx, hplace⟩ := h.placed m d i v hd hv
        exact ⟨x, getElem?_push_eq_some.mpr (Or.inl hx), hplace⟩
      · obtain rfl : d = e := Option.some.inj (hd.symm.trans he)
        exact ⟨_, getElem?_push_eq_some.mpr (Or.inr ⟨rfl, rfl⟩), rfl, by rw [hheader]⟩
    · obtain ⟨x, hx, hplace⟩ := h.placed k d i v hd hv
      exact ⟨x, getElem?_push_eq_some.mpr (Or.inl hx), hplace⟩
  · intro k d' v hd' hv
    obtain ⟨d, hd, rfl⟩ := getElem?_modify_eq_some.mp hd'
    have hown : b.Owns k v := h.own k d v hd (by split at hv <;> exact hv)
    exact hown.addVar name ty

theorem owns_addVar (b : Builder) (m : MethodId) (name : String) (ty : Ty) :
    (b.addVar m name ty).1.Owns m (b.addVar m name ty).2 :=
  ⟨_, getElem?_push_eq_some.mpr (Or.inr ⟨rfl, rfl⟩), rfl⟩

theorem Variables.addReceiver {m : MethodId} (h : Variables b) (hm : m < b.drafts.size) (c : ClassId) :
    Variables (b.addReceiver m c) := by
  have hadd := h.addVar hm "this" (.ref c)
  refine hadd.modify m (fun _ => rfl) fun d v hd hv => ?_
  rcases hv with hv | hv
  · obtain rfl := Option.some.inj hv
    exact owns_addVar b m "this" (.ref c)
  · exact hadd.own m d v hd (Or.inr hv)

theorem Variables.addParam {m : MethodId} (h : Variables b) (hm : m < b.drafts.size) (q : String × Ty) :
    Variables (b.addParam m q) := by
  have hadd := h.addVar hm q.1 q.2
  refine hadd.modify m (fun _ => rfl) fun d v hd hv => ?_
  rcases hv with hv | hv
  · exact hadd.own m d v hd (Or.inl hv)
  · rcases Array.mem_push.mp hv with hv | rfl
    · exact hadd.own m d v hd (Or.inr hv)
    · exact owns_addVar b m q.1 q.2

/-- What a method without variables has, and its variables keep, a new method has. -/
theorem declare_induction {P : Builder → Prop} {c : ClassId} {spec : MethodSpec}
    (hblank : ∀ header : Method, header.vars = #[] → header.params = #[] → header.receiver = none →
      P (b.openMethod header))
    (hreceiver : ∀ b₁ : Builder, P b₁ → P (b₁.addReceiver b.drafts.size c))
    (hparam : ∀ (b₁ : Builder) (q : String × Ty), P b₁ → P (b₁.addParam b.drafts.size q)) :
    P (b.declare c spec) := by
  refine List.foldlRecOn spec.params _ ?_ fun b₁ hb₁ q _ => hparam b₁ q hb₁
  split
  · exact hblank _ rfl rfl rfl
  · exact hreceiver _ (hblank _ rfl rfl rfl)

theorem Variables.declare (h : Variables b) (c : ClassId) (spec : MethodSpec) :
    Variables (b.declare c spec) := by
  refine (declare_induction (P := fun b₁ => Variables b₁ ∧ b.drafts.size < b₁.drafts.size)
    (fun header hvars hparams hreceiver => ⟨?_, by simp⟩)
    (fun b₁ hb₁ => ⟨hb₁.1.addReceiver hb₁.2 c, by simpa [Builder.addReceiver, Builder.addVar] using hb₁.2⟩)
    (fun b₁ q hb₁ => ⟨hb₁.1.addParam hb₁.2 q, by simpa [Builder.addParam, Builder.addVar] using hb₁.2⟩)).1
  constructor
  · intro v x hx
    obtain ⟨d, hd, hv⟩ := h.listed v x hx
    exact ⟨d, getElem?_push_eq_some.mpr (Or.inl hd), hv⟩
  · intro m d i v hd hv
    rcases getElem?_push_eq_some.mp hd with hd | ⟨-, rfl⟩
    · exact h.placed m d i v hd hv
    · simp [hvars] at hv
  · intro m d v hd hv
    rcases getElem?_push_eq_some.mp hd with hd | ⟨-, rfl⟩
    · exact h.own m d v hd hv
    · simp [hparams, hreceiver] at hv

theorem same_addClass {name : String} {form : ClassForm} {super : Option ClassId} {c : ClassId}
    {interfaces : List ClassId} :
    (interfaces.foldl (fun b i => b.implement c i) (b.openClass name form super)).drafts = b.drafts ∧
      (interfaces.foldl (fun b i => b.implement c i) (b.openClass name form super)).vars = b.vars := by
  refine List.foldlRecOn interfaces _ (motive := fun d : Builder => d.drafts = b.drafts ∧ d.vars = b.vars)
    ⟨rfl, rfl⟩ fun d hd i _ => ?_
  obtain ⟨hdrafts, hvars⟩ := implement_same d c i
  exact ⟨hdrafts.trans hd.1, hvars.trans hd.2⟩

theorem Effect.variables {o : Operation} (he : Effect b o b') (hfits : o.Fits b) (h : Variables b) :
    Variables b' := by
  cases he with
  | addClass => exact h.congr same_addClass.1 same_addClass.2
  | implement c i => exact h.congr (implement_same b c i).1 (implement_same b c i).2
  | addMethod => exact (h.declare _ _).congr rfl rfl
  | addVar m name ty => exact h.addVar hfits name ty
  | newLabel m | bind m l | setPos m pos | add =>
    refine (h.modify_body _ ?_).congr rfl rfl
    exact fun _ => rfl
  | addField | hasField | ensureField | setEntries => exact h.congr rfl rfl

end Builder

end WholeProgram
