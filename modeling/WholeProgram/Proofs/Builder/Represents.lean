import Mathlib.Data.List.Induction
import Mathlib.Data.List.Nodup
import WholeProgram.Proofs.Builder.Bodies
import WholeProgram.Proofs.Builder.Indexes

/-!
# Programs that are built

A program that is built is what the calls of its builder say, and all its tables agree.

* `Builder.Assembled` — a body has the statements that were added, and its jumps go to the places of
  their labels;
* `Program.Lists` — a table of a variable lists statements of the whole program;
* `Method.Indexed` — what is noted down about a body is what its statements say;
* `Builder.Represents` — what holds of a program that is built;
* `Builder.build_represents` — it does, for every sequence of calls.
-/

namespace WholeProgram

/-- The sites are those of the statements of the program with a property, in order and once each; all of
them stand in one method. -/
structure Program.Lists (p : Program) (q : Stmt Nat → Prop) (m : MethodId) (sites : List Site) : Prop where
  sorted : sites.Pairwise fun s t => s.index < t.index
  own : ∀ site ∈ sites, site.method = m
  all : ∀ site : Site, site ∈ sites ↔ ∃ s, p.stmt? site = some s ∧ q s

/-- The variables of the return statements of a method, in order. -/
def Method.returned (m : Method) : List VarId := m.body.toList.filterMap fun i => i.stmt.returned?

/-- What is noted down about a body is what its statements say, and what the views of the method read. -/
structure Method.Indexed (m : Method) (t : BodyIndex) : Prop where
  entry : t.entry = some (-1)
  exit : t.exit = some (m.body.size : Int)
  size : t.indices.size = m.body.size
  indices : ∀ i < m.body.size, t.indices[i]? = some (i : Int)
  sorted : t.callSites.toList.Pairwise (· < ·)
  mem_callSites : ∀ i, i ∈ t.callSites.toList ↔ ∃ r c, m.stmt? i = some (.invoke r c)
  returnVars : t.returnVars.toList = m.returned.eraseDups
  views : t.callSites.toList = m.callSites ∧ t.returnVars.toList = m.returnVars

namespace Builder

variable {b : Builder} {p : Program} {ops : List Operation} {m : MethodId}

/-- The statements of a body are those that calls added, with a `nop` at the end when a label was bound
after the last one. A jump goes to the statement that was added next when its label was last bound. -/
def Assembled (ops : List Operation) (m : MethodId) (body : List (Stmt Nat)) : Prop :=
  ∃ (place : Label → Nat) (trailing : List (Stmt Label)),
    body = (statements ops m ++ trailing).map (Stmt.mapTargets place) ∧
    (trailing = [] ∧ (∀ l, ¬ LastBound ops m l (statements ops m).length) ∨
      trailing = [.nop] ∧ ∃ l, LastBound ops m l (statements ops m).length) ∧
    ∀ s ∈ statements ops m, ∀ l ∈ s.targets, LastBound ops m l (place l) ∧ place l < body.length

/-- What holds of a program that was built by a sequence of calls. -/
structure Represents (ops : List Operation) (p : Program) : Prop where
  /-- Everything is found at its number. -/
  class_id : ∀ (c : ClassId) (d : Class), p.classes[c]? = some d → p.findClass? d.name = some c
  method_id : ∀ (m : MethodId) (d : Method), p.methods[m]? = some d → p.declaredMethod? d.cls d.subsig = some m
  field_id : ∀ (f : FieldId) (d : Field), p.fields[f]? = some d → p.declaredField? d.cls d.name = some f
  var_id : ∀ (v : VarId) (x : Var), p.vars[v]? = some x → (p.method x.method).vars[x.index]? = some v
  var_owner : ∀ (m : MethodId) (i : Nat) (v : VarId), (p.method m).vars[i]? = some v →
    ∃ x, p.vars[v]? = some x ∧ x.method = m ∧ x.index = i
  /-- The statements of a method stand between its entry and its exit. -/
  nodes : ∀ m, Program.nodeIndex 0 = -1 ∧ Program.nodeIndex (p.method m).exit = (p.method m).body.size ∧
    ∀ i s, p.stmt? { method := m, index := i } = some s →
      p.stmtAt { method := m, node := i + 1 } = s ∧ Program.nodeIndex (i + 1 : Nat) = i
  bodies : ∀ m < p.methods.size, Assembled ops m ((p.method m).body.toList.map (·.stmt))
  /-- The tables of a variable list the statements through it, one table for each kind of access, and the
  views of its method read the same off the body. -/
  accesses : ∀ (v : VarId) (x : Var), p.vars[v]? = some x → ∃ t, p.index.vars[v]? = some t ∧
    ∀ k : Access, p.Lists (fun s => s.access? = some (k, v)) x.method (k.noted t).toList ∧
      (k.noted t).toList = (k.view (p.method x.method) v).map (Site.mk x.method)
  /-- Together they are the places through the variable. -/
  through : ∀ (v : VarId) (t : VarIndex), p.index.vars[v]? = some t →
    ∀ site, site ∈ p.sitesThrough v ↔ ∃ k : Access, site ∈ k.noted t
  /-- The tables of a method. -/
  indexed : ∀ m < p.methods.size, ∃ t, p.index.bodies[m]? = some t ∧ (p.method m).Indexed t
  /-- Classes know their subclasses, and have no endless chain of super classes. -/
  subclasses : ∀ (c k : ClassId) (d : Class), p.classes[k]? = some d →
    (k ∈ p.subclassesOf c ↔ d.super = some c ∨ c ∈ d.interfaces)
  superChains : WellFounded fun s c => p.superOf c = some s
  /-- Names are unique. -/
  classNames : (p.classes.toList.map (·.name)).Nodup
  subsigs : ∀ (c : ClassId) (d : Class), p.classes[c]? = some d →
    (d.methods.toList.map fun m => (p.method m).subsig).Nodup
  fieldNames : ∀ (c : ClassId) (d : Class), p.classes[c]? = some d →
    (d.fields.toList.map fun f => p.fields[f]?.map (·.name)).Nodup

/-! ## Sequences of calls keep the tables -/

theorem empty_hierarchy : Hierarchy ({} : Builder).classes := by
  constructor <;> simp

theorem empty_members : Members {} where
  methods := ⟨by simp [methodKeys], by simp, by simp [methodKeys]⟩
  fields := ⟨by simp [fieldKeys], by simp, by simp [fieldKeys]⟩

theorem empty_variables : Variables {} := by
  constructor <;> simp

theorem empty_bodies : Bodies [] {} where
  follows m d hd := by simp at hd
  suits m s hs := by cases hs
  bound m l t h := by
    obtain ⟨before, after, heq, -⟩ := h
    simp at heq

/-- The tables and bodies of a builder that has met no fault. -/
structure Consistent (ops : List Operation) (b : Builder) : Prop where
  hierarchy : Hierarchy b.classes
  members : Members b
  vars : Variables b
  bodies : Bodies ops b

theorem History.consistent (h : History ops b) (hok : b.errors = #[]) : Consistent ops b := by
  refine h.induction (P := Consistent) ⟨empty_hierarchy, empty_members, empty_variables, empty_bodies⟩
    (fun ops o b b' hfits heffect hok h => ?_) hok
  exact ⟨heffect.hierarchy hfits.refers hok h.hierarchy, heffect.members hfits.refers hok h.members,
    heffect.variables hfits h.vars, heffect.bodies hfits h.bodies⟩

theorem Owns.lt {v : VarId} (h : b.Owns m v) : v < b.vars.size := by
  obtain ⟨x, hx, -⟩ := h
  exact lt_size_of_getElem? hx

/-- What a sequence of calls makes, the operations of builders make. -/
theorem History.made (h : History ops b) : Made b := by
  induction h with
  | nil => exact .empty
  | @snoc _ o _ _ _ hfits hperform ih =>
    cases o with
    | addBranch m op x y target =>
      have hsuits : Suits _ m (.branch op x y target) := hfits
      exact .addBranch (hsuits.vars x (by simp [Stmt.mentions, Stmt.uses])).lt
        (hsuits.vars y (by simp [Stmt.mentions, Stmt.uses])).lt hperform ih
    | addClass name form super interfaces => exact Except.ok.inj hperform ▸ ih.addClass name form super interfaces
    | implement c i => exact Except.ok.inj hperform ▸ ih.implement c i
    | addField c name ty isStatic => exact Except.ok.inj hperform ▸ ih.addField c name ty isStatic
    | ensureField c name ty => exact Except.ok.inj hperform ▸ ih.ensureField c name ty
    | addMethod c spec => exact Except.ok.inj hperform ▸ ih.addMethod c spec
    | addVar m name ty => exact Except.ok.inj hperform ▸ ih.addVar m name ty
    | newLabel m => exact Except.ok.inj hperform ▸ ih.newLabel m
    | bind m l => exact Except.ok.inj hperform ▸ ih.bind m l
    | setPos m pos => exact Except.ok.inj hperform ▸ ih.setPos m pos
    | add m s =>
      have hsuits : Suits _ m s := hfits
      exact Except.ok.inj hperform ▸ ih.add m fun v hv => (hsuits.vars v hv).lt
    | addSwitch m v values targets default =>
      have hsuits : Suits _ m (.switch v (values.zip targets) default) := hfits
      exact Except.ok.inj hperform ▸ ih.addSwitch m values targets default
        (hsuits.vars v (by simp [Stmt.mentions, Stmt.uses])).lt
    | setEntries ms => exact Except.ok.inj hperform ▸ ih.setEntries ms

/-! ## Bodies -/

theorem LastBound.le {l : Label} {t : Nat} (h : LastBound ops m l t) : t ≤ (statements ops m).length := by
  obtain ⟨before, after, rfl, -, rfl⟩ := h
  rw [statements, statements, List.filterMap_append, List.length_append]
  exact Nat.le_add_right _ _

variable {d : Draft} {vars : Array Var}

theorem stmts_close (d : Draft) :
    d.close.code.toList.map (·.1) = d.code.toList.map (·.1) ++ if d.pending.isEmpty then [] else [.nop] := by
  unfold Draft.close
  split
  · simp
  · simp [Draft.push]

/-- A label waits at the end when it was bound after the last statement. -/
theorem Follows.waits_iff (h : Follows ops m d) (hsound : d.Sound vars) {l : Label} :
    LastBound ops m l (statements ops m).length ↔ l ∈ d.pending := by
  rw [← h.place, length_statements h, Draft.place?]
  constructor
  · intro hplace
    by_contra hl
    rw [if_neg hl] at hplace
    have := hsound.labels l _ (Option.join_eq_some_iff.mp hplace)
    exact absurd this (Nat.lt_irrefl _)
  · exact fun hl => if_pos hl

theorem Follows.assembled (h : Follows ops m d) (hsound : d.Sound vars) (hbound : d.close.Bound)
    (hlabels : ∀ s ∈ statements ops m, ∀ l ∈ s.targets, l < d.labels.size) :
    Assembled ops m (d.close.toMethod.body.toList.map (·.stmt)) := by
  have hbody : d.close.toMethod.body.toList.map (·.stmt) =
      (d.close.code.toList.map (·.1)).map (Stmt.mapTargets fun l => ((d.close.labels[l]?).join).getD 0) := by
    simp [Draft.toMethod, Function.comp_def]
  refine ⟨_, _, by rw [hbody, stmts_close, h.code], ?_, fun s hs l hl => ?_⟩
  · cases hpending : d.pending with
    | nil =>
      refine Or.inl ⟨rfl, fun l hlast => ?_⟩
      have := (h.waits_iff hsound).mp hlast
      rw [hpending] at this
      cases this
    | cons l rest =>
      refine Or.inr ⟨rfl, l, (h.waits_iff hsound).mpr ?_⟩
      rw [hpending]
      exact List.mem_cons_self
  · have hlt := hlabels s hs l hl
    obtain ⟨t, ht⟩ := Option.ne_none_iff_exists'.mp (hbound l (Draft.size_labels_close.symm ▸ hlt))
    have hlast : LastBound ops m l t := (h.place l t).mp ((Draft.labels_close (h.waits l)).symm.trans ht)
    simp only [ht, Option.getD_some]
    refine ⟨hlast, ?_⟩
    rw [hbody, stmts_close, h.code, List.length_map, List.length_append]
    rcases Nat.lt_or_eq_of_le hlast.le with hlt | rfl
    · omega
    · have hl := (h.waits_iff hsound).mp hlast
      cases hpending : d.pending with
      | nil =>
        rw [hpending] at hl
        cases hl
      | cons => simp

/-! ## Tables of statements -/

theorem returnVars_eq (d : Method) : d.returnVars = d.returned.eraseDups := by
  unfold Method.returnVars Method.returned
  induction d.body.toList using List.reverseRecOn with
  | nil => rfl
  | append_singleton is i ih =>
    rw [List.foldl_concat, ih, List.filterMap_append]
    cases hs : i.stmt with
    | ret v =>
      cases v with
      | none => simp [hs, Stmt.returned?]
      | some v =>
        rw [show [i].filterMap (fun i => i.stmt.returned?) = [v] by simp [hs, Stmt.returned?], eraseDups_concat]
        simp
    | _ => simp [hs, Stmt.returned?]

/-- What is noted down about a body that is finished. -/
theorem indexed_of_notes {d : Method} {t : BodyIndex} (h : t.Notes (d.body.map (·.stmt)))
    (hsealed : t.entry = some (-1) ∧ t.exit = some (d.body.size : Int)) : d.Indexed t := by
  have hcalls : t.callSites.toList = d.callSites := by
    rw [h.callSites, Method.callSites, Method.positions_eq]
  have hreturned : t.returnVars.toList = d.returned.eraseDups := by
    rw [h.returnVars, Array.toList_map, List.filterMap_map]
    rfl
  constructor
  case entry => exact hsealed.1
  case exit => exact hsealed.2
  case size => simp [h.indices]
  case indices => exact fun i hi => by simp [h.indices, hi]
  case sorted => exact hcalls ▸ List.pairwise_lt_range.filter _
  case mem_callSites =>
    refine fun i => hcalls ▸ Method.mem_positions.trans ⟨?_, ?_⟩
    · rintro ⟨s, hs, hcall⟩
      obtain ⟨call, hcall⟩ := Option.isSome_iff_exists.mp hcall
      obtain ⟨r, rfl⟩ := Stmt.eq_invoke_of_call? hcall
      exact ⟨r, call, hs⟩
    · rintro ⟨r, call, hs⟩
      exact ⟨_, hs, rfl⟩
  case returnVars => exact hreturned
  case views => exact ⟨hcalls, hreturned.trans (returnVars_eq d).symm⟩

/-! ## Members of classes by name -/

variable {keys : List (ClassId × String)} {size c n : Nat} {s : String} {list? : Nat → Option (List Nat)}
  {ns : List Nat}

/-- Of the members of a class, one alone has the name. -/
theorem Roster.unique (h : Roster keys size list?) {k : Nat} {q : ClassId × String} (hn : keys[n]? = some q)
    (hk : keys[k]? = some q) : n = k :=
  (List.getElem?_inj (List.getElem?_eq_some_iff.mp hn).1 h.nodup).mp (hn.trans hk.symm)

/-- A class finds its member by name. -/
theorem Roster.find (h : Roster keys size list?) (hns : list? c = some ns) (hn : keys[n]? = some (c, s))
    {f : Nat → Bool} (hf : ∀ k r, keys[k]? = some (c, r) → (f k = true ↔ r = s)) : ns.find? f = some n := by
  have hmem : n ∈ ns := (h.mem_list hns).mpr ⟨s, hn⟩
  cases hfind : ns.find? f with
  | none => exact absurd ((hf n s hn).mpr rfl) (List.find?_eq_none.mp hfind n hmem)
  | some k =>
    obtain ⟨r, hk⟩ := (h.mem_list hns).mp (List.mem_of_find?_eq_some hfind)
    obtain rfl := (hf k r hk).mp (List.find?_some hfind)
    rw [h.unique hn hk]

/-- The members of a class have different names. -/
theorem Roster.nodup_names (h : Roster keys size list?) (hns : list? c = some ns) {α : Type} {name : Nat → α}
    (hname : ∀ k r l t, keys[k]? = some (c, r) → keys[l]? = some (c, t) → name k = name l → r = t) :
    (ns.map name).Nodup := by
  refine List.Nodup.map_on (fun k hk l hl heq => ?_) ?_
  · obtain ⟨r, hk⟩ := (h.mem_list hns).mp hk
    obtain ⟨t, hl⟩ := (h.mem_list hns).mp hl
    obtain rfl := hname k r l t hk hl heq
    exact h.unique hk hl
  · rw [h.listed c ns hns]
    exact List.nodup_range.filter _

/-! ## The tables of the program -/

/-- A class has as subclasses those that name it. -/
theorem Hierarchy.mem_subclassesOf (h : Hierarchy p.classes) {c k : ClassId} {d : Class}
    (hd : p.classes[k]? = some d) : k ∈ p.subclassesOf c ↔ d.super = some c ∨ c ∈ d.interfaces := by
  unfold Program.subclassesOf Program.class?
  cases hc : p.classes[c]? with
  | some e => simpa using h.subclasses c k e d hc hd
  | none =>
    have hout := Array.getElem?_eq_none_iff.mp hc
    simp only [Option.map_none, Option.getD_none, List.not_mem_nil, false_iff]
    rintro (hs | hi)
    · exact Nat.not_lt.mpr hout (Nat.lt_trans (h.super_lt k c d hd hs) (lt_size_of_getElem? hd))
    · exact Nat.not_lt.mpr hout (h.interface_lt k c d hd hi)

/-- The program has the tables of the builder, and its drafts as methods. -/
structure Contents (b : Builder) (p : Program) : Prop where
  classes : p.classes = b.classes
  fields : p.fields = b.fields
  vars : p.vars = b.vars
  methods : p.methods = b.drafts.map fun d => d.close.toMethod

namespace Contents

theorem method_eq (hp : Contents b p) (hd : b.drafts[m]? = some d) : p.method m = d.close.toMethod := by
  simp [Program.method, Array.getD_eq_getD_getElem?, hp.methods, hd]

/-- The keys of the builder are those of the methods. -/
theorem methodKeys_eq_some (hp : Contents b p) {c : ClassId} :
    b.methodKeys[m]? = some (c, s) ↔
      m < p.methods.size ∧ (p.method m).cls = c ∧ (p.method m).subsig = s := by
  have hget : b.methodKeys[m]? = (b.drafts[m]?).map Draft.key := by simp [methodKeys]
  rw [hget, hp.methods, Array.size_map]
  constructor
  · intro hkey
    obtain ⟨d, hd, heq⟩ := Option.map_eq_some_iff.mp hkey
    rw [hp.method_eq hd]
    simp only [Draft.toMethod, Draft.header_close]
    exact ⟨lt_size_of_getElem? hd, (Prod.mk.inj heq).1, (Prod.mk.inj heq).2⟩
  · rintro ⟨hm, rfl, rfl⟩
    have hd := Array.getElem?_eq_getElem hm
    rw [hp.method_eq hd, hd]
    simp only [Draft.toMethod, Draft.header_close]
    rfl

theorem fieldKeys_eq_some (hp : Contents b p) {f : FieldId} {c : ClassId} :
    b.fieldKeys[f]? = some (c, s) ↔ ∃ e, p.fields[f]? = some e ∧ e.cls = c ∧ e.name = s := by
  have hget : b.fieldKeys[f]? = (p.fields[f]?).map fun e => (e.cls, e.name) := by simp [fieldKeys, hp.fields]
  simp only [hget, Option.map_eq_some_iff, Prod.mk.injEq]

theorem methodRoster (hp : Contents b p) (h : Consistent ops b) :
    Roster b.methodKeys p.classes.size fun c => p.classes[c]?.map (·.methods.toList) :=
  hp.classes ▸ h.members.methods

theorem fieldRoster (hp : Contents b p) (h : Consistent ops b) :
    Roster b.fieldKeys p.classes.size fun c => p.classes[c]?.map (·.fields.toList) :=
  hp.classes ▸ h.members.fields

theorem hierarchy (hp : Contents b p) (h : Consistent ops b) : Hierarchy p.classes :=
  hp.classes ▸ h.hierarchy

/-! ### Numbers and names -/

theorem findClass (hp : Contents b p) (h : Consistent ops b) {c : ClassId} {d : Class}
    (hd : p.classes[c]? = some d) : p.findClass? d.name = some c := by
  cases hfind : p.findClass? d.name with
  | none =>
    have := Array.findIdx?_eq_none_iff.mp hfind d (Array.mem_of_getElem? hd)
    simp at this
  | some k =>
    obtain ⟨hk, hname, -⟩ := Array.findIdx?_eq_some_iff_getElem.mp hfind
    rw [(hp.hierarchy h).names k c _ d (Array.getElem?_eq_getElem hk) hd (beq_iff_eq.mp hname)]

/-- A method is found by its class and its subsignature, and nothing else is found by them. -/
theorem declaredMethod_iff (hp : Contents b p) (h : Members b) {c : ClassId} :
    p.declaredMethod? c s = some m ↔ m < p.methods.size ∧ (p.method m).cls = c ∧ (p.method m).subsig = s := by
  have hroster : Roster b.methodKeys p.classes.size fun c => p.classes[c]?.map (·.methods.toList) :=
    hp.classes ▸ h.methods
  rw [← hp.methodKeys_eq_some]
  constructor
  · intro hm
    obtain ⟨d, hd, hfind⟩ := Option.bind_eq_some_iff.mp hm
    have hlist : (p.classes[c]?).map (·.methods.toList) = some d.methods.toList := congrArg _ hd
    obtain ⟨r, hr⟩ := (hroster.mem_list hlist).mp (Array.mem_toList_iff.mpr (Array.mem_of_find?_eq_some hfind))
    obtain ⟨hlt, hcls, -⟩ := hp.methodKeys_eq_some.mp hr
    have hsubsig := Array.find?_some hfind
    exact hp.methodKeys_eq_some.mpr ⟨hlt, hcls, beq_iff_eq.mp hsubsig⟩
  · intro hkey
    have hd := Array.getElem?_eq_getElem (hroster.owner _ (List.mem_of_getElem? hkey))
    rw [Program.declaredMethod?, Program.class?, hd, Option.bind_some, ← Array.find?_toList]
    refine hroster.find (by rw [hd]; rfl) hkey fun k r hk => ?_
    rw [(hp.methodKeys_eq_some.mp hk).2.2]
    exact beq_iff_eq

theorem declaredMethod (hp : Contents b p) (h : Consistent ops b) {e : Method}
    (he : p.methods[m]? = some e) : p.declaredMethod? e.cls e.subsig = some m := by
  have hmethod : p.method m = e := by simp [Program.method, Array.getD_eq_getD_getElem?, he]
  exact (hp.declaredMethod_iff h.members).mpr ⟨lt_size_of_getElem? he, by rw [hmethod], by rw [hmethod]⟩

theorem declaredField (hp : Contents b p) (h : Consistent ops b) {f : FieldId} {e : Field}
    (he : p.fields[f]? = some e) : p.declaredField? e.cls e.name = some f := by
  have hkey := hp.fieldKeys_eq_some.mpr ⟨e, he, rfl, rfl⟩
  have hroster := hp.fieldRoster h
  have hd := Array.getElem?_eq_getElem (hroster.owner _ (List.mem_of_getElem? hkey))
  rw [Program.declaredField?, Program.class?, hd, Option.bind_some, ← Array.find?_toList]
  refine hroster.find (by rw [hd]; rfl) hkey fun k r hk => ?_
  obtain ⟨d, hd, -, rfl⟩ := hp.fieldKeys_eq_some.mp hk
  rw [hd]
  simp

theorem classNames (hp : Contents b p) (h : Consistent ops b) : (p.classes.toList.map (·.name)).Nodup := by
  rw [List.nodup_iff_getElem?_ne_getElem?]
  intro c k hlt hk heq
  rw [List.length_map, Array.length_toList] at hk
  rw [List.getElem?_map, List.getElem?_map, Array.getElem?_toList, Array.getElem?_toList,
    Array.getElem?_eq_getElem hk, Array.getElem?_eq_getElem (Nat.lt_trans hlt hk)] at heq
  have := (hp.hierarchy h).names c k _ _ (Array.getElem?_eq_getElem (Nat.lt_trans hlt hk))
    (Array.getElem?_eq_getElem hk) (Option.some.inj heq)
  omega

theorem subsigs (hp : Contents b p) (h : Consistent ops b) {c : ClassId} {d : Class}
    (hd : p.classes[c]? = some d) : (d.methods.toList.map fun m => (p.method m).subsig).Nodup := by
  refine (hp.methodRoster h).nodup_names (show _ = some d.methods.toList by rw [hd]; rfl) ?_
  intro k r l t hk hl heq
  rw [← (hp.methodKeys_eq_some.mp hk).2.2, ← (hp.methodKeys_eq_some.mp hl).2.2, heq]

theorem fieldNames (hp : Contents b p) (h : Consistent ops b) {c : ClassId} {d : Class}
    (hd : p.classes[c]? = some d) : (d.fields.toList.map fun f => p.fields[f]?.map (·.name)).Nodup := by
  refine (hp.fieldRoster h).nodup_names (show _ = some d.fields.toList by rw [hd]; rfl) ?_
  intro k r l t hk hl heq
  obtain ⟨e₁, he₁, -, rfl⟩ := hp.fieldKeys_eq_some.mp hk
  obtain ⟨e₂, he₂, -, rfl⟩ := hp.fieldKeys_eq_some.mp hl
  rw [he₁, he₂] at heq
  exact Option.some.inj heq

/-! ### Variables -/

theorem listedVar (hp : Contents b p) (h : Consistent ops b) {v : VarId} {x : Var} (hx : p.vars[v]? = some x) :
    (p.method x.method).vars[x.index]? = some v := by
  obtain ⟨d, hd, hv⟩ := h.vars.listed v x (hp.vars ▸ hx)
  rw [hp.method_eq hd, Draft.toMethod, Draft.header_close]
  exact hv

theorem placedVar (hp : Contents b p) (h : Consistent ops b) {i : Nat} {v : VarId}
    (hv : (p.method m).vars[i]? = some v) : ∃ x, p.vars[v]? = some x ∧ x.method = m ∧ x.index = i := by
  cases hd : b.drafts[m]? with
  | none =>
    rw [Program.method_eq_default (by rw [hp.methods]; simpa using hd)] at hv
    rw [Array.getElem?_eq_none (Nat.zero_le i)] at hv
    cases hv
  | some d =>
    rw [hp.method_eq hd, Draft.toMethod, Draft.header_close] at hv
    rw [hp.vars]
    exact h.vars.placed m d i v hd hv

/-- The statements of the program are about variables of their own method. -/
theorem owned (hp : Contents b p) (h : Consistent ops b) {v : VarId} {x : Var} (hx : p.vars[v]? = some x)
    {site : Site} {s : Stmt Nat} (hs : p.stmt? site = some s) (hv : v ∈ s.mentions) :
    site.method = x.method := by
  have hlt := Program.stmt?_lt hs
  rw [hp.methods, Array.size_map] at hlt
  obtain ⟨d, hd⟩ : ∃ d, b.drafts[site.method]? = some d := ⟨_, Array.getElem?_eq_getElem hlt⟩
  obtain ⟨t, ht, hv⟩ : ∃ t ∈ d.close.code.toList.map (·.1), v ∈ t.mentions := by
    rw [Program.stmt?, hp.method_eq hd] at hs
    obtain ⟨i, hi, rfl⟩ := Option.map_eq_some_iff.mp hs
    rw [Draft.toMethod, Array.getElem?_map] at hi
    obtain ⟨t, ht, rfl⟩ := Option.map_eq_some_iff.mp hi
    exact ⟨t.1, List.mem_map_of_mem (Array.mem_toList_iff.mpr (Array.mem_of_getElem? ht)), by simpa using hv⟩
  rw [stmts_close, (h.bodies.follows _ d hd).code] at ht
  rcases List.mem_append.mp ht with ht | ht
  · obtain ⟨y, hy, hm⟩ := (h.bodies.suits _ t ht).vars v hv
    rw [← hp.vars, hx] at hy
    obtain rfl := Option.some.inj hy
    exact hm.symm
  · split at ht
    · cases ht
    · obtain rfl := List.mem_singleton.mp ht
      cases hv

/-- A table of a variable is the view of its method: every statement through the variable is in that
method. -/
theorem noted_eq_view (hp : Contents b p) (h : Consistent ops b)
    (hindex : p.index.Describes p.vars.size p.bodies) {v : VarId} {x : Var} (hx : p.vars[v]? = some x)
    {t : VarIndex} (ht : p.index.vars[v]? = some t) (k : Access) :
    (k.noted t).toList = (k.view (p.method x.method) v).map (Site.mk x.method) := by
  have hown : ∀ site ∈ (k.noted t).toList, (site.method == x.method) = true := by
    intro site hsite
    obtain ⟨s, hs, hk⟩ := (hindex.mem_noted ht).mp hsite
    exact beq_iff_eq.mpr (hp.owned h hx hs (Stmt.mem_mentions_of_access? hk))
  rw [Access.view_eq, Method.positions_eq, ← p.getD_bodies, ← hindex.lists v t ht k x.method,
    List.filter_eq_self.mpr hown]

theorem lists (hp : Contents b p) (h : Consistent ops b) (hindex : p.index.Describes p.vars.size p.bodies)
    {v : VarId} {x : Var} (hx : p.vars[v]? = some x) {t : VarIndex} (ht : p.index.vars[v]? = some t) (k : Access) :
    p.Lists (fun s => s.access? = some (k, v)) x.method (k.noted t).toList where
  sorted := by
    rw [hp.noted_eq_view h hindex hx ht, List.pairwise_map, Access.view_eq]
    exact List.pairwise_lt_range.filter _
  own site hsite := by
    rw [hp.noted_eq_view h hindex hx ht] at hsite
    obtain ⟨i, -, rfl⟩ := List.mem_map.mp hsite
    rfl
  all site := hindex.mem_noted ht

/-! ### The hierarchy -/

theorem mem_subclassesOf (hp : Contents b p) (h : Consistent ops b) {c k : ClassId} {d : Class}
    (hd : p.classes[k]? = some d) : k ∈ p.subclassesOf c ↔ d.super = some c ∨ c ∈ d.interfaces :=
  (hp.hierarchy h).mem_subclassesOf hd

theorem superChains (hp : Contents b p) (h : Consistent ops b) :
    WellFounded fun s c => p.superOf c = some s := by
  refine Subrelation.wf (r := fun s c : Nat => s < c) (fun {s c} hs => ?_) Nat.lt_wfRel.wf
  obtain ⟨d, hd, hs⟩ := Option.bind_eq_some_iff.mp hs
  exact (hp.hierarchy h).super_lt c s d hd hs

end Contents

/-! ## The theorem -/

/-- Every program that is built is what the calls of its builder say, if each method uses only its own
variables and labels, and its tables and views agree. -/
theorem build_represents (h : History ops b) (hb : b.build = .ok p) : Represents ops p := by
  obtain ⟨hok, hclasses, hfields, hvars, hmethods, hbound⟩ := build_ok hb
  have hp : Contents b p := ⟨hclasses, hfields, hvars, hmethods⟩
  have hall := h.consistent hok
  have hindex := build_described h.made hb
  constructor
  case class_id => exact fun c d hd => hp.findClass hall hd
  case method_id => exact fun m e he => hp.declaredMethod hall he
  case field_id => exact fun f e he => hp.declaredField hall he
  case var_id => exact fun v x hx => hp.listedVar hall hx
  case var_owner => exact fun m i v hv => hp.placedVar hall hv
  case nodes =>
    refine fun m => ⟨rfl, ?_, fun i s hs => ⟨?_, ?_⟩⟩
    · simp only [Program.nodeIndex, Method.exit]
      omega
    · rw [Program.stmt?] at hs
      simp only [Program.stmtAt, Method.stmtAt, hs, Option.getD_some]
    · simp only [Program.nodeIndex]
      omega
  case bodies =>
    intro m hm
    rw [hmethods, Array.size_map] at hm
    have hd := Array.getElem?_eq_getElem hm
    rw [hp.method_eq hd]
    refine (hall.bodies.follows m _ hd).assembled (h.made.sound m _ hd) (hbound m _ hd) fun s hs l hl => ?_
    obtain ⟨d, hd', hl⟩ := (hall.bodies.suits m s hs).labels l hl
    obtain rfl := Option.some.inj (hd.symm.trans hd')
    exact hl
  case accesses =>
    intro v x hx
    obtain ⟨t, ht⟩ : ∃ t, p.index.vars[v]? = some t :=
      ⟨_, Array.getElem?_eq_getElem (hindex.vars_size ▸ lt_size_of_getElem? hx)⟩
    exact ⟨t, ht, fun k => ⟨hp.lists hall hindex hx ht k, hp.noted_eq_view hall hindex hx ht k⟩⟩
  case through => exact fun v t ht site => hindex.mem_sitesThrough ht
  case indexed =>
    intro m hm
    have hbody : p.bodies[m]? = some ((p.method m).body.map (·.stmt)) := by
      simp [Program.bodies, Program.method, Array.getD_eq_getD_getElem?, hm]
    obtain ⟨t, ht⟩ : ∃ t, p.index.bodies[m]? = some t :=
      ⟨_, Array.getElem?_eq_getElem (hindex.bodies_size ▸ lt_size_of_getElem? hbody)⟩
    exact ⟨t, ht, indexed_of_notes (hindex.notes m t _ ht hbody) (build_sealed hb hm ht)⟩
  case subclasses => exact fun c k d hd => hp.mem_subclassesOf hall hd
  case superChains => exact hp.superChains hall
  case classNames => exact hp.classNames hall
  case subsigs => exact fun c d hd => hp.subsigs hall hd
  case fieldNames => exact fun c d hd => hp.fieldNames hall hd

/-- A class hierarchy, and a method that stores in a loop and leaves it for its end. -/
def storingLoop : List Operation :=
  [.addClass "Shape" .interface none [], .addClass "Base" .abstract none [0], .addClass "Box" .concrete (some 1) [0],
   .addField 2 "size" (.prim .int) false, .addMethod 2 { name := "grow", params := [("by", .prim .int)] },
   .newLabel 0, .newLabel 0, .bind 0 0, .add 0 (.storeField (some 0) 0 1), .addBranch 0 .lt 1 1 0,
   .add 0 (.jump 1), .bind 0 1]

theorem storingLoop_represented : ∃ b p, History storingLoop b ∧ b.build = .ok p ∧ Represents storingLoop p := by
  obtain ⟨b, hb⟩ := Option.isSome_iff_exists.mp
    (show (performAll? {} storingLoop).isSome = true by decide +kernel)
  have hok : (b.build.toOption).isSome = true := by
    have : ((performAll? {} storingLoop).bind fun b => b.build.toOption).isSome = true := by decide +kernel
    rwa [hb] at this
  have h : History storingLoop b := History.nil.performAll hb
  cases hp : b.build with
  | error e =>
    rw [hp] at hok
    cases hok
  | ok p => exact ⟨b, p, h, hp, build_represents h hp⟩

end Builder

end WholeProgram
