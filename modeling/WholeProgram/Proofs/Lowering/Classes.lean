import WholeProgram.Lowering.Declaration
import WholeProgram.Proofs.Builder.Tables

/-!
# Classes are found by their names

A type becomes a class, an interface, or an array of these, and which one it is only depends on the names
that have classes. So a type that was asked for once can be asked for again, and gets the same.

* `Enlists` — classes without members were added, and nothing else;
* `Tidy` — the table of names is that of the classes of the builder, and there was no fault;
* `Enlisting` — an action only adds classes, returns such as have names, and finds the same again;
* `enlisting_tyOf` and the like — the actions that find classes.
-/

namespace WholeProgram

/-- A key that is new leaves the others as they are. -/
theorem getElem?_insert_of_some {κ ν : Type} [BEq κ] [Hashable κ] [LawfulBEq κ] [LawfulHashable κ]
    {table : Std.HashMap κ ν} {k a : κ} {v : ν} (w : ν) (hnew : table[k]? = none) (h : table[a]? = some v) :
    (table.insert k w)[a]? = some v := by
  rw [Std.HashMap.getElem?_insert]
  split
  · rename_i heq
    rw [beq_iff_eq.mp heq, h] at hnew
    cases hnew
  · exact h

namespace Ty

/-- The classes that a type mentions. -/
def refs : Ty → List ClassId
  | prim _ => []
  | array t => t.refs
  | ref c => [c]

/-- The text of a type depends on the names of its classes. -/
theorem text_congr {f g : ClassId → String} {ty : Ty} (h : ∀ c ∈ ty.refs, f c = g c) : ty.text f = ty.text g := by
  induction ty with
  | prim p => rfl
  | array t ih => rw [text, text, ih h]
  | ref c => exact h c List.mem_cons_self

end Ty

theorem subsignature_congr {f g : ClassId → String} (name : String) {params : List Ty}
    (h : ∀ c ∈ params.flatMap Ty.refs, f c = g c) : subsignature f name params = subsignature g name params := by
  have htexts : params.map (Ty.text f) = params.map (Ty.text g) := by
    refine List.map_congr_left fun ty hty => Ty.text_congr fun c hc => ?_
    exact h c (List.mem_flatMap.mpr ⟨ty, hty, hc⟩)
  rw [subsignature, subsignature, htexts]

namespace Lowering

open Ssa (TypeId FuncId GlobalId)

/-- Every name that has a class in the earlier state has it in the later one. -/
def Knows (s s' : State) : Prop := ∀ (n : String) (c : ClassId), s.classes[n]? = some c → s'.classes[n]? = some c

/-- Classes without members were added, and nothing else that methods depend on. -/
structure Enlists (s s' : State) : Prop where
  knows : Knows s s'
  classes : ∃ new : Array Class, s'.builder.classes = s.builder.classes ++ new ∧
    ∀ d ∈ new, d.methods = #[] ∧ d.fields = #[]
  fields : s'.builder.fields = s.builder.fields
  vars : s'.builder.vars = s.builder.vars
  drafts : s'.builder.drafts = s.builder.drafts
  globals : s'.globals = s.globals
  methods : s'.methods = s.methods
  waiting : s'.waiting = s.waiting
  functions : s'.functions = s.functions
  stubs : s'.stubs = s.stubs

/-- The names are those of the classes, interfaces are interfaces, and there was no fault. -/
structure Tidy (s : State) : Prop where
  errors : s.builder.errors = #[]
  names : ∀ (n : String) (c : ClassId), s.classes[n]? = some c ↔ (s.builder.classes[c]?).map (·.name) = some n
  size : s.classes.size = s.builder.classes.size
  interfaces : ∀ e ∈ s.interfaces, (s.builder.classes[e.1]?).map (·.isInterface) = some true

variable {s s' s'' : State}

theorem Enlists.refl (s : State) : Enlists s s :=
  ⟨fun _ _ h => h, ⟨#[], Array.append_empty.symm, fun _ h => absurd h (Array.not_mem_empty _)⟩, rfl, rfl, rfl,
    rfl, rfl, rfl, rfl, rfl⟩

theorem Enlists.trans (h : Enlists s s') (h' : Enlists s' s'') : Enlists s s'' where
  knows n c hc := h'.knows n c (h.knows n c hc)
  classes := by
    obtain ⟨new, hnew, hempty⟩ := h.classes
    obtain ⟨new', hnew', hempty'⟩ := h'.classes
    refine ⟨new ++ new', by rw [hnew', hnew, Array.append_assoc], fun d hd => ?_⟩
    rcases Array.mem_append.mp hd with hd | hd
    · exact hempty d hd
    · exact hempty' d hd
  fields := h'.fields.trans h.fields
  vars := h'.vars.trans h.vars
  drafts := h'.drafts.trans h.drafts
  globals := h'.globals.trans h.globals
  methods := h'.methods.trans h.methods
  waiting := h'.waiting.trans h.waiting
  functions := h'.functions.trans h.functions
  stubs := h'.stubs.trans h.stubs

/-- A class is an old one, or has no members. -/
theorem Enlists.cases (h : Enlists s s') {c : ClassId} {d : Class} (hd : s'.builder.classes[c]? = some d) :
    s.builder.classes[c]? = some d ∨ (d.methods = #[] ∧ d.fields = #[]) := by
  obtain ⟨new, hnew, hempty⟩ := h.classes
  rw [hnew, Array.getElem?_append] at hd
  split at hd
  · exact Or.inl hd
  · exact Or.inr (hempty d (Array.mem_of_getElem? hd))

theorem Enlists.className (h : Enlists s s') {c : ClassId} (hc : c < s.builder.classes.size) :
    s'.builder.className c = s.builder.className c := by
  obtain ⟨new, hnew, -⟩ := h.classes
  rw [Builder.className, hnew, Array.getElem?_append_left hc, Builder.className]

theorem Enlists.findField? (h : Enlists s s') {c : ClassId} {name : String}
    (hnone : s.builder.findField? c name = none) : s'.builder.findField? c name = none := by
  cases hd : s'.builder.classes[c]? with
  | none => rw [Builder.findField?, hd, Option.bind_none]
  | some d =>
    rw [Builder.findField?, hd, Option.bind_some]
    rcases h.cases hd with hold | ⟨-, hempty⟩
    · rw [Builder.findField?, hold, Option.bind_some] at hnone
      rw [h.fields]
      exact hnone
    · rw [hempty]
      rfl

theorem Enlists.declaredMethod? (h : Enlists s s') {c : ClassId} {subsig : String}
    (hnone : s.builder.declaredMethod? c subsig = none) : s'.builder.declaredMethod? c subsig = none := by
  cases hd : s'.builder.classes[c]? with
  | none => rw [Builder.declaredMethod?, hd, Option.bind_none]
  | some d =>
    rw [Builder.declaredMethod?, hd, Option.bind_some]
    rcases h.cases hd with hold | ⟨hempty, -⟩
    · rw [Builder.declaredMethod?, hold, Option.bind_some] at hnone
      unfold Builder.header at hnone ⊢
      rw [h.drafts]
      exact hnone
    · rw [hempty]
      rfl

/-- A class that has a name is there. -/
theorem Tidy.lt (h : Tidy s) {n : String} {c : ClassId} (hc : s.classes[n]? = some c) : c < s.builder.classes.size := by
  obtain ⟨d, hd, -⟩ := Option.map_eq_some_iff.mp ((h.names n c).mp hc)
  exact lt_size_of_getElem? hd

/-! ## Actions that find classes -/

theorem get_bind_apply {α : Type} (k : State → Lower α) (S : Setting) (s : State) :
    (get >>= k) S s = k s S s := rfl

section

variable {α β : Type} {given given' : List ClassId}

/-- The action only adds classes, and what it returns mentions only such as are given or have names. Done
again, it finds the same. -/
structure Enlisting (given : List ClassId) (x : Lower α) (refs : α → List ClassId) : Prop where
  enlists : ∀ (S : Setting) (s : State), Enlists s (x S s).2
  tidy : ∀ (S : Setting) (s : State), Tidy s → Tidy (x S s).2
  again : ∀ (S : Setting) (s s' : State), Knows (x S s).2 s' → x S s' = ((x S s).1, s')
  known : ∀ (S : Setting) (s : State), ∀ c ∈ refs (x S s).1, c ∈ given ∨ ∃ n : String, (x S s).2.classes[n]? = some c

variable {x : Lower α} {f : α → Lower β} {refs : α → List ClassId} {refs' : β → List ClassId}

theorem enlisting_pure {a : α} (h : ∀ c ∈ refs a, c ∈ given) : Enlisting given (pure a) refs :=
  ⟨fun _ s => .refl s, fun _ _ hs => hs, fun _ _ _ _ => rfl, fun _ _ c hc => Or.inl (h c hc)⟩

theorem Enlisting.bind (hx : Enlisting given x refs) (hf : ∀ a, Enlisting (refs a ++ given) (f a) refs') :
    Enlisting given (x >>= f) refs' where
  enlists S s := (hx.enlists S s).trans ((hf _).enlists S _)
  tidy S s hs := (hf _).tidy S _ (hx.tidy S s hs)
  again S s s' hknows := by
    have hx' : x S s' = ((x S s).1, s') := by
      refine hx.again S s s' fun n c hc => ?_
      exact hknows n c (((hf _).enlists S _).knows n c hc)
    show f (x S s').1 S (x S s').2 = _
    rw [hx']
    exact (hf _).again S _ s' hknows
  known S s c hc := by
    rcases (hf _).known S _ c hc with hc | hc
    · rcases List.mem_append.mp hc with hc | hc
      · refine (hx.known S s c hc).imp_right fun ⟨n, hn⟩ => ⟨n, ?_⟩
        exact ((hf _).enlists S _).knows n c hn
      · exact Or.inl hc
    · exact Or.inr hc

theorem Enlisting.mono (hx : Enlisting given x refs) (h : ∀ c ∈ given, c ∈ given') : Enlisting given' x refs :=
  ⟨hx.enlists, hx.tidy, hx.again, fun S s c hc => (hx.known S s c hc).imp_left (h c)⟩

theorem enlisting_types : Enlisting given types fun _ => [] :=
  ⟨fun _ s => .refl s, fun _ _ hs => hs, fun _ _ _ _ => rfl, fun _ _ _ hc => absurd hc List.not_mem_nil⟩

theorem enlisting_mapM {f : α → Lower β} (hf : ∀ a, Enlisting [] (f a) refs') (as : List α) :
    Enlisting given (as.mapM f) fun bs => bs.flatMap refs' := by
  induction as generalizing given with
  | nil => exact enlisting_pure nofun
  | cons a as ih =>
    rw [List.mapM_cons]
    refine ((hf a).mono nofun).bind fun b => ih.bind fun bs => enlisting_pure fun c hc => ?_
    rw [List.flatMap_cons] at hc
    rw [← List.append_assoc]
    rcases List.mem_append.mp hc with hc | hc
    · exact List.mem_append_left _ (List.mem_append_right _ hc)
    · exact List.mem_append_left _ (List.mem_append_left _ hc)

end

/-! ### Names -/

section

variable {name : String} {form : Builder.ClassForm} {enlist : ClassId → State → State} {c : ClassId}

/-- A new class may be listed with the named types, and an interface with the interfaces. -/
def Lists (form : Builder.ClassForm) (enlist : ClassId → State → State) : Prop :=
  ∀ c s, ∃ named interfaces, enlist c s = { s with named, interfaces } ∧
    ∀ e ∈ interfaces, e ∈ s.interfaces ∨ (form = .interface ∧ e.1 = c)

theorem classNamed_known (S : Setting) (h : s.classes[name]? = some c) :
    classNamed name form enlist S s = (c, s) := by
  rw [classNamed, get_bind_apply, h]
  rfl

/-- The state with a new class. -/
def State.withClass (s : State) (name : String) (form : Builder.ClassForm) : State :=
  { s with
    builder := (s.builder.addClass name form none []).1
    classes := s.classes.insert name (s.builder.addClass name form none []).2 }

theorem classNamed_new (S : Setting) (h : s.classes[name]? = none) :
    classNamed name form enlist S s =
      let c := (s.builder.addClass name form none []).2
      (c, enlist c (s.withClass name form)) := by
  rw [classNamed, get_bind_apply, h]
  rfl

theorem enlists_withClass (form : Builder.ClassForm) (h : s.classes[name]? = none) :
    Enlists s (s.withClass name form) := by
  have hknows : Knows s (s.withClass name form) := fun n c hc => getElem?_insert_of_some _ h hc
  -- with a name that is taken there is a fault, but no class
  cases hfind : s.builder.findClass? name with
  | some k =>
    have hbuilder : (s.withClass name form).builder = s.builder.fail (.duplicateClass name) := by
      simp only [State.withClass, Builder.addClass, hfind]
    refine ⟨hknows, ⟨#[], ?_, fun _ hd => absurd hd (Array.not_mem_empty _)⟩, ?_, ?_, ?_, rfl, rfl, rfl, rfl,
      rfl⟩ <;> rw [hbuilder]
    · exact Array.append_empty.symm
    · rfl
    · rfl
    · rfl
  | none =>
    have hbuilder : (s.withClass name form).builder = s.builder.openClass name form none := by
      simp only [State.withClass, Builder.addClass, hfind]
      rfl
    refine ⟨hknows, ⟨#[{ name, super := none, isAbstract := form != .concrete, isInterface := form == .interface }],
      ?_, fun d hd => ?_⟩, ?_, ?_, ?_, rfl, rfl, rfl, rfl, rfl⟩
    · rw [hbuilder]
      exact Array.push_eq_append
    · obtain rfl := Array.mem_singleton.mp hd
      exact ⟨rfl, rfl⟩
    · rw [hbuilder]
      rfl
    · rw [hbuilder]
      rfl
    · rw [hbuilder]
      rfl

/-- A name without a class is that of no class of the builder. -/
theorem Tidy.findClass? (h : Tidy s) (hname : s.classes[name]? = none) : s.builder.findClass? name = none := by
  refine Array.findIdx?_eq_none_iff.mpr fun d hd => ?_
  obtain ⟨c, hc⟩ := Array.getElem?_of_mem hd
  refine Bool.eq_false_iff.mpr fun heq => ?_
  have hknown : s.classes[name]? = some c := (h.names name c).mpr (by rw [hc, ← beq_iff_eq.mp heq]; rfl)
  rw [hname] at hknown
  cases hknown

/-- The new class has the next number. -/
theorem Tidy.withClass (h : Tidy s) (form : Builder.ClassForm) (hname : s.classes[name]? = none) :
    Tidy (s.withClass name form) ∧ (s.builder.addClass name form none []).2 = s.builder.classes.size ∧
      ((s.withClass name form).builder.classes[s.builder.classes.size]?).map (·.isInterface) =
        some (form == .interface) := by
  have hfind := h.findClass? hname
  have hclasses : (s.withClass name form).builder.classes = s.builder.classes.push
      { name, super := none, isAbstract := form != .concrete, isInterface := form == .interface } := by
    simp only [State.withClass, Builder.addClass, hfind]
    rfl
  have hid : (s.builder.addClass name form none []).2 = s.builder.classes.size := by
    simp only [Builder.addClass, hfind]
  have htable : (s.withClass name form).classes = s.classes.insert name s.builder.classes.size := by
    rw [State.withClass, hid]
  refine ⟨⟨?_, fun n c => ?_, ?_, fun e he => ?_⟩, hid, ?_⟩
  · simp only [State.withClass, Builder.addClass, hfind]
    exact h.errors
  · rw [htable, hclasses, Std.HashMap.getElem?_insert, Array.getElem?_push]
    by_cases hn : name = n
    · subst hn
      by_cases hc : c = s.builder.classes.size
      · simp [hc]
      · have hnone : ¬ (s.builder.classes[c]?).map (·.name) = some name := by
          rw [← h.names name c, hname]
          exact (Option.some_ne_none c).symm
        simp [hc, Ne.symm hc, hnone]
    · by_cases hc : c = s.builder.classes.size
      · have hnone : s.classes[n]? ≠ some s.builder.classes.size := fun hsome => absurd (h.lt hsome) (Nat.lt_irrefl _)
        simp [hn, hc, hnone]
      · simp [hn, hc, h.names n c]
  · rw [htable, hclasses, Array.size_push, Std.HashMap.size_insert, if_neg, h.size]
    rw [Std.HashMap.mem_iff_isSome_getElem?, hname]
    exact Bool.false_ne_true
  · obtain ⟨d, hd, hinterface⟩ := Option.map_eq_some_iff.mp (h.interfaces e he)
    rw [hclasses, getElem?_push_eq_some.mpr (Or.inl hd)]
    exact congrArg some hinterface
  · rw [hclasses, Array.getElem?_push_size]
    rfl

theorem enlisting_classNamed (hl : Lists form enlist) :
    Enlisting [] (classNamed name form enlist) fun c => [c] := by
  have hstep (S : Setting) (s : State) : Enlists s (classNamed name form enlist S s).2 ∧
      (Tidy s → Tidy (classNamed name form enlist S s).2) ∧
      (classNamed name form enlist S s).2.classes[name]? = some (classNamed name form enlist S s).1 := by
    cases h : s.classes[name]? with
    | some c =>
      rw [classNamed_known S h]
      exact ⟨.refl s, fun hs => hs, h⟩
    | none =>
      rw [classNamed_new S h]
      dsimp only
      obtain ⟨named, interfaces, heq, hold⟩ :=
        hl (s.builder.addClass name form none []).2 (s.withClass name form)
      rw [heq]
      have henlists := enlists_withClass form h
      refine ⟨?_, fun hs => ?_, Std.HashMap.getElem?_insert_self⟩
      · exact ⟨henlists.knows, henlists.classes, henlists.fields, henlists.vars, henlists.drafts,
          henlists.globals, henlists.methods, henlists.waiting, henlists.functions, henlists.stubs⟩
      · obtain ⟨htidy, hid, hinterface⟩ := hs.withClass form h
        refine ⟨htidy.errors, htidy.names, htidy.size, fun e he => ?_⟩
        rcases hold e he with he | ⟨rfl, he⟩
        · exact htidy.interfaces e he
        · show ((s.withClass name .interface).builder.classes[e.1]?).map (·.isInterface) = some true
          rw [he, hid, hinterface]
          rfl
  refine ⟨fun S s => (hstep S s).1, fun S s => (hstep S s).2.1, fun S s s' hknows => ?_, fun S s c hc => ?_⟩
  · exact classNamed_known S (hknows _ _ (hstep S s).2.2)
  · obtain rfl := List.mem_singleton.mp hc
    exact Or.inr ⟨name, (hstep S s).2.2⟩

end

/-! ### Types -/

theorem enlisting_classFor (t : TypeId) : Enlisting [] (classFor t) fun c => [c] := by
  refine enlisting_types.bind fun ts => enlisting_classNamed fun c s => ?_
  split
  · exact ⟨_, _, rfl, fun _ he => Or.inl he⟩
  · exact ⟨_, _, rfl, fun _ he => Or.inl he⟩

theorem enlisting_interfaceFor (t iface : TypeId) : Enlisting [] (interfaceFor t iface) fun c => [c] := by
  refine enlisting_types.bind fun ts => enlisting_classNamed fun c s => ⟨_, _, rfl, fun e he => ?_⟩
  refine (Array.mem_push.mp he).imp_right fun heq => ?_
  rw [heq]
  exact ⟨rfl, rfl⟩

theorem enlisting_packageClass (path : Option String) : Enlisting [] (packageClass path) fun c => [c] :=
  enlisting_classNamed fun _ _ => ⟨_, _, rfl, fun _ he => Or.inl he⟩

theorem enlisting_typeOf (fuel : Nat) (t : TypeId) : Enlisting [] (typeOf fuel t) Ty.refs := by
  have href : ∀ {x : Lower ClassId}, Enlisting [] x (fun c => [c]) →
      Enlisting [] (do return .ref (← x) : Lower Ty) Ty.refs :=
    fun hx => hx.bind fun c => enlisting_pure fun k hk => List.mem_append_left _ hk
  have harray : ∀ {x : Lower Ty}, Enlisting [] x Ty.refs → Enlisting [] (do return .array (← x) : Lower Ty) Ty.refs :=
    fun hx => hx.bind fun ty => enlisting_pure fun k hk => List.mem_append_left _ hk
  induction fuel generalizing t with
  | zero => exact href (enlisting_classFor t)
  | succ fuel ih =>
    refine enlisting_types.bind fun ts => ?_
    split
    · exact enlisting_pure nofun
    · exact enlisting_pure nofun
    · exact enlisting_pure nofun
    · exact enlisting_pure nofun
    · rename_i u _
      split
      · exact ih u
      · exact ih u
      · exact ih u
      · exact href (enlisting_interfaceFor t u)
      · exact href (enlisting_classFor t)
    · rename_i e _
      split
      · exact href (enlisting_classFor t)
      · exact ih e
    · exact harray (ih _)
    · exact harray (ih _)
    · exact href (enlisting_interfaceFor t t)
    · exact href (enlisting_classFor t)

theorem enlisting_tyOf (t : TypeId) : Enlisting [] (tyOf t) Ty.refs :=
  enlisting_types.bind fun _ => enlisting_typeOf _ t

theorem enlisting_classOf (t : TypeId) : Enlisting [] (classOf t) fun c => [c] := by
  refine (enlisting_tyOf t).bind fun ty => ?_
  split
  · exact enlisting_pure fun c hc => List.mem_append_left _ hc
  · exact (enlisting_classFor t).mono nofun

theorem enlisting_receiverClass (t : TypeId) : Enlisting [] (receiverClass t) fun c => [c] := by
  refine enlisting_types.bind fun ts => ?_
  dsimp only
  split
  · split
    · exact enlisting_interfaceFor _ _
    · exact enlisting_classFor _
  · exact enlisting_classOf _

theorem enlisting_paramTypes (sig : TypeId) : Enlisting [] (paramTypes sig) fun params => params.flatMap Ty.refs :=
  enlisting_types.bind fun _ => enlisting_mapM (fun p : Ssa.Binding => enlisting_tyOf p.2) _

end Lowering

end WholeProgram
