import WholeProgram.Proofs.Lowering.Invariant

/-!
# Declarations keep the invariant

* `Keeps` — an action keeps what holds of the state;
* `declare_new` — a method is declared under a subsignature that its class does not have;
* `keeps_methodFor` — a function gets its method once, and waits for its body at most once;
* `Mention.keeps` — the declarations that bodies ask for;
* `keeps_declarePackage` — those that come before the bodies;
* `Paused` — the invariant, when no more functions are queued;
* `keeps_declareAllocated`, `keeps_recordImplementations` — the declarations that come after the bodies.
-/

namespace WholeProgram.Lowering

open Ssa (TypeId FuncId GlobalId)

section

variable {α β : Type} {S : Setting} {I : State → Prop}

/-- The action keeps what holds of the state. -/
def Keeps (S : Setting) (I : State → Prop) (x : Lower α) : Prop := ∀ s, I s → I (x S s).2

theorem keeps_pure (a : α) : Keeps S I (pure a) := fun _ hs => hs

theorem Keeps.bind {x : Lower α} {f : α → Lower β} (hx : Keeps S I x) (hf : ∀ a, Keeps S I (f a)) :
    Keeps S I (x >>= f) := fun s hs => hf _ _ (hx s hs)

theorem Keeps.ite {x y : Lower α} {c : Prop} [Decidable c] (hx : Keeps S I x) (hy : Keeps S I y) :
    Keeps S I (if c then x else y) := by
  split
  · exact hx
  · exact hy

theorem keeps_types : Keeps S I types := fun _ hs => hs

theorem keeps_get : Keeps S I (get : Lower State) := fun _ hs => hs

/-- What is read is the setting. -/
theorem Keeps.read {f : Setting → Lower β} (hf : Keeps S I (f S)) : Keeps S I (read >>= f) := hf

theorem keeps_modify {f : State → State} (hf : ∀ s, I s → I (f s)) : Keeps S I (modify f) := hf

theorem Keeps.forIn {as : List α} {f : α → β → Lower (ForInStep β)} (hf : ∀ a ∈ as, ∀ b, Keeps S I (f a b)) (b : β) :
    Keeps S I (forIn as b f) := by
  induction as generalizing b with
  | nil => exact keeps_pure b
  | cons a as ih =>
    rw [List.forIn_cons]
    refine (hf a List.mem_cons_self b).bind fun r => ?_
    cases r with
    | done b => exact keeps_pure b
    | yield b => exact ih (fun a ha => hf a (List.mem_cons_of_mem _ ha)) b

theorem Keeps.forIn_array {as : Array α} {f : α → β → Lower (ForInStep β)} (hf : ∀ a ∈ as, ∀ b, Keeps S I (f a b))
    (b : β) : Keeps S I (ForIn.forIn as b f) := by
  rw [← Array.forIn_toList]
  exact .forIn (fun a ha => hf a (Array.mem_toList_iff.mp ha)) b

end

variable {S : Setting} {done front : List Work} {awaited : MethodId → Label → Prop} {s : State}

theorem bind_apply {α β : Type} (x : Lower α) (f : α → Lower β) (S : Setting) (s : State) :
    (x >>= f) S s = f (x S s).1 S (x S s).2 := rfl

theorem read_bind_apply {β : Type} (f : Setting → Lower β) (S : Setting) (s : State) : (read >>= f) S s = f S S s := rfl

theorem types_bind_apply {β : Type} (f : Ssa.Types → Lower β) (S : Setting) (s : State) :
    (types >>= f) S s = f S.types S s := rfl

theorem Enlisting.keeps {α : Type} {x : Lower α} {given : List ClassId} {refs : α → List ClassId}
    (hx : Enlisting given x refs) : Keeps S (Invariant S done front awaited) x :=
  fun s hs => hs.enlists (hx.enlists S s) (hx.tidy S s hs.toTidy)

/-- The action changes nothing that the invariant is about. -/
theorem keeps_aside {g : State → State} (hg : ∀ s, (g s).core = s.core) :
    Keeps S (Invariant S done front awaited) (modify g) := keeps_modify fun s hs => hs.congr (hg s)

/-! ## Fields -/

/-- A field that its class does not have. -/
theorem core_addField {c : ClassId} {name : String} (ty : Ty) (isStatic : Bool)
    (hnone : s.builder.findField? c name = none) :
    ({ s with builder := (s.builder.addField c name ty isStatic).1 } : State).core = s.core := by
  have hkeys : (s.builder.addField c name ty isStatic).1.classes.map classKey = s.builder.classes.map classKey := by
    simp only [Builder.addField, hnone]
    exact map_modify_of_same fun _ => rfl
  have herrors : (s.builder.addField c name ty isStatic).1.errors = s.builder.errors := by
    simp only [Builder.addField, hnone]
  have hdrafts : (s.builder.addField c name ty isStatic).1.drafts = s.builder.drafts := by
    simp only [Builder.addField, hnone]
  simp only [State.core, hkeys, herrors, hdrafts]

theorem keeps_ensureField (c : ClassId) (name : String) (ty : Ty) :
    Keeps S (Invariant S done front awaited) (build (·.ensureField c name ty)) := by
  intro s hs
  refine hs.congr ?_
  show ({ s with builder := (s.builder.ensureField c name ty).1 } : State).core = s.core
  cases hfind : s.builder.findField? c name with
  | some f => simp only [Builder.ensureField, hfind]
  | none =>
    simp only [Builder.ensureField, hfind]
    exact core_addField ty false hfind

theorem keeps_fieldOf (t : TypeId) (index : Nat) : Keeps S (Invariant S done front awaited) (fieldOf t index) := by
  refine keeps_types.bind fun ts => ?_
  dsimp only
  refine (enlisting_classOf _).keeps.bind fun c => (enlisting_tyOf _).keeps.bind fun ty => ?_
  exact keeps_ensureField c _ ty

theorem keeps_cellField (ptr elem : TypeId) : Keeps S (Invariant S done front awaited) (cellField ptr elem) :=
  (enlisting_classFor ptr).keeps.bind fun c => (enlisting_tyOf elem).keeps.bind fun ty => keeps_ensureField c "value" ty

theorem keeps_globalField (g : GlobalId) : Keeps S (Invariant S done front awaited) (globalField g) := by
  have hinsert (f : FieldId) : Keeps S (Invariant S done front awaited) (do
      modify fun s => { s with globals := s.globals.insert g f }
      return f) := (keeps_aside (by exact fun _ => rfl)).bind fun _ => keeps_pure f
  refine keeps_get.bind fun s₀ => ?_
  split
  · exact keeps_pure _
  · refine .read ((enlisting_packageClass _).keeps.bind fun c s hs => ?_)
    rw [get_bind_apply]
    cases hfind : s.builder.findField? c (S.source.global g).name with
    | some f => exact hinsert f s hs
    | none =>
      -- between the search and the declaration there are classes only
      have htype := enlisting_tyOf (S.types.deref (S.source.global g).ty)
      have hnone := (htype.enlists S s).findField? hfind
      refine hinsert _ _ ((htype.keeps s hs).congr ?_)
      exact core_addField _ true hnone

/-! ## Methods -/

theorem length_mapM {α β : Type} (f : α → Lower β) (as : List α) (S : Setting) (s : State) :
    (as.mapM f S s).1.length = as.length := by
  induction as generalizing s with
  | nil => rfl
  | cons a as ih =>
    rw [List.mapM_cons]
    exact congrArg (· + 1) (ih (f a S s).2)

theorem length_paramTypes (sig : TypeId) (S : Setting) (s : State) :
    (paramTypes sig S s).1.length = (S.types.params sig).length := length_mapM _ _ S s

theorem snd_addMethod (b : Builder) (c : ClassId) (spec : Builder.MethodSpec) :
    (b.addMethod c spec).2 = b.drafts.size := by
  rw [Builder.addMethod_eq]
  dsimp only
  split <;> rfl

/-- A method that is declared when its class was found not to have one with its subsignature: up to that
there are new classes only, and the subsignature is the same. -/
theorem declare_new {c : ClassId} {name : String} {sig : TypeId} {names : List String} (isStatic : Bool)
    (pos : Option String) (hs : Tidy s) (hnames : names.length = (S.types.params sig).length)
    (hnone : (subsignatureOf name sig S s).2.builder.declaredMethod? c (subsignatureOf name sig S s).1 = none) :
    ∃ s' spec, Enlists (subsignatureOf name sig S s).2 s' ∧ Tidy s' ∧ spec.isAbstract = false ∧
      s'.builder.declaredMethod? c (subsignature s'.builder.className spec.name (spec.params.map (·.2))) = none ∧
      declare c name sig names isStatic pos S (subsignatureOf name sig S s).2 =
        (s'.builder.drafts.size, { s' with builder := (s'.builder.addMethod c spec).1 }) := by
  have hparams := enlisting_paramTypes sig
  have hagain := hparams.again S s (paramTypes sig S s).2 fun _ _ h => h
  have htidy := hparams.tidy S s hs
  obtain ⟨s', returns, henlists, htidy', hdeclare⟩ : ∃ s' returns, Enlists (paramTypes sig S s).2 s' ∧ Tidy s' ∧
      declare c name sig names isStatic pos S (paramTypes sig S s).2 =
        build (·.addMethod c { name, isStatic, params := names.zip (paramTypes sig S s).1, returns, pos }) S s' := by
    rw [declare, bind_apply, hagain]
    dsimp only
    rw [types_bind_apply]
    rcases S.types.results sig with _ | ⟨r, _ | ⟨r', rs⟩⟩
    · exact ⟨_, _, .refl _, htidy, rfl⟩
    · exact ⟨_, _, (enlisting_tyOf r.2).enlists S _, (enlisting_tyOf r.2).tidy S _ htidy, rfl⟩
    · exact ⟨_, _, .refl _, htidy, rfl⟩
  refine ⟨s', _, henlists, htidy', rfl, ?_, hdeclare.trans (Prod.ext (snd_addMethod _ _ _) rfl)⟩
  have htypes : (names.zip (paramTypes sig S s).1).map (·.2) = (paramTypes sig S s).1 :=
    List.map_snd_zip (Nat.le_of_eq (by rw [length_paramTypes, hnames]))
  dsimp only
  rw [htypes, subsignature_congr name fun k hk => ?_]
  · exact henlists.declaredMethod? hnone
  · rcases hparams.known S s k hk with hgiven | ⟨n, hn⟩
    · cases hgiven
    · exact henlists.className (htidy.lt hn)

theorem length_paramNames (params : List Ssa.Binding) : (paramNames params).length = params.length := by
  rw [paramNames, List.length_map, List.length_zipIdx]

/-- The class of a function: that of its receiver, or of its package. -/
def ownerClass (S : Setting) (f : FuncId) : Lower ClassId :=
  match S.types.receiver? (S.source.func f).sig with
  | none => packageClass (S.source.owner? f)
  | some r => receiverClass r

/-- The function has values for the parameters of its signature, and for its receiver. -/
def completeFunc (S : Setting) (f : FuncId) : Bool :=
  (S.source.func f).params.length == (S.types.params (S.source.func f).sig).length +
    (if (S.types.receiver? (S.source.func f).sig).isSome then 1 else 0)

/-- The names of the parameters of the method of a function. -/
def formalNames (S : Setting) (f : FuncId) : List String :=
  let d := S.source.func f
  if completeFunc S f then
    (d.params.drop (if (S.types.receiver? d.sig).isSome then 1 else 0)).map d.valueName
  else
    paramNames (S.types.params d.sig)

/-- The method of a function that has none, in its class. -/
def methodIn (S : Setting) (f : FuncId) (c : ClassId) : Lower MethodId := do
  let d := S.source.func f
  let subsig ← subsignatureOf d.name d.sig
  match (← get).builder.declaredMethod? c subsig with
  | some m =>
    modify fun s => { s with methods := s.methods.insert f m }
    return m
  | none =>
    let m ← declare c d.name d.sig (formalNames S f) (S.types.receiver? d.sig).isNone d.pos
    modify fun s => { s with methods := s.methods.insert f m }
    if d.blocks.isSome && S.lowers ((S.source.owner? f).getD "") && completeFunc S f then
      modify fun s => { s with waiting := s.waiting ++ [(f, m)] }
    else
      modify fun s => { s with stubs := s.stubs + 1 }
    return m

theorem methodFor_eq {f : FuncId} (hnone : s.methods[f]? = none) :
    methodFor f S s = (ownerClass S f >>= methodIn S f) S s := by
  rw [methodFor, get_bind_apply, hnone]
  dsimp only
  rw [read_bind_apply, bind_apply, ownerClass]
  unfold methodIn formalNames completeFunc
  cases hreceiver : S.types.receiver? (S.source.func f).sig with
  | none =>
    simp only [hreceiver]
    rfl
  | some r =>
    simp only [hreceiver]
    rfl

theorem length_formalNames (S : Setting) (f : FuncId) :
    (formalNames S f).length = (S.types.params (S.source.func f).sig).length := by
  unfold formalNames
  dsimp only
  split
  · rename_i hcomplete
    rw [completeFunc, beq_iff_eq] at hcomplete
    rw [List.length_map, List.length_drop, hcomplete, Nat.add_sub_cancel]
  · exact length_paramNames _

/-- Functions with a body are functions of the source program. -/
theorem lt_of_blocks {f : FuncId} (h : (S.source.func f).blocks.isSome) : f < S.source.funcs.size := by
  by_contra hge
  rw [Ssa.Program.func, Array.getD_eq_getD_getElem?, Array.getElem?_eq_none (Nat.le_of_not_lt hge)] at h
  cases h

/-- A function is known by the method that its class has, or gets a new one. -/
theorem Invariant.methodIn {f : FuncId} (h : Invariant S done front awaited s) (hf : s.methods[f]? = none)
    (c : ClassId) : Invariant S done front awaited (methodIn S f c S s).2 := by
  have hparams := enlisting_paramTypes (S.source.func f).sig
  have h₁ := hparams.keeps s h
  have hf₁ : (paramTypes (S.source.func f).sig S s).2.methods[f]? = none := by
    rw [(hparams.enlists S s).methods]
    exact hf
  rw [Lowering.methodIn, bind_apply, get_bind_apply]
  cases hfind : (subsignatureOf (S.source.func f).name (S.source.func f).sig S s).2.builder.declaredMethod? c
      (subsignatureOf (S.source.func f).name (S.source.func f).sig S s).1 with
  | some m => exact h₁.know hf₁ m
  | none =>
    dsimp only
    obtain ⟨s₂, spec, henlists, htidy, hconcrete, hnone, hdeclare⟩ := declare_new
      (S.types.receiver? (S.source.func f).sig).isNone (S.source.func f).pos h.toTidy (length_formalNames S f) hfind
    have h₂ : Invariant S done front awaited s₂ := h₁.enlists henlists htidy
    have hf₂ : s₂.methods[f]? = none := henlists.methods ▸ hf₁
    rw [bind_apply, hdeclare, bind_apply]
    split
    · rename_i hbody
      have hblocks : (S.source.func f).blocks.isSome := by
        simp only [Bool.and_eq_true] at hbody
        exact hbody.1.1
      refine h₂.grow hconcrete hnone rfl rfl rfl rfl (fun hsize => ?_) (List.prefix_append _ _) ?_
      · show Queued S (done ++ (s₂.waiting ++ [(f, s₂.builder.drafts.size)])) _
        rw [← List.append_assoc]
        exact h₂.queued.concat hf₂ (lt_of_blocks hblocks) rfl hsize
      · show s₂.stubs + (s₂.waiting ++ [(f, s₂.builder.drafts.size)]).length = _
        rw [List.length_append, List.length_singleton, Nat.add_assoc]
    · refine h₂.grow hconcrete hnone rfl rfl rfl rfl (fun hsize => ?_) (List.prefix_refl _) ?_
      · refine h₂.queued.mono (fun _ _ hk => getElem?_insert_of_some _ hf₂ hk) ?_
        exact Nat.le_of_lt (hsize ▸ Nat.lt_succ_self _)
      · show s₂.stubs + 1 + s₂.waiting.length = _
        rw [Nat.add_right_comm]

theorem keeps_methodFor (f : FuncId) : Keeps S (Invariant S done front awaited) (methodFor f) := by
  intro s h
  cases hf : s.methods[f]? with
  | some m =>
    rw [methodFor, get_bind_apply, hf]
    exact h
  | none =>
    have howner : ∃ given refs, Enlisting given (ownerClass S f) refs := by
      unfold ownerClass
      split
      · exact ⟨_, _, enlisting_packageClass _⟩
      · exact ⟨_, _, enlisting_receiverClass _⟩
    obtain ⟨given, refs, howner⟩ := howner
    rw [methodFor_eq hf, bind_apply]
    refine (howner.keeps s h).methodIn ?_ _
    rw [(howner.enlists S s).methods]
    exact hf

/-! ## Bodies and packages -/

theorem Mention.keeps {α : Type} {x : Lower α} (h : Mention x) : Keeps S (Invariant S done front awaited) x := by
  cases h with
  | types => exact keeps_types
  | type t => exact (enlisting_tyOf t).keeps
  | classOf t => exact (enlisting_classOf t).keeps
  | field t index => exact keeps_fieldOf t index
  | cell ptr elem => exact keeps_cellField ptr elem
  | global g => exact keeps_globalField g
  | subsignature name sig => exact (enlisting_paramTypes sig).keeps.bind fun _ => keeps_get.bind fun _ => keeps_pure _
  | method f => exact keeps_methodFor f
  | object c =>
    refine keeps_aside fun s => ?_
    split <;> rfl

theorem keeps_declareMember (pkg : Ssa.Package) (name : String) (member : Ssa.Member) :
    Keeps S (Invariant S done front awaited) (declareMember pkg name member) := by
  cases member with
  | func f =>
    refine .read (.ite (keeps_pure _) ((keeps_methodFor f).bind fun m => .ite ?_ (.ite ?_ (keeps_pure _))))
    · exact keeps_aside fun _ => rfl
    · exact keeps_aside fun _ => rfl
  | global g => exact (keeps_globalField g).bind fun _ => keeps_pure _
  | type t =>
    refine .read ?_
    split
    · split
      · exact (enlisting_interfaceFor _ _).keeps.bind fun _ => keeps_pure _
      · refine (enlisting_receiverClass t).keeps.bind fun c => (keeps_aside (by exact fun _ => rfl)).bind fun _ => ?_
        refine (Keeps.forIn (fun sel _ r => ?_) _).bind fun _ => keeps_pure _
        split
        · exact (keeps_methodFor _).bind fun _ => keeps_pure _
        · exact keeps_pure _
    · exact keeps_pure _
  | const => exact keeps_pure _

theorem keeps_declarePackage (pkg : Ssa.Package) : Keeps S (Invariant S done front awaited) (declarePackage pkg) := by
  refine (enlisting_packageClass _).keeps.bind fun _ => (Keeps.forIn (fun m _ r => ?_) _).bind fun _ => keeps_pure _
  exact (keeps_declareMember pkg m.1 m.2).bind fun _ => keeps_pure _

/-! ## After the bodies -/

/-- No function is added to the queue. -/
structure Paused (S : Setting) (done queue : List Work) (awaited : MethodId → Label → Prop) (s : State) : Prop
    extends Invariant S done queue awaited s where
  waiting : s.waiting = queue

variable {queue : List Work}

theorem Paused.congr {s' : State} (h : Paused S done queue awaited s) (hcore : s'.core = s.core) :
    Paused S done queue awaited s' := by
  refine ⟨h.toInvariant.congr hcore, ?_⟩
  simp only [State.core, Prod.mk.injEq] at hcore
  exact hcore.2.2.2.2.2.2.1.trans h.waiting

theorem Paused.enlists {s' : State} (h : Paused S done queue awaited s) (he : Enlists s s') (ht : Tidy s') :
    Paused S done queue awaited s' := ⟨h.toInvariant.enlists he ht, he.waiting.trans h.waiting⟩

/-- A method that a class from elsewhere has not yet is declared without a body. -/
theorem keeps_declareStub {β : Type} {k : Lower β} (hk : Keeps S (Paused S done queue awaited) k) (c : ClassId)
    (sel : Ssa.Selection) : Keeps S (Paused S done queue awaited) (do
      let subsig ← subsignatureOf sel.name sel.sig
      if ((← get).builder.declaredMethod? c subsig).isNone then
        let _ ← declare c sel.name sel.sig (paramNames (S.types.params sel.sig)) false none
        modify fun s => { s with stubs := s.stubs + 1 }
      k) := by
  intro s h
  have hparams := enlisting_paramTypes sel.sig
  have h₁ := h.enlists (hparams.enlists S s) (hparams.tidy S s h.toTidy)
  rw [bind_apply, get_bind_apply]
  split
  · rename_i hfind
    obtain ⟨s', spec, henlists, htidy, hconcrete, hnone, hdeclare⟩ := declare_new false none h.toTidy
      (length_paramNames (S.types.params sel.sig)) (Option.isNone_iff_eq_none.mp hfind)
    have h' : Paused S done queue awaited s' := h₁.enlists henlists htidy
    rw [bind_apply, hdeclare]
    refine hk _ ⟨h'.grow hconcrete hnone rfl rfl rfl rfl (fun hsize => ?_) (List.prefix_refl _) ?_, h'.waiting⟩
    · exact h'.queued.mono (fun _ _ hm => hm) (Nat.le_of_lt (hsize ▸ Nat.lt_succ_self _))
    · show s'.stubs + 1 + s'.waiting.length = _
      rw [Nat.add_right_comm]
  · exact hk _ h₁

theorem keeps_declareAllocated : Keeps S (Paused S done queue awaited) declareAllocated := by
  refine .read (keeps_get.bind fun s₀ => (Keeps.forIn_array (fun e _ r s hs => ?_) _).bind fun _ => keeps_pure _)
  dsimp only
  rw [get_bind_apply]
  split
  · have hmark : Paused S done queue awaited { s with dispatchable := s.dispatchable.insert e.1 } := hs.congr rfl
    have hstubs : Keeps S (Paused S done queue awaited)
        (forIn (S.source.methodsOf e.2) PUnit.unit fun sel _ => do
          let subsig ← subsignatureOf sel.name sel.sig
          if ((← get).builder.declaredMethod? e.1 subsig).isNone then
            let _ ← declare e.1 sel.name sel.sig (paramNames (S.types.params sel.sig)) false none
            modify fun s => { s with stubs := s.stubs + 1 }
          pure (.yield PUnit.unit)) := .forIn (fun sel _ _ => keeps_declareStub (keeps_pure _) e.1 sel) _
    exact Keeps.ite (hstubs.bind fun _ => keeps_pure _) (keeps_pure _) _ hmark
  · exact hs

/-- An interface may be implemented. -/
theorem core_implement (c : ClassId) {i : ClassId}
    (hi : (s.builder.classes[i]?).map (·.isInterface) = some true) :
    ({ s with builder := s.builder.implement c i } : State).core = s.core := by
  unfold Builder.implement
  rw [if_neg (by simp [hi])]
  split
  · rfl
  · have hkeys : ((s.builder.classes.modify c fun d => { d with interfaces := d.interfaces.push i }).modify i fun d =>
        { d with subclasses := d.subclasses.push c }).map classKey = s.builder.classes.map classKey := by
      rw [map_modify_of_same, map_modify_of_same]
      · exact fun _ => rfl
      · exact fun _ => rfl
    simp only [State.core, hkeys]

theorem keeps_recordImplementations : Keeps S (Paused S done queue awaited) recordImplementations := by
  refine .read fun s₀ hs₀ => ?_
  rw [get_bind_apply]
  -- the interfaces are those that there were at the beginning
  let Recorded (s : State) : Prop := Paused S done queue awaited s ∧ s.interfaces = s₀.interfaces
  have hall {x : Lower Unit} (hx : Keeps S Recorded x) : Paused S done queue awaited (x S s₀).2 :=
    (hx s₀ ⟨hs₀, rfl⟩).1
  refine hall ?_
  refine (Keeps.forIn_array (fun e he r => ?_) _).bind fun _ => keeps_pure _
  refine .ite ((Keeps.forIn_array (fun c _ r' => ?_) _).bind fun _ => keeps_pure _) (keeps_pure _)
  refine .ite (Keeps.bind (fun s hs => ?_) fun _ => keeps_pure _) (keeps_pure _)
  exact ⟨hs.1.congr (core_implement c.1 (hs.1.interfaces e (hs.2 ▸ he))), hs.2⟩

end WholeProgram.Lowering
