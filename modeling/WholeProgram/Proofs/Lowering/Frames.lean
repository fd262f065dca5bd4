import Mathlib.Data.List.Basic
import WholeProgram.Proofs.Lowering.Classes

/-!
# What declarations leave alone

Lowering declares classes, fields and methods when it first comes to them, also while it lowers a body.
None of this touches the drafts of methods that are there.

* `Builder.Extends`, `Extends` — drafts, variables and the fields of globals stay;
* `Framed` — an action only extends what there is, from every state;
* `framed_methodFor` and the like — the actions that declare;
* `extends_globalField` — a global has one field;
* `Mention` — what bodies ask for.
-/

namespace WholeProgram

/-- The later builder has the drafts of the earlier one, and no fewer variables. -/
structure Builder.Extends (b b' : Builder) : Prop where
  drafts : ∀ (m : MethodId) (d : Draft), b.drafts[m]? = some d → b'.drafts[m]? = some d
  vars : b.vars.size ≤ b'.vars.size

namespace Builder.Extends

variable {b b' b'' : Builder}

theorem refl (b : Builder) : b.Extends b := ⟨fun _ _ hd => hd, Nat.le_refl _⟩

theorem trans (h : b.Extends b') (h' : b'.Extends b'') : b.Extends b'' :=
  ⟨fun m d hd => h'.drafts m d (h.drafts m d hd), Nat.le_trans h.vars h'.vars⟩

theorem of_same (hdrafts : b'.drafts = b.drafts) (hvars : b'.vars = b.vars) : b.Extends b' :=
  ⟨fun _ _ hd => hdrafts ▸ hd, Nat.le_of_eq (congrArg Array.size hvars.symm)⟩

theorem addField (b : Builder) (c : ClassId) (name : String) (ty : Ty) (isStatic : Bool) :
    b.Extends (b.addField c name ty isStatic).1 := by
  unfold Builder.addField
  split <;> exact of_same rfl rfl

theorem ensureField (b : Builder) (c : ClassId) (name : String) (ty : Ty) :
    b.Extends (b.ensureField c name ty).1 := by
  unfold Builder.ensureField
  split
  · exact refl b
  · exact addField b c name ty false

/-- A change of a draft that comes after all drafts of the earlier builder. -/
theorem modify_last (h : b.Extends b') {m : MethodId} (hm : b.drafts.size ≤ m) (f : Draft → Draft)
    (vars : Array Var) (index : Index) (hvars : b'.vars.size ≤ vars.size) :
    b.Extends { b' with vars, index, drafts := b'.drafts.modify m f } where
  drafts k d hd := by
    have hk : m ≠ k := Nat.ne_of_gt (Nat.lt_of_lt_of_le (lt_size_of_getElem? hd) hm)
    exact getElem?_modify_eq_some.mpr ⟨d, h.drafts k d hd, by rw [if_neg hk]⟩
  vars := Nat.le_trans h.vars hvars

theorem declare (b : Builder) (c : ClassId) (spec : MethodSpec) : b.Extends (b.declare c spec) := by
  have hadd : ∀ (b₁ : Builder) (name : String) (ty : Ty), b.Extends b₁ →
      b.Extends (b₁.addVar b.drafts.size name ty).1 :=
    fun b₁ name ty h => h.modify_last (Nat.le_refl _) _ _ _ (by simp)
  refine declare_induction (P := fun b₁ => b.Extends b₁) (fun header _ _ _ => ⟨fun m d hd => ?_, Nat.le_refl _⟩)
    (fun b₁ h => ?_) fun b₁ q h => ?_
  · exact getElem?_push_eq_some.mpr (Or.inl hd)
  · exact (hadd b₁ _ _ h).modify_last (Nat.le_refl _) _ _ _ (Nat.le_refl _)
  · exact (hadd b₁ _ _ h).modify_last (Nat.le_refl _) _ _ _ (Nat.le_refl _)

theorem addMethod (b : Builder) (c : ClassId) (spec : MethodSpec) : b.Extends (b.addMethod c spec).1 := by
  rw [addMethod_eq]
  dsimp only
  split
  · exact (declare b c spec).trans (of_same rfl rfl)
  · exact (declare b c spec).trans (of_same rfl rfl)

end Builder.Extends

namespace Lowering

open Ssa (TypeId FuncId GlobalId)

/-- The later state has what the earlier one has, as far as bodies see it. -/
structure Extends (s s' : State) : Prop where
  builder : s.builder.Extends s'.builder
  globals : ∀ (g : GlobalId) (f : FieldId), s.globals[g]? = some f → s'.globals[g]? = some f

/-- The later state has more declarations, but no more globals. -/
structure Declares (s s' : State) : Prop where
  builder : s.builder.Extends s'.builder
  globals : s'.globals = s.globals

variable {s s' s'' : State}

theorem Extends.refl (s : State) : Extends s s := ⟨.refl _, fun _ _ h => h⟩

theorem Declares.refl (s : State) : Declares s s := ⟨.refl _, rfl⟩

theorem Declares.trans (h : Declares s s') (h' : Declares s' s'') : Declares s s'' :=
  ⟨h.builder.trans h'.builder, h'.globals.trans h.globals⟩

theorem Declares.extends (h : Declares s s') : Extends s s' := ⟨h.builder, fun _ _ hf => h.globals ▸ hf⟩

/-- The action only declares. -/
structure Framed {α : Type} (x : Lower α) : Prop where
  declares : ∀ (S : Setting) (s : State), Declares s (x S s).2

section

variable {α β : Type}

theorem framed_pure (a : α) : Framed (pure a : Lower α) := ⟨fun _ s => .refl s⟩

theorem Framed.bind {x : Lower α} {f : α → Lower β} (hx : Framed x) (hf : ∀ a, Framed (f a)) :
    Framed (x >>= f) := ⟨fun S s => (hx.declares S s).trans ((hf _).declares S _)⟩

theorem Framed.ite {x y : Lower α} {c : Prop} [Decidable c] (hx : Framed x) (hy : Framed y) :
    Framed (if c then x else y) := by
  split
  · exact hx
  · exact hy

theorem framed_read : Framed (read : Lower Setting) := ⟨fun _ s => .refl s⟩

theorem framed_get : Framed (get : Lower State) := ⟨fun _ s => .refl s⟩

theorem framed_types : Framed types := ⟨fun _ s => .refl s⟩

theorem framed_modify {f : State → State} (h : ∀ s, (f s).builder = s.builder ∧ (f s).globals = s.globals) :
    Framed (modify f : Lower Unit) :=
  ⟨fun _ s => ⟨.of_same (congrArg Builder.drafts (h s).1) (congrArg Builder.vars (h s).1), (h s).2⟩⟩

theorem framed_build {f : Builder → Builder × α} (h : ∀ b : Builder, b.Extends (f b).1) : Framed (build f) :=
  ⟨fun _ s => ⟨h s.builder, rfl⟩⟩

/-- An action that only adds classes declares nothing else. -/
theorem Enlisting.framed {x : Lower α} {given : List ClassId} {refs : α → List ClassId} (hx : Enlisting given x refs) :
    Framed x :=
  ⟨fun S s => ⟨.of_same (hx.enlists S s).drafts (hx.enlists S s).vars, (hx.enlists S s).globals⟩⟩

end

theorem framed_tyOf (t : TypeId) : Framed (tyOf t) := (enlisting_tyOf t).framed

theorem framed_classOf (t : TypeId) : Framed (classOf t) := (enlisting_classOf t).framed

/-! ## Fields -/

theorem framed_fieldOf (t : TypeId) (index : Nat) : Framed (fieldOf t index) := by
  refine framed_types.bind fun ts => ?_
  dsimp only
  refine (framed_classOf _).bind fun c => (framed_tyOf _).bind fun ty => ?_
  exact framed_build fun b => .ensureField b c _ ty

theorem framed_cellField (ptr elem : TypeId) : Framed (cellField ptr elem) :=
  (enlisting_classFor ptr).framed.bind fun c => (framed_tyOf elem).bind fun ty =>
    framed_build fun b => .ensureField b c "value" ty

/-- The field of a global is declared when it is first asked for, and stays the same. -/
theorem extends_globalField (g : GlobalId) (S : Setting) (s : State) :
    Extends s (globalField g S s).2 ∧ (globalField g S s).2.globals[g]? = some (globalField g S s).1 := by
  rw [globalField, get_bind_apply]
  cases hnone : s.globals[g]? with
  | some f => exact ⟨.refl s, hnone⟩
  | none =>
    -- nothing but the last step is about globals
    let Inserts (y : Lower FieldId) : Prop := ∀ s₁, Declares s s₁ →
      Extends s (y S s₁).2 ∧ (y S s₁).2.globals[g]? = some (y S s₁).1
    have hbind : ∀ {α : Type} {x : Lower α} {k : α → Lower FieldId}, Framed x → (∀ a, Inserts (k a)) →
        Inserts (x >>= k) :=
      fun hx hk s₁ h₁ => hk _ _ (h₁.trans (hx.declares S s₁))
    have hinsert : ∀ f, Inserts (do
        modify fun s => { s with globals := s.globals.insert g f }
        return f) := by
      refine fun f s₁ h₁ => ⟨⟨h₁.builder, fun k f' hf' => ?_⟩, Std.HashMap.getElem?_insert_self⟩
      exact getElem?_insert_of_some f (h₁.globals ▸ hnone) (h₁.globals ▸ hf')
    refine hbind framed_read (fun S => hbind (enlisting_packageClass _).framed fun c => hbind framed_get fun s => ?_) s (.refl s)
    split
    · exact hbind (framed_pure _) hinsert
    · exact hbind framed_types fun ts => hbind (framed_tyOf _) fun ty =>
        hbind (framed_build fun b => .addField b c _ ty true) hinsert

/-! ## Methods -/

theorem framed_paramTypes (sig : TypeId) : Framed (paramTypes sig) := (enlisting_paramTypes sig).framed

theorem framed_subsignatureOf (name : String) (sig : TypeId) : Framed (subsignatureOf name sig) :=
  (framed_paramTypes sig).bind fun _ => framed_get.bind fun _ => framed_pure _

theorem framed_declare (c : ClassId) (name : String) (sig : TypeId) (names : List String) (isStatic : Bool)
    (pos : Option String) : Framed (declare c name sig names isStatic pos) := by
  refine (framed_paramTypes sig).bind fun params => framed_types.bind fun ts => ?_
  have hbuild : ∀ returns : Option Ty,
      Framed (build (·.addMethod c { name, isStatic, params := names.zip params, returns, pos })) :=
    fun returns => framed_build fun b => .addMethod b c _
  dsimp only
  split
  · exact (framed_tyOf _).bind fun _ => hbuild _
  · exact hbuild _

theorem framed_methodFor (f : FuncId) : Framed (methodFor f) := by
  refine framed_get.bind fun s => ?_
  split
  · exact framed_pure _
  · refine framed_read.bind fun S => ?_
    dsimp only
    split
    all_goals
      refine Framed.bind ?_ fun c => (framed_subsignatureOf _ _).bind fun subsig => framed_get.bind fun s => ?_
      · first | exact (enlisting_packageClass _).framed | exact (enlisting_receiverClass _).framed
      split
      · exact (framed_modify (by exact fun _ => ⟨rfl, rfl⟩)).bind fun _ => framed_pure _
      · refine (framed_declare _ _ _ _ _ _).bind fun m => (framed_modify (by exact fun _ => ⟨rfl, rfl⟩)).bind fun _ => ?_
        exact .ite ((framed_modify (by exact fun _ => ⟨rfl, rfl⟩)).bind fun _ => framed_pure _)
          ((framed_modify (by exact fun _ => ⟨rfl, rfl⟩)).bind fun _ => framed_pure _)

/-! ## Bodies -/

/-- What the lowering of a body asks for: everything is declared when it is first mentioned. -/
inductive Mention : {α : Type} → Lower α → Prop
  | types : Mention types
  | type (t : TypeId) : Mention (tyOf t)
  | classOf (t : TypeId) : Mention (classOf t)
  | field (t : TypeId) (index : Nat) : Mention (fieldOf t index)
  | cell (ptr elem : TypeId) : Mention (cellField ptr elem)
  | global (g : GlobalId) : Mention (globalField g)
  | subsignature (name : String) (sig : TypeId) : Mention (subsignatureOf name sig)
  | method (f : FuncId) : Mention (methodFor f)
  /-- There are objects of the class. -/
  | object (c : ClassId) : Mention (modify fun s : State =>
      if s.named.any (·.1 == c) then { s with allocated := s.allocated.insert c } else s)

theorem Mention.extends {α : Type} {x : Lower α} (h : Mention x) (S : Setting) (s : State) : Extends s (x S s).2 := by
  cases h with
  | types => exact (framed_types.declares S s).extends
  | type t => exact ((framed_tyOf t).declares S s).extends
  | classOf t => exact ((framed_classOf t).declares S s).extends
  | field t index => exact ((framed_fieldOf t index).declares S s).extends
  | cell ptr elem => exact ((framed_cellField ptr elem).declares S s).extends
  | global g => exact (extends_globalField g S s).1
  | subsignature name sig => exact ((framed_subsignatureOf name sig).declares S s).extends
  | method f => exact ((framed_methodFor f).declares S s).extends
  | object c =>
    refine ((framed_modify fun s => ?_).declares S s).extends
    split <;> exact ⟨rfl, rfl⟩

end Lowering

end WholeProgram
