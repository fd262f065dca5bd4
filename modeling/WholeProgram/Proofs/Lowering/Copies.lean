import WholeProgram.Proofs.Lowering.Blocks

/-!
# What the copies of phis do

* `Holds` — an operand has this value in a store;
* `effects_makes` — the statements before an operand leave its value in the variable;
* `effects_assigns` — the shadows of the phis get the values that their operands had before, and all
  values of the function keep theirs;
* `effects_heads` — the phis then get the values of their shadows, all at once.
-/

namespace WholeProgram.Lowering

open Moves (Store Effect Effects value?)
open Ssa (TypeId FuncId GlobalId ValueId BlockId Operand Instruction Block Func)

variable {α : Type} {lit : Int64 → α} {nothing : α} {S : Setting} {p : Point} {m m' m₁ : Store α}
  {code : List (Stmt Label)}

/-- The operand has this value: that of the variable of the value, the integer, or that of the static field
of the global. A zero value is nothing. Functions, addresses of globals and other constants may have any
value. -/
inductive Holds (lit : Int64 → α) (nothing : α) (S : Setting) (p : Point) (m : Store α) : Operand → α → Prop
  | value {v : ValueId} {x : VarId} : p.scope.vars[v]? = some x → Holds lit nothing S p m (.value v) (m.locals x)
  | literal {t : TypeId} {c : Ssa.Const} {n : Int64} : S.constant? t c = some n →
      Holds lit nothing S p m (.const t c) (lit n)
  | zero {t : TypeId} : Holds lit nothing S p m (.const t .zero) nothing
  | constant {t : TypeId} {c : Ssa.Const} {a : α} : c ≠ .zero → S.constant? t c = none →
      Holds lit nothing S p m (.const t c) a
  | cell {g : GlobalId} {a : α} : (S.types.cell? (S.source.global g).ty).isSome → Holds lit nothing S p m (.global g) a
  | global {g : GlobalId} {f : FieldId} : S.types.cell? (S.source.global g).ty = none →
      p.state.globals[g]? = some f → Holds lit nothing S p m (.global g) (m.statics f)
  | func {f : FuncId} {a : α} : Holds lit nothing S p m (.func f) a
  | builtin {name : String} : Holds lit nothing S p m (.builtin name) nothing

/-- The stores agree on the values of the function and on static fields. -/
structure SameValues (p : Point) (m m' : Store α) : Prop where
  values : ∀ (v : ValueId) (x : VarId), p.scope.vars[v]? = some x → m'.locals x = m.locals x
  statics : m'.statics = m.statics

theorem SameValues.trans (h : SameValues p m m₁) (h' : SameValues p m₁ m') : SameValues p m m' where
  values v x hx := (h'.values v x hx).trans (h.values v x hx)
  statics := h'.statics.trans h.statics

theorem Holds.of_same {o : Operand} {a : α} (h : Holds lit nothing S p m' o a) (hm : SameValues p m m') :
    Holds lit nothing S p m o a := by
  cases h with
  | value hx => exact hm.values _ _ hx ▸ .value hx
  | literal hc => exact .literal hc
  | zero => exact .zero
  | constant hc hnone => exact .constant hc hnone
  | cell hg => exact .cell hg
  | global hg hf => exact hm.statics ▸ .global hg hf
  | func => exact .func
  | builtin => exact .builtin

/-- Variables that no statement writes hold nothing. -/
def Blank (nothing : α) (p : Point) (m : Store α) : Prop := ∀ x, p.Free x → m.locals x = nothing

/-- They stay so while statements of the body are executed. -/
theorem Blank.effects (h : Blank nothing p m) (hcode : ∀ s ∈ code, s ∈ p.code) (heffects : Effects lit code m m') :
    Blank nothing p m' := fun x hx =>
  (heffects.locals fun s hs => hx.code s (hcode s hs)).trans (h x hx)

/-- Quiet statements touch no values, no shadows and no static fields. -/
theorem Quiet.effects (h : Quiet p code) (heffects : Effects lit code m m') :
    (∀ x, ¬ p.Temp x → m'.locals x = m.locals x) ∧ m'.statics = m.statics :=
  ⟨fun x hx => heffects.locals fun s hs heq => hx ((h s hs).2.2.2 x heq),
    heffects.statics fun s hs => ⟨(h s hs).2.1, (h s hs).2.2.1⟩⟩

theorem Quiet.sameValues (h : Quiet p code) (heffects : Effects lit code m m') : SameValues p m m' :=
  ⟨fun v x hx => (h.effects heffects).1 x fun htemp => htemp.vars v hx, (h.effects heffects).2⟩

/-- A single statement that defines a variable leaves its value there. -/
theorem locals_of_effects {s : Stmt Label} {x : VarId} {a : α} (heffects : Effects lit [s] m m')
    (hdefined : s.defined? = some x) (hvalue : value? lit m s = some a) : m'.locals x = a := by
  cases heffects with
  | cons hs hnil =>
    cases hnil with
    | nil => exact hs.defined x a hdefined hvalue

theorem effects_makes {o : Operand} {x : VarId} (h : Makes S p o code x) (hblank : Blank nothing p m)
    (heffects : Effects lit code m m') : Holds lit nothing S p m o (m'.locals x) := by
  cases h with
  | value hx =>
    cases heffects with
    | nil => exact .value hx
  | literal hc hx => exact locals_of_effects heffects rfl rfl ▸ .literal hc
  | zero hx =>
    cases heffects with
    | nil => exact hblank x hx ▸ .zero
  | constant hc hnone hx => exact .constant hc hnone
  | cell hg hx => exact .cell hg
  | global hg hf hx => exact locals_of_effects heffects rfl rfl ▸ .global hg hf
  | func hx => exact .func
  | builtin hx =>
    cases heffects with
    | nil => exact hblank x hx ▸ .builtin

/-- The shadows of phis get what their operands hold; besides, only variables that are of no value
change. -/
theorem effects_assigns {es : List (Nat × Instruction)} (hp : Ok p) (h : Assigns S p es code)
    (hdistinct : (es.map fun e => valueOf e.2).Nodup) (hcode : ∀ s ∈ code, s ∈ p.code) (hblank : Blank nothing p m)
    (heffects : Effects lit code m m') :
    SameValues p m m' ∧
    (∀ e ∈ es, ∃ o y, e.2.operand? e.1 = some o ∧ p.scope.shadows[valueOf e.2]? = some y ∧
      Holds lit nothing S p m o (m'.locals y)) ∧
    ∀ (v : ValueId) (y : VarId), v ∉ es.map (fun e => valueOf e.2) → p.scope.shadows[v]? = some y →
      m'.locals y = m.locals y := by
  induction h generalizing m with
  | nil =>
    cases heffects with
    | nil => exact ⟨⟨fun _ _ _ => rfl, rfl⟩, fun _ he => absurd he List.not_mem_nil, fun _ _ _ _ => rfl⟩
  | @cons k i o x y es code rest ho hy hmakes _ ih =>
    obtain ⟨hi, hdistinct⟩ := List.nodup_cons.mp hdistinct
    obtain ⟨m₁, hmake, heffects⟩ := heffects.split
    cases heffects with
    | @cons _ _ _ m₂ _ hcopy heffects =>
      have hquiet := hmakes.quiet
      have hsame₁ := hquiet.sameValues hmake
      -- the copy writes the shadow, which is no variable of a value
      have hsame₂ : SameValues p m₁ m₂ := by
        refine ⟨fun v z hz => hcopy.others z ?_, funext fun f => hcopy.statics rfl f nofun⟩
        rintro ⟨⟩
        exact hp.apart _ _ _ hz hy
      have hsame := hsame₁.trans hsame₂
      have hblank₂ : Blank nothing p m₂ := by
        have hmem : ∀ s ∈ code ++ [.copy y x], s ∈ p.code := fun s hs => hcode s (by
          rcases List.mem_append.mp hs with hs | hs
          · exact List.mem_append_left _ hs
          · exact List.mem_append_right _ (List.mem_singleton.mp hs ▸ List.mem_cons_self))
        exact hblank.effects hmem (hmake.append (.cons hcopy .nil))
      obtain ⟨hrest, hphis, hothers⟩ := ih hdistinct
        (fun s hs => hcode s (List.mem_append_right _ (List.mem_cons_of_mem _ hs))) hblank₂ heffects
      have hshadow : m'.locals y = m₁.locals x :=
        (hothers _ y hi hy).trans (hcopy.defined y _ rfl rfl)
      refine ⟨hsame.trans hrest, fun e he => ?_, fun v z hv hz => ?_⟩
      · rcases List.mem_cons.mp he with rfl | he
        · exact ⟨o, y, ho, hy, hshadow ▸ effects_makes hmakes hblank hmake⟩
        · obtain ⟨o', y', ho', hy', hholds⟩ := hphis e he
          exact ⟨o', y', ho', hy', hholds.of_same hsame⟩
      · have hne : y ≠ z := by
          rintro rfl
          exact hv (hp.shadows_inj _ _ _ hz hy ▸ List.mem_cons_self)
        rw [hothers v z (fun h => hv (List.mem_cons_of_mem _ h)) hz, hcopy.others z (by simpa [Stmt.defined?] using hne)]
        exact (hquiet.effects hmake).1 z fun htemp => htemp.shadows v hz

/-- The phis get the values of their shadows, and nothing else changes. -/
theorem effects_heads {is : List Instruction} (hp : Ok p) (h : Heads p is code) (hdistinct : (is.map valueOf).Nodup)
    (heffects : Effects lit code m m') :
    (∀ i ∈ is, ∃ x y, p.scope.vars[valueOf i]? = some x ∧ p.scope.shadows[valueOf i]? = some y ∧
      m'.locals x = m.locals y) ∧
    (∀ z, (∀ i ∈ is, p.scope.vars[valueOf i]? ≠ some z) → m'.locals z = m.locals z) ∧ m'.statics = m.statics := by
  induction h generalizing m with
  | nil =>
    cases heffects with
    | nil => exact ⟨fun _ hi => absurd hi List.not_mem_nil, fun _ _ => rfl, rfl⟩
  | @cons i x y is code hx hy _ ih =>
    obtain ⟨hi, hdistinct⟩ := List.nodup_cons.mp hdistinct
    cases heffects with
    | @cons _ _ _ m₁ _ hcopy heffects =>
      obtain ⟨hphis, hothers, hstatics⟩ := ih hdistinct heffects
      refine ⟨fun j hj => ?_, fun z hz => ?_, hstatics.trans (funext fun f => hcopy.statics rfl f nofun)⟩
      · rcases List.mem_cons.mp hj with rfl | hj
        · refine ⟨x, y, hx, hy, (hothers x fun k hk hxk => ?_).trans (hcopy.defined x _ rfl rfl)⟩
          exact hi (hp.vars_inj _ _ _ hxk hx ▸ List.mem_map_of_mem hk)
        · obtain ⟨x', y', hx', hy', heq⟩ := hphis j hj
          refine ⟨x', y', hx', hy', heq.trans (hcopy.others y' ?_)⟩
          rintro ⟨⟩
          exact hp.apart _ _ _ hx hy'
      · rw [hothers z fun j hj => hz j (List.mem_cons_of_mem i hj)]
        refine hcopy.others z ?_
        rintro ⟨⟩
        exact hz i List.mem_cons_self hx

end WholeProgram.Lowering
