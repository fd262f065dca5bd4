import WholeProgram.Proofs.Lowering.Points

/-!
# Operands and instructions

An operand is a variable at the current statement: that of its value, or a fresh one with a constant or
the place of something from elsewhere in it.

* `Makes` — the statements that come before, and the variable;
* `goes_operand` — the lowering of operands.

Lowering an instruction adds statements from which control goes on. They write the variable of the result
and fresh variables.

* `Plain` — an action that is made of such statements, of variables, and of what is mentioned;
* `plain_instruction` — so is the lowering of every instruction, by cases on its action;
* `Passes` — what an action adds to a body; `Plain.passes` says so of all plain actions.
-/

namespace WholeProgram.Lowering

open Ssa (TypeId FuncId GlobalId ValueId BlockId Operand Instruction Block Func)

/-- The integer that stands for a constant of this type, if one does. -/
def Setting.constant? (S : Setting) (t : TypeId) (c : Ssa.Const) : Option Int64 :=
  if (S.types.basic? t).any (·.isIntLike) then literal? c else none

/-- The statements that bring an operand into a variable. -/
inductive Makes (S : Setting) (p : Point) : Operand → List (Stmt Label) → VarId → Prop
  | value {v : ValueId} {x : VarId} : p.scope.vars[v]? = some x → Makes S p (.value v) [] x
  | literal {t : TypeId} {c : Ssa.Const} {n : Int64} {x : VarId} : S.constant? t c = some n → p.Temp x →
      Makes S p (.const t c) [.literal x n] x
  /-- A zero value is a variable that nothing writes. -/
  | zero {t : TypeId} {x : VarId} : p.Free x → Makes S p (.const t .zero) [] x
  | constant {t : TypeId} {c : Ssa.Const} {x : VarId} : c ≠ .zero → S.constant? t c = none → p.Temp x →
      Makes S p (.const t c) [.unknown (some x) "constant" []] x
  | cell {g : GlobalId} {x : VarId} : (S.types.cell? (S.source.global g).ty).isSome → p.Temp x →
      Makes S p (.global g) [.unknown (some x) ("&" ++ (S.source.global g).name) []] x
  | global {g : GlobalId} {f : FieldId} {x : VarId} : S.types.cell? (S.source.global g).ty = none →
      p.state.globals[g]? = some f → p.Temp x → Makes S p (.global g) [.loadField x none f] x
  | func {f : FuncId} {x : VarId} : p.Temp x →
      Makes S p (.func f) [.unknown (some x) ("func " ++ (S.source.func f).name) []] x
  | builtin {name : String} {x : VarId} : p.Free x → Makes S p (.builtin name) [] x

variable {S : Setting} {A : Stmt Label → Prop} {n : Nat} {p q : Point}

/-- What stands at a point is still so later. -/
theorem Makes.later {o : Operand} {code : List (Stmt Label)} {x : VarId} (h : Makes S p o code x)
    (hpq : Later A p.numVars p q) : Makes S q o code x := by
  cases h with
  | value hv => exact .value (hpq.vars.old _ _ hv)
  | literal hc hx => exact .literal hc (hpq.temp hx)
  | zero hx => exact .zero (hpq.free x hx.lt hx)
  | constant hc hnone hx => exact .constant hc hnone (hpq.temp hx)
  | cell hg hx => exact .cell hg (hpq.temp hx)
  | global hg hf hx => exact .global hg (hpq.globals _ _ hf) (hpq.temp hx)
  | func hx => exact .func (hpq.temp hx)
  | builtin hx => exact .builtin (hpq.free x hx.lt hx)

/-- The variable of an operand is there. -/
theorem Makes.lt {o : Operand} {code : List (Stmt Label)} {x : VarId} (h : Makes S p o code x) (hp : Ok p) :
    x < p.numVars := by
  cases h with
  | value hv => exact hp.vars_lt _ _ hv
  | zero hx | builtin hx => exact hx.lt
  | literal _ hx | constant _ _ hx | cell _ hx | global _ _ hx | func hx => exact hx.lt

/-- The statements write only variables from `n` on. -/
def WritesFrom (n : Nat) (code : List (Stmt Label)) : Prop := ∀ s ∈ code, ∀ x, s.defined? = some x → n ≤ x

theorem writesFrom_singleton {s : Stmt Label} {x : VarId} (hs : s.defined? = some x) (hx : n ≤ x) :
    WritesFrom n [s] := by
  intro t ht y hy
  obtain rfl := List.mem_singleton.mp ht
  obtain rfl := Option.some.inj (hs.symm.trans hy)
  exact hx

theorem WritesFrom.mono {m : Nat} {code : List (Stmt Label)} (h : WritesFrom m code) (hn : n ≤ m) :
    WritesFrom n code := fun s hs x hx => Nat.le_trans hn (h s hs x hx)

/-- The operand was brought into a variable by statements that write nothing else. -/
def Brings (S : Setting) (n : Nat) (p q : Point) (o : Operand) (x : VarId) : Prop :=
  ∃ code, q.code = p.code ++ code ∧ WritesFrom n code ∧ Makes S q o code x

/-- A statement writes a variable that was just made. -/
theorem mayWrite_temp {s : Stmt Label} {x : VarId} (hs : s.defined? = some x) (hx : p.Free x) (hn : n ≤ x) :
    MayWrite n p s := by
  intro y hy
  obtain rfl := Option.some.inj (hs.symm.trans hy)
  exact ⟨hx.lt, Or.inl hn⟩

/-- A statement writes the variable of a value. -/
theorem mayWrite_value {s : Stmt Label} {v : ValueId} {x : VarId} (hp : Ok p) (hs : s.defined? = some x)
    (hx : p.scope.vars[v]? = some x) : MayWrite n p s := by
  intro y hy
  obtain rfl := Option.some.inj (hs.symm.trans hy)
  exact ⟨hp.vars_lt v _ hx, Or.inr (Or.inl ⟨v, hx⟩)⟩

variable (hA : ∀ s : Stmt Label, s.Straight → A s)

include hA

/-- A fresh variable, and a statement that writes it. -/
theorem goes_fresh (hp : Ok p) (hn : n ≤ p.numVars) (t : TypeId) {s : VarId → Stmt Label}
    (hs : ∀ x, (s x).defined? = some x ∧ (s x).Straight) :
    Goes S A n p (do
        let x ← temp t
        emit (s x)
        return x)
      fun x q => q.Temp x ∧ n ≤ x ∧ q.code = p.code ++ [s x] := by
  refine (goes_temp hp hn t).bind fun x p₁ hp₁ _ ⟨hx, hfree, hcode⟩ => ?_
  refine (goes_emit hp₁ (hA _ (hs x).2) (mayWrite_temp (hs x).1 hfree hx)).bind fun _ q hq hpq h => ?_
  exact goes_pure hq ⟨hpq.temp hfree.toTemp, hx, by rw [h.2, hcode]⟩

theorem goes_literal (hp : Ok p) (hn : n ≤ p.numVars) (t : TypeId) (c : Int64) :
    Goes S A n p (literal t c) fun x q => q.Temp x ∧ n ≤ x ∧ q.code = p.code ++ [.literal x c] :=
  goes_fresh hA hp hn t fun _ => ⟨rfl, by trivial⟩

theorem goes_constant (hp : Ok p) (hn : n ≤ p.numVars) (t : TypeId) (c : Ssa.Const) :
    Goes S A n p (constant t c) fun x q => Brings S n p q (.const t c) x := by
  refine goes_types ?_
  have hconst : (if (S.types.basic? t).any (·.isIntLike) then literal? c else none) = S.constant? t c := rfl
  dsimp only
  rw [hconst]
  split
  · refine (goes_temp hp hn t).mono fun x q _ _ ⟨_, hfree, hcode⟩ => ?_
    exact ⟨[], by rw [hcode, List.append_nil], nofun, .zero hfree⟩
  · rename_i m _ hm
    refine (goes_literal hA hp hn t m).mono fun x q _ _ ⟨htemp, hx, hcode⟩ => ?_
    exact ⟨_, hcode, writesFrom_singleton rfl hx, .literal hm htemp⟩
  · rename_i hzero hnone
    refine (goes_fresh hA hp hn t fun x => ⟨rfl, by trivial⟩).mono fun x q _ _ ⟨htemp, hx, hcode⟩ => ?_
    exact ⟨_, hcode, writesFrom_singleton rfl hx, .constant hzero hnone htemp⟩

theorem goes_operand (hp : Ok p) (hn : n ≤ p.numVars) (o : Operand) :
    Goes S A n p (operand o) fun x q => Brings S n p q o x := by
  cases o with
  | value v =>
    refine (goes_varOf hp v).mono fun x q _ _ ⟨hx, hcode⟩ => ?_
    exact ⟨[], by rw [hcode, List.append_nil], nofun, .value hx⟩
  | const t c => exact goes_constant hA hp hn t c
  | global g =>
    refine goes_read ((goes_temp hp hn _).bind fun x p₁ hp₁ _ ⟨hx, hfree, hcode⟩ => goes_types ?_)
    split
    · rename_i hcell
      refine (goes_emit hp₁ (hA _ (by trivial)) (mayWrite_temp rfl hfree hx)).bind fun _ q hq hpq h => ?_
      exact goes_pure hq ⟨_, by rw [h.2, hcode], writesFrom_singleton rfl hx, .cell hcell (hpq.temp hfree.toTemp)⟩
    · rename_i hcell
      refine (goes_globalField hp₁ g).bind fun f p₂ hp₂ h₂ ⟨hsame, hf⟩ => ?_
      have hfree₂ : p₂.Free x := hsame.free h₂.numVars hfree
      refine (goes_emit hp₂ (hA _ (by trivial)) (mayWrite_temp rfl hfree₂ hx)).bind fun _ q hq hpq h => ?_
      have hglobal := hpq.globals g f hf
      exact goes_pure hq ⟨_, by rw [h.2, hsame.code, hcode], writesFrom_singleton rfl hx,
        .global (by simpa using hcell) hglobal (hpq.temp hfree₂.toTemp)⟩
  | func f =>
    refine goes_read ((goes_fresh hA hp hn _ fun x => ⟨rfl, by trivial⟩).mono fun x q _ _ ⟨htemp, hx, hcode⟩ => ?_)
    exact ⟨_, hcode, writesFrom_singleton rfl hx, .func htemp⟩
  | builtin name =>
    refine (goes_temp hp hn 0).mono fun x q _ _ ⟨_, hfree, hcode⟩ => ?_
    exact ⟨[], by rw [hcode, List.append_nil], nofun, .builtin hfree⟩

end WholeProgram.Lowering

/-! # Instructions -/

namespace WholeProgram.Lowering

open Ssa (TypeId FuncId GlobalId ValueId BlockId Operand Instruction Block Func)

variable {α β : Type} {xs : List VarId}

/-- The action adds straight statements that write one of the given variables, or variables of values, or
fresh ones. -/
inductive Plain : {α : Type} → List VarId → LowerBody α → Prop
  | pure {α : Type} {xs : List VarId} (a : α) : Plain xs (pure a)
  | bind {α β : Type} {xs : List VarId} {x : LowerBody α} {f : α → LowerBody β} :
      Plain xs x → (∀ a, Plain xs (f a)) → Plain xs (x >>= f)
  | get {xs : List VarId} : Plain xs (get : LowerBody Scope)
  | read {xs : List VarId} : Plain xs (read : LowerBody Setting)
  | getThe {xs : List VarId} : Plain xs (getThe State : LowerBody State)
  | mention {α : Type} {xs : List VarId} {x : Lower α} : Mention x → Plain xs (liftM x : LowerBody α)
  | emit {xs : List VarId} {s : Stmt Label} : s.Straight → (∀ x, s.defined? = some x → x ∈ xs) → Plain xs (emit s)
  | setPos {xs : List VarId} (pos : Option String) : Plain xs (setPos pos)
  /-- A fresh variable may be written. -/
  | temp {β : Type} {xs : List VarId} {t : TypeId} {f : VarId → LowerBody β} :
      (∀ y, Plain (y :: xs) (f y)) → Plain xs (temp t >>= f)
  /-- The variable of a value may be written. -/
  | varOf {β : Type} {xs : List VarId} {v : ValueId} {f : VarId → LowerBody β} :
      (∀ y, Plain (y :: xs) (f y)) → Plain xs (varOf v >>= f)

section

variable {x : LowerBody α} {f : α → LowerBody β}

theorem Plain.ite {y : LowerBody α} {c : Prop} [Decidable c] (hx : Plain xs x) (hy : Plain xs y) :
    Plain xs (if c then x else y) := by
  split
  · exact hx
  · exact hy

theorem Plain.mapM {f : α → LowerBody β} (hf : ∀ a, Plain xs (f a)) (as : List α) : Plain xs (as.mapM f) := by
  induction as with
  | nil => exact .pure []
  | cons a as ih =>
    rw [List.mapM_cons]
    exact (hf a).bind fun b => ih.bind fun bs => .pure _

theorem Plain.forM {f : α → LowerBody Unit} (hf : ∀ a, Plain xs (f a)) (as : List α) : Plain xs (as.forM f) := by
  induction as with
  | nil => exact .pure ()
  | cons a as ih => exact (hf a).bind fun _ => ih

theorem Plain.discard (hx : Plain xs x) : Plain xs (discard x) := hx.bind fun _ => .pure ()

theorem plain_types : Plain xs (liftM types : LowerBody Ssa.Types) := .mention .types

theorem plain_operandType (o : Operand) : Plain xs (operandType o) := .bind .read fun _ => .bind .get fun _ => .pure _

theorem plain_typeAt (i : Instruction) (k : Nat) : Plain xs (typeAt i k) := by
  unfold typeAt
  split
  · exact plain_operandType _
  · exact .pure _

theorem plain_temp (t : TypeId) : Plain xs (temp t) := bind_pure (temp t) ▸ .temp fun y => .pure y

theorem plain_varOf (v : ValueId) : Plain xs (varOf v) := bind_pure (varOf v) ▸ .varOf fun y => .pure y

/-- The result of an instruction may be written. -/
theorem Plain.result {i : Instruction} {f : VarId → LowerBody β} (hf : ∀ y, Plain (y :: xs) (f y)) :
    Plain xs (resultOf i >>= f) := .varOf hf

end

/-- A statement that defines the result. -/
theorem plain_define {s : Stmt Label} {x : VarId} (hs : s.Straight) (hdefined : s.defined? = some x) :
    Plain (x :: xs) (emit s) :=
  .emit hs fun y hy => by
    obtain rfl := Option.some.inj (hdefined.symm.trans hy)
    exact List.mem_cons_self

theorem plain_literal (t : TypeId) (c : Int64) : Plain xs (literal t c) :=
  .temp fun _ => (plain_define (by trivial) rfl).bind fun _ => .pure _

theorem plain_constant (t : TypeId) (c : Ssa.Const) : Plain xs (constant t c) := by
  refine plain_types.bind fun ts => ?_
  dsimp only
  split
  · exact plain_temp t
  · exact plain_literal t _
  · exact .temp fun _ => (plain_define (by trivial) rfl).bind fun _ => .pure _

theorem plain_operand (o : Operand) : Plain xs (operand o) := by
  cases o with
  | value v => exact plain_varOf v
  | const t c => exact plain_constant t c
  | global g =>
    refine .bind .read fun S => .temp fun x => plain_types.bind fun ts => .ite ?_ ?_
    · exact (plain_define (by trivial) rfl).bind fun _ => .pure _
    · exact (Plain.mention (.global g)).bind fun f => (plain_define (by trivial) rfl).bind fun _ => .pure _
  | func f => exact .bind .read fun S => .temp fun _ => (plain_define (by trivial) rfl).bind fun _ => .pure _
  | builtin name => exact plain_temp 0

theorem plain_operandAt (i : Instruction) (k : Nat) : Plain xs (operandAt i k) := by
  unfold operandAt
  split
  · exact plain_operand _
  · exact plain_temp 0

theorem plain_operands (os : List Operand) : Plain xs (os.mapM operand) := .mapM plain_operand os

theorem plain_unknown (i : Instruction) : Plain xs (unknown i) := by
  refine (plain_operands _).bind fun args => ?_
  cases i.result with
  | none => exact .emit trivial nofun
  | some v => exact .varOf fun x => plain_define trivial rfl

theorem plain_copy (i : Instruction) : Plain xs (copy i) :=
  .result fun _ => (plain_operandAt i 0).bind fun _ => plain_define trivial rfl

/-! ## Memory -/

theorem plain_newObject (x : VarId) (ty : Ty) : Plain (x :: xs) (newObject x ty) := by
  have hnew : Plain (x :: xs) (emit (.new x ty)) := plain_define trivial rfl
  unfold newObject
  split
  · exact (Plain.mention (.object _)).bind fun _ => hnew
  · exact (Plain.pure ()).bind fun _ => hnew

theorem plain_storeThrough (o : Operand) (value : VarId) : Plain xs (storeThrough o value) := by
  refine (plain_operandType o).bind fun t => plain_types.bind fun ts => ?_
  split
  · refine (plain_operand o).bind fun base => plain_types.bind fun ts => ?_
    exact (Plain.mention (.cell _ _)).bind fun f => .emit trivial nofun
  · exact (plain_operand o).bind fun base => .emit trivial nofun

theorem plain_store (i : Instruction) : Plain xs (store i) := by
  refine (plain_operandAt i 1).bind fun value => Plain.get.bind fun s => ?_
  split
  · refine (plain_operand _).bind fun b => (plain_operandType _).bind fun t => ?_
    exact (Plain.mention (.field _ _)).bind fun f => .emit trivial nofun
  · exact (plain_operand _).bind fun b => (plain_operand _).bind fun x => .emit trivial nofun
  · refine plain_types.bind fun ts => Plain.read.bind fun S' => .ite ?_ ?_
    · exact (Plain.mention (.global _)).bind fun f => .emit trivial nofun
    · exact plain_storeThrough _ _
  · exact plain_storeThrough _ _

theorem plain_load (i : Instruction) : Plain xs (load i) := by
  refine .result fun x => Plain.get.bind fun s => ?_
  split
  · refine (plain_operand _).bind fun b => (plain_operandType _).bind fun t => ?_
    exact (Plain.mention (.field _ _)).bind fun f => plain_define trivial rfl
  · exact (plain_operand _).bind fun b => (plain_operand _).bind fun y => plain_define trivial rfl
  · exact (Plain.mention (.global _)).bind fun f => plain_define trivial rfl
  · refine (plain_operandType _).bind fun t => plain_types.bind fun ts => ?_
    split
    · refine (plain_operand _).bind fun base => plain_types.bind fun ts => ?_
      exact (Plain.mention (.cell _ _)).bind fun f => plain_define trivial rfl
    · exact (plain_operand _).bind fun y => plain_define trivial rfl

/-! ## Arithmetic -/

theorem plain_unary (i : Instruction) (op : Ssa.UnaryToken) : Plain xs (unary i op) := by
  refine (plain_typeAt i 0).bind fun t => plain_types.bind fun ts => ?_
  dsimp only
  split
  · exact plain_load i
  · refine .ite ((plain_literal t 0).bind fun z => .result fun x => ?_) (plain_unknown i)
    exact (plain_operandAt i 0).bind fun y => plain_define trivial rfl
  · refine .ite ((plain_literal t (-1)).bind fun ones => .result fun x => ?_) (plain_unknown i)
    exact (plain_operandAt i 0).bind fun y => plain_define trivial rfl
  · refine (plain_literal t 1).bind fun one => .result fun x => ?_
    exact (plain_operandAt i 0).bind fun y => plain_define trivial rfl
  · exact plain_unknown i

theorem plain_binary (i : Instruction) (op : Ssa.BinaryToken) : Plain xs (binary i op) := by
  refine plain_types.bind fun ts => (plain_typeAt i 0).bind fun t => ?_
  dsimp only
  split
  · refine .result fun x => (plain_operandAt i 0).bind fun y => ?_
    exact (plain_operandAt i 1).bind fun z => plain_define trivial rfl
  · exact plain_unknown i

theorem plain_convert (i : Instruction) : Plain xs (convert i) := by
  refine plain_types.bind fun ts => (plain_typeAt i 0).bind fun t => ?_
  refine plain_types.bind fun ts' => Plain.get.bind fun s => ?_
  exact .ite (plain_copy i) (plain_unknown i)

/-! ## Calls -/

/-- A call defines its result, if it has one. -/
theorem plain_callResult {s : Stmt Label} {result : Option VarId} (hs : s.Straight) (hdefined : s.defined? = result) :
    Plain (result.toList ++ xs) (emit s) :=
  .emit hs fun y hy => by
    obtain rfl := hdefined.symm.trans hy
    exact List.mem_cons_self

theorem plain_call (result : Option VarId) (c : Ssa.CallCommon) :
    Plain (result.toList ++ xs) (call result c) := by
  unfold call
  split
  · refine (plain_operandType _).bind fun t => (Plain.mention (.classOf t)).bind fun cls => ?_
    refine (Plain.mention (.subsignature _ _)).bind fun subsig => (plain_operand _).bind fun base => ?_
    exact (plain_operands _).bind fun args => plain_callResult trivial rfl
  · exact (plain_operands _).bind fun args => plain_callResult trivial rfl
  · refine Plain.read.bind fun S' => ?_
    dsimp only
    split
    · refine (plain_operand _).bind fun callee => (plain_operands _).bind fun args => ?_
      exact plain_callResult trivial rfl
    · refine (Plain.mention (.method _)).bind fun m => (plain_operands _).bind fun args => ?_
      refine Plain.getThe.bind fun s => ?_
      split
      · exact plain_callResult trivial rfl
      · exact plain_callResult trivial rfl

/-! ## All instructions -/

/-- The lowering of an instruction adds straight statements, which write the result or fresh variables. -/
theorem plain_instruction (i : Instruction) : Plain xs (instruction i) := by
  unfold instruction
  split
  · exact .pure ()
  · refine .result fun x => Plain.get.bind fun s => (Plain.mention (.type _)).bind fun ty => ?_
    exact plain_newObject x ty
  · exact plain_store i
  · exact plain_unary i _
  · exact plain_binary i _
  · refine Plain.get.bind fun s => .ite (.result fun x => ?_) (.pure ())
    refine (plain_typeAt i 0).bind fun t => (Plain.mention (.field _ _)).bind fun f => ?_
    refine Plain.getThe.bind fun s' => (plain_operandAt i 0).bind fun y => ?_
    exact plain_define trivial rfl
  · refine Plain.get.bind fun s => .ite (.result fun x => ?_) (.pure ())
    refine (plain_operandAt i 0).bind fun a => (plain_operandAt i 1).bind fun y => ?_
    exact plain_define trivial rfl
  · refine .result fun x => (plain_operandAt i 0).bind fun b => (plain_typeAt i 0).bind fun t => ?_
    exact (Plain.mention (.field _ _)).bind fun f => plain_define trivial rfl
  · refine .result fun x => (plain_operandAt i 0).bind fun a => (plain_operandAt i 1).bind fun y => ?_
    exact plain_define trivial rfl
  · rename_i c _
    refine plain_types.bind fun ts => ?_
    simp only [pure_bind]
    exact .ite (plain_call none c) (.result fun x => plain_call (some x) c)
  · rename_i c _
    exact plain_call none c
  · exact plain_copy i
  · exact .ite (plain_unknown i) (plain_copy i)
  · refine plain_types.bind fun ts => (plain_typeAt i 0).bind fun t => ?_
    exact .ite (plain_unknown i) (plain_copy i)
  · exact plain_convert i
  · split
    · refine (Plain.mention (.method _)).bind fun m => .result fun x => Plain.read.bind fun S' => ?_
      exact (plain_operands _).bind fun ys => plain_define trivial rfl
    · exact plain_unknown i
  all_goals exact plain_unknown i

/-- The object of a global is made and stored in straight statements. -/
theorem plain_allocateMember (member : Ssa.Member) : Plain xs (allocateMember member) := by
  unfold allocateMember
  split
  · refine Plain.read.bind fun S' => plain_types.bind fun ts => .ite (.temp fun x => ?_) (.pure ())
    refine (Plain.mention (.type _)).bind fun ty => (plain_newObject x ty).bind fun _ => ?_
    exact (Plain.mention (.global _)).bind fun f => .emit trivial nofun
  · exact .pure ()

/-! ## What they add to a body -/

section

variable {S : Setting} {A : Stmt Label → Prop} {n : Nat}

/-- The action adds statements of class `A`; these write the given variables, or such from `n` on. -/
def Passes (S : Setting) (A : Stmt Label → Prop) (n : Nat) (xs : List VarId) (act : LowerBody α) : Prop :=
  ∀ p, Ok p → n ≤ p.numVars → (∀ x ∈ xs, Writable n p x) → Goes S A n p act fun _ _ => True

theorem Plain.passes {x : LowerBody α} (hA : ∀ s : Stmt Label, s.Straight → A s) (h : Plain xs x) :
    Passes S A n xs x := by
  induction h with
  | pure a => exact fun p hp _ _ => goes_pure hp trivial
  | bind _ _ ihx ihf =>
    exact fun p hp hn hxs => (ihx p hp hn hxs).bind fun a q hq hpq _ =>
      ihf a q hq (Nat.le_trans hn hpq.numVars) fun y hy => (hxs y hy).later hpq
  | get | read | getThe => exact fun p hp _ _ => ⟨hp, .refl A n p, .refl p, trivial⟩
  | mention hx => exact fun p hp _ _ => (goes_extends hp (hx.extends S p.state)).mono fun _ _ _ _ _ => trivial
  | emit hs hdefined =>
    exact fun p hp _ hxs => (goes_emit hp (hA _ hs) fun x hx => hxs x (hdefined x hx)).mono fun _ _ _ _ _ => trivial
  | setPos pos => exact fun p hp _ _ => (goes_setPos hp pos).mono fun _ _ _ _ _ => trivial
  | temp _ ih =>
    refine fun p hp hn hxs => (goes_temp hp hn _).bind fun y q hq hpq ⟨hy, hfree, _⟩ => ?_
    refine ih y q hq (Nat.le_trans hn hpq.numVars) fun z hz => ?_
    rcases List.mem_cons.mp hz with rfl | hz
    · exact ⟨hfree.lt, Or.inl hy⟩
    · exact (hxs z hz).later hpq
  | varOf _ ih =>
    refine fun p hp hn hxs => (goes_varOf hp _).bind fun y q hq hpq ⟨hy, _⟩ => ?_
    have hwrite : Writable n q y := ⟨hq.vars_lt _ _ hy, Or.inr (Or.inl ⟨_, hy⟩)⟩
    refine ih y q hq (Nat.le_trans hn hpq.numVars) fun z hz => ?_
    rcases List.mem_cons.mp hz with rfl | hz
    · exact hwrite
    · exact (hxs z hz).later hpq

end

end WholeProgram.Lowering
