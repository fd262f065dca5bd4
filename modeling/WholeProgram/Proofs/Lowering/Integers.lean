import WholeProgram.Dataflow.Constants
import WholeProgram.Proofs.Dataflow.Lattice
import WholeProgram.Proofs.Lowering.Arithmetic
import WholeProgram.Proofs.Lowering.Instructions

/-!
# Integer instructions are exact

An instruction on integers or truth values becomes either an unknown value or a statement that computes its
result. Before the statement come those that bring literals into variables.

* `Stands` — an operand has a value, and a fact has its representation;
* `Yields` — what the source language makes of the values of the operands;
* `flow` — the fact after some statements; `Makes.flow` — what operands are brought into their variables;
* `instruction_exact` — the value of the statement is that of the instruction, for all values of its operands.
-/

namespace WholeProgram.Lowering

open Ssa (TypeId ValueId Operand Instruction Basic Outcome truth)

/-! ## Values of operands and of instructions -/

/-- The number is that of a constant, or the fact has its representation. -/
def Reads (p : Point) (f : Fact) (b : Basic) (n : Int) : Operand → Prop
  | .value v => ∃ x c, p.scope.vars[v]? = some x ∧ f.get x = .const c ∧ b.Represents n c
  | .const _ (.int m) => n = m
  | .const _ (.bool t) => n = truth t
  | _ => False

/-- The operand is an integer or a truth value of this type. -/
structure Stands (S : Setting) (p : Point) (f : Fact) (o : Operand) (b : Basic) (n : Int) : Prop where
  type : S.types.basic? (S.source.operandType p.scope.func o) = some b
  sized : b.Sized
  has : b.Has n
  reads : Reads p f b n o

/-- What an instruction makes of its operands, and the type of the result. -/
inductive Yields (S : Setting) (p : Point) (f : Fact) (i : Instruction) : Basic → Outcome → Prop
  | unary {op : Ssa.UnaryToken} {o : Operand} {b : Basic} {x r : Int} : i.action = .unary op →
      i.operand? 0 = some o → Stands S p f o b x → op.result? b x = some r → Yields S p f i b (.value r)
  | binary {op : Ssa.BinaryToken} {o o' : Operand} {b b' : Basic} {x y : Int} {r : Outcome} :
      i.action = .binary op → i.operand? 0 = some o → i.operand? 1 = some o' → Stands S p f o b x →
      Stands S p f o' b' y → (op.isShift = false → b' = b) → op.result? b x y = some r →
      Yields S p f i (op.resultType b) r
  | convert {o : Operand} {b b' : Basic} {x r : Int} : i.action = .convert → i.operand? 0 = some o →
      Stands S p f o b x → S.types.basic? (p.scope.func.valueType (i.result.getD 0)) = some b' → b'.Sized →
      b.converted? b' x = some r → Yields S p f i b' (.value r)

/-! ## Facts after statements -/

/-- The fact after a statement, if the variable that it defines holds integers. -/
def assign (f : Fact) (s : Stmt Label) : Fact :=
  match s.defined? with
  | some x => f.update x (Constants.rhsValue s f)
  | none => f

/-- The fact after some statements. -/
def flow (code : List (Stmt Label)) (f : Fact) : Fact := code.foldl assign f

/-- Constant propagation has this fact, in programs in which the statements define integers. -/
theorem flow_eq_transfer (P : Program) {code : List (Stmt Label)}
    (h : ∀ s ∈ code, ∀ x, s.defined? = some x → P.holdsInt x) (f : Fact) :
    flow code f = code.foldl (fun f s => Constants.transfer P s f) f := by
  induction code generalizing f with
  | nil => rfl
  | cons s code ih =>
    have hs := h s List.mem_cons_self
    have hstep : assign f s = Constants.transfer P s f := by
      unfold assign Constants.transfer
      split
      · rename_i x hx
        rw [hx]
        exact (if_pos (hs x hx)).symm
      · rename_i hx
        rw [hx]
    show flow code (assign f s) = _
    rw [hstep]
    exact ih (fun t ht => h t (List.mem_cons_of_mem s ht)) _

theorem flow_append (code code' : List (Stmt Label)) (f : Fact) : flow (code ++ code') f = flow code' (flow code f) :=
  List.foldl_append

/-- Variables that the statements do not write keep their values. -/
theorem get_flow {code : List (Stmt Label)} {x : VarId} (h : ∀ s ∈ code, s.defined? ≠ some x) (f : Fact) :
    (flow code f).get x = f.get x := by
  induction code generalizing f with
  | nil => rfl
  | cons s code ih =>
    refine (ih (fun t ht => h t (List.mem_cons_of_mem s ht)) _).trans ?_
    unfold assign
    split
    · rename_i y hy
      exact Fact.get_update_of_ne f _ fun heq => h s List.mem_cons_self (heq ▸ hy)
    · rfl

/-- Statements that write variables from `n` on keep those before. -/
theorem WritesFrom.get_flow {n : Nat} {code : List (Stmt Label)} (h : WritesFrom n code) {x : VarId} (hx : x < n)
    (f : Fact) : (flow code f).get x = f.get x :=
  Lowering.get_flow (fun s hs heq => Nat.not_lt.mpr (h s hs x heq) hx) f

/-! ## Operands -/

variable {S : Setting} {n : Nat} {p q : Point} {f : Fact} {o : Operand} {b : Basic} {x : Int}

/-- The statements write variables of no value. -/
def WritesTemps (q : Point) (code : List (Stmt Label)) : Prop := ∀ s ∈ code, ∀ y, s.defined? = some y → q.Temp y

theorem writesTemps_singleton {s : Stmt Label} {y : VarId} (hs : s.defined? = some y) (hy : q.Temp y) :
    WritesTemps q [s] := by
  intro t ht z hz
  obtain rfl := List.mem_singleton.mp ht
  obtain rfl := Option.some.inj (hs.symm.trans hz)
  exact hy

theorem Makes.writesTemps {code : List (Stmt Label)} {y : VarId} (h : Makes S q o code y) : WritesTemps q code := by
  cases h with
  | value | zero | builtin => exact nofun
  | literal _ hy | constant _ _ hy | cell _ hy | global _ _ hy | func hy => exact writesTemps_singleton rfl hy

/-- They keep the values of operands. -/
theorem Stands.flow {code : List (Stmt Label)} (h : Stands S q f o b x) (hcode : WritesTemps q code) :
    Stands S q (flow code f) o b x := by
  refine ⟨h.type, h.sized, h.has, ?_⟩
  have hvalue := h.reads
  cases o with
  | value v =>
    obtain ⟨y, c, hy, hc, hrep⟩ := hvalue
    refine ⟨y, c, hy, ?_, hrep⟩
    rw [get_flow (fun s hs heq => (hcode s hs y heq).vars v hy), hc]
  | const t c => cases c <;> exact hvalue
  | _ => exact hvalue

/-- A constant of the type is a literal. -/
theorem constant?_int {t : TypeId} {m : Int} (ht : S.types.basic? t = some b) (hb : b.Sized) (hm : b.Has m) :
    S.constant? t (.int m) = some (Int64.ofInt m) := by
  have hlike : b.isIntLike := by
    cases b with
    | boolean | integer => rfl
    | _ => cases hb
  have hbounds : Word.minSigned ≤ m ∧ m ≤ Word.maxUnsigned := by
    unfold Word.minSigned Word.maxUnsigned
    by_cases hword : (b.isWide && b.isUnsigned) = true
    · have := hm.word hword
      omega
    · have := hm.fits hb (by simpa using hword)
      omega
  rw [Setting.constant?, ht, Option.any_some, if_pos hlike]
  exact if_pos hbounds

theorem constant?_bool {t : TypeId} {v : Bool} (ht : S.types.basic? t = some b) (hb : b.Sized) :
    S.constant? t (.bool v) = some (Int64.ofInt (truth v)) := by
  have hlike : b.isIntLike := by
    cases b with
    | boolean | integer => rfl
    | _ => cases hb
  rw [Setting.constant?, ht, Option.any_some, if_pos hlike]
  cases v <;> rfl

/-- The variable that an operand is brought into has its value. -/
theorem Makes.get_flow {code : List (Stmt Label)} {y : VarId} (h : Makes S q o code y) (ho : Stands S q f o b x) :
    ∃ c, (flow code f).get y = .const c ∧ b.Represents x c := by
  have hvalue := ho.reads
  have hliteral {c : Int64} (z : VarId) : (Lowering.flow [.literal z c] f).get z = .const c :=
    Fact.get_update_self f z (.const c)
  cases h with
  | value hv =>
    obtain ⟨z, c, hz, hc, hrep⟩ := hvalue
    obtain rfl := Option.some.inj (hv.symm.trans hz)
    exact ⟨c, hc, hrep⟩
  | literal hc hy =>
    rename_i t k m
    refine ⟨m, hliteral y, (Basic.represents_iff ho.sized ho.has).mpr ?_⟩
    cases k with
    | int j =>
      obtain rfl : x = j := hvalue
      exact Option.some.inj (hc.symm.trans (constant?_int ho.type ho.sized ho.has))
    | bool v =>
      obtain rfl : x = truth v := hvalue
      exact Option.some.inj (hc.symm.trans (constant?_bool ho.type ho.sized))
    | zero | other => exact hvalue.elim
  | constant hzero hnone hy =>
    rename_i t k
    cases k with
    | int j =>
      obtain rfl : x = j := hvalue
      cases hnone.symm.trans (constant?_int ho.type ho.sized ho.has)
    | bool v => cases hnone.symm.trans (constant?_bool ho.type ho.sized)
    | zero | other => exact hvalue.elim
  | zero | cell | global | func | builtin => exact hvalue.elim

/-! ## Instructions -/

/-- An operation on one or two operands that are there. -/
def IsArithmetic (i : Instruction) : Prop :=
  match i.action with
  | .unary op => op ≠ .deref ∧ (i.operand? 0).isSome
  | .binary _ => (i.operand? 0).isSome ∧ (i.operand? 1).isSome
  | .convert => (i.operand? 0).isSome
  | _ => False

/-- The operation becomes a computation on words. -/
def isExpressed (S : Setting) (f : Ssa.Func) (i : Instruction) : Bool :=
  let b := (i.operand? 0).bind fun o => S.types.basic? (S.source.operandType f o)
  match i.action with
  | .unary .neg => canNegate b
  | .unary .complement => canComplement b
  | .unary .not => true
  | .binary op => (b.bind fun b => integerOp b op ((i.operand? 1).any isSmallCount)).isSome
  | .convert => isCopy b (S.types.basic? (f.valueType (i.result.getD 0)))
  | _ => false

/-- The last statement for an instruction defines its result and has its value, or else is unknown. -/
def Exact (S : Setting) (p q : Point) (i : Instruction) (v : ValueId) : Prop :=
  ∃ setup s, q.code = p.code ++ setup ++ [s] ∧
    if isExpressed S p.scope.func i then
      q.scope.vars[v]? = s.defined? ∧
        ∀ f b r, Yields S q f i b r → Agrees b (Constants.rhsValue s (flow setup f)) r ∧
          (Constants.rhsValue s (flow setup f) = .nac ↔ r = .divisionByZero)
    else ∃ x name args, s = .unknown x name args

variable {i : Instruction} {v : ValueId} {o' : Operand}

theorem operandAt_eq {k : Nat} (h : i.operand? k = some o) : operandAt i k = operand o := by
  unfold operandAt
  rw [h]

theorem goes_typeAt {α : Type} {k : Nat} (h : i.operand? k = some o) {act : TypeId → LowerBody α}
    {R : α → Point → Prop} (hact : Goes S Stmt.Straight n p (act (S.source.operandType p.scope.func o)) R) :
    Goes S Stmt.Straight n p (typeAt i k >>= act) R := by
  unfold typeAt
  rw [h]
  exact ⟨hact.ok, hact.later, hact.kept, hact.post⟩

/-- A statement that defines the result from the first operand. -/
theorem goes_from_operand (hp : Ok p) (hv : i.result = some v) (ho : i.operand? 0 = some o)
    {s : VarId → VarId → Stmt Label} (hs : ∀ x y, (s x y).Straight ∧ (s x y).defined? = some x) :
    Goes S Stmt.Straight p.numVars p (do
        let x ← resultOf i
        emit (s x (← operandAt i 0)))
      fun _ q => ∃ x y code, q.scope.vars[v]? = some x ∧ q.code = p.code ++ code ++ [s x y] ∧
        WritesFrom p.numVars code ∧ Makes S q o code y := by
  rw [operandAt_eq ho, resultOf, hv, Option.getD_some]
  refine (goes_varOf hp v).bind' fun x p₁ hp₁ h₁ ⟨hx, hcode₁⟩ => ?_
  have hoperand := goes_operand (S := S) (A := Stmt.Straight) (fun _ h => h) hp₁ (Nat.le_refl _) o
  refine hoperand.bind' fun y p₂ hp₂ h₂ ⟨code, hcode₂, hfrom, hmakes⟩ => ?_
  have hx₂ := h₂.vars.old v x hx
  refine (goes_emit hp₂ (hs x y).1 (mayWrite_value hp₂ (hs x y).2 hx₂)).mono fun _ q hq hpq h => ?_
  have hcode : q.code = p.code ++ code ++ [s x y] := by rw [h.2, hcode₂, hcode₁]
  exact ⟨x, y, code, hpq.vars.old v x hx₂, hcode, hfrom.mono h₁.numVars, hmakes.later hpq⟩

/-- A statement that defines the result from a literal and the first operand. -/
theorem goes_from_literal (hp : Ok p) (hv : i.result = some v) (ho : i.operand? 0 = some o) (t : TypeId)
    (k : Int64) {s : VarId → VarId → VarId → Stmt Label}
    (hs : ∀ x y z, (s x y z).Straight ∧ (s x y z).defined? = some x) :
    Goes S Stmt.Straight p.numVars p (do
        let z ← literal t k
        let x ← resultOf i
        emit (s x (← operandAt i 0) z))
      fun _ q => ∃ x y z setup, q.scope.vars[v]? = some x ∧ q.code = p.code ++ setup ++ [s x y z] ∧
        ∀ f b n, Stands S q f o b n → (flow setup f).get z = .const k ∧
          ∃ c, (flow setup f).get y = .const c ∧ b.Represents n c := by
  refine (goes_literal (fun _ h => h) hp (Nat.le_refl _) t k).bind' fun z p₁ hp₁ h₁ ⟨hz, _, hcode₁⟩ => ?_
  refine (goes_from_operand hp₁ hv ho (s := fun x y => s x y z) fun x y => hs x y z).mono fun _ q hq hpq h => ?_
  obtain ⟨x, y, code, hx, hcode, hfrom, hmakes⟩ := h
  refine ⟨x, y, z, .literal z k :: code, hx, by rw [hcode, hcode₁]; simp, fun f b n hstands => ?_⟩
  have hstands' := hstands.flow (writesTemps_singleton (s := .literal z k) rfl (hpq.temp hz))
  refine ⟨?_, hmakes.get_flow hstands'⟩
  -- the operand is made in other variables than the literal
  exact (hfrom.get_flow hz.lt _).trans (Fact.get_update_self f z (.const k))

theorem goes_unknown (hp : Ok p) (hn : n ≤ p.numVars) (hi : isExpressed S p.scope.func i = false) :
    Goes S Stmt.Straight n p (unknown i) fun _ q => Exact S p q i v := by
  have hargs (os : List Operand) : Passes S Stmt.Straight n [] (os.mapM operand) :=
    (plain_operands os).passes fun _ h => h
  refine (hargs _ p hp hn nofun).bind fun args p₁ hp₁ h₁ _ => ?_
  obtain ⟨setup, hsetup, -⟩ := h₁.code
  have hemit {x : Option VarId} {p₂ : Point} (hp₂ : Ok p₂) (hcode : p₂.code = p₁.code)
      (hx : MayWrite n p₂ (.unknown x i.name.toLower args)) :
      Goes S Stmt.Straight n p₂ (emit (.unknown x i.name.toLower args)) fun _ q => Exact S p q i v :=
    (goes_emit hp₂ (by trivial) hx).mono fun _ q _ _ h =>
      ⟨setup, _, by rw [h.2, hcode, hsetup], by rw [hi]; exact ⟨_, _, _, rfl⟩⟩
  cases i.result with
  | none => exact hemit hp₁ rfl nofun
  | some w =>
    refine (goes_varOf hp₁ w).bind fun x p₂ hp₂ h₂ ⟨hx, hcode⟩ => ?_
    exact hemit hp₂ hcode (mayWrite_value hp₂ rfl hx)

/-- What is yielded by a unary operator. -/
theorem Yields.of_unary {op : Ssa.UnaryToken} {r : Outcome} (h : Yields S q f i b r) (hi : i.action = .unary op)
    (ho : i.operand? 0 = some o) :
    ∃ x m, Stands S q f o b x ∧ op.result? b x = some m ∧ r = .value m := by
  cases h with
  | unary hi' ho' hstands hr =>
    obtain rfl := Ssa.Action.unary.inj (hi.symm.trans hi')
    obtain rfl := Option.some.inj (ho.symm.trans ho')
    exact ⟨_, _, hstands, hr, rfl⟩
  | binary hi' => cases hi.symm.trans hi'
  | convert hi' => cases hi.symm.trans hi'

/-- A unary operator that becomes a binary one with a literal. -/
theorem goes_literal_unary {op : Ssa.UnaryToken} (hp : Ok p) (hi : i.action = .unary op) (hv : i.result = some v)
    (ho : i.operand? 0 = some o) (hexpressed : isExpressed S p.scope.func i) (t : TypeId) (k : Int64)
    {s : VarId → VarId → VarId → Stmt Label}
    (hs : ∀ x y z, (s x y z).Straight ∧ (s x y z).defined? = some x)
    (hagrees : ∀ {f : Fact} {x y z : VarId} {c : Int64} {b : Basic} {n m : Int},
      S.types.basic? (S.source.operandType p.scope.func o) = some b → b.Sized → b.Has n → b.Represents n c →
      op.result? b n = some m → f.get z = .const k → f.get y = .const c →
      Agrees b (Constants.rhsValue (s x y z) f) (.value m)) :
    Goes S Stmt.Straight p.numVars p (do
        let z ← literal t k
        let x ← resultOf i
        emit (s x (← operandAt i 0) z))
      fun _ q => Exact S p q i v := by
  refine (goes_from_literal hp hv ho t k hs).mono fun _ q _ hpq h => ?_
  obtain ⟨x, y, z, setup, hx, hcode, hflow⟩ := h
  refine ⟨setup, _, hcode, ?_⟩
  rw [if_pos hexpressed]
  refine ⟨hx.trans (hs x y z).2.symm, fun f b r hyields => ?_⟩
  obtain ⟨n, m, hstands, hr, rfl⟩ := hyields.of_unary hi ho
  obtain ⟨hz, c, hy, hrep⟩ := hflow f b n hstands
  exact (hagrees (hpq.func ▸ hstands.type) hstands.sized hstands.has hrep hr hz hy).and_nac_iff

theorem goes_unary {op : Ssa.UnaryToken} (hp : Ok p) (hi : i.action = .unary op) (hderef : op ≠ .deref)
    (hv : i.result = some v) (ho : i.operand? 0 = some o) :
    Goes S Stmt.Straight p.numVars p (unary i op) fun _ q => Exact S p q i v := by
  refine goes_typeAt ho (goes_types ?_)
  dsimp only
  cases op with
  | deref => exact absurd rfl hderef
  | neg =>
    have hexpressed : isExpressed S p.scope.func i =
        canNegate (S.types.basic? (S.source.operandType p.scope.func o)) := by
      rw [isExpressed, hi, ho]
      rfl
    dsimp only
    split
    · rename_i hneg
      refine goes_literal_unary hp hi hv ho (hexpressed.trans hneg) _ 0 (fun _ _ _ => ⟨trivial, rfl⟩)
        (s := fun x y z => .binary x .sub z y) fun ht hb hn hrep hr hz hy => ?_
      rw [Constants.rhsValue, hz, hy]
      exact negate_agrees (ht ▸ hneg) hb hn hrep hr
    · rename_i hneg
      exact goes_unknown hp (Nat.le_refl _) (hexpressed.trans (Bool.eq_false_iff.mpr hneg))
  | complement =>
    have hexpressed : isExpressed S p.scope.func i =
        canComplement (S.types.basic? (S.source.operandType p.scope.func o)) := by
      rw [isExpressed, hi, ho]
      rfl
    dsimp only
    split
    · rename_i hcan
      refine goes_literal_unary hp hi hv ho (hexpressed.trans hcan) _ (-1) (fun _ _ _ => ⟨trivial, rfl⟩)
        (s := fun x y z => .binary x .xor y z) fun ht hb hn hrep hr hz hy => ?_
      rw [Constants.rhsValue, hz, hy]
      exact complement_agrees (ht ▸ hcan) hb hn hrep hr
    · rename_i hcan
      exact goes_unknown hp (Nat.le_refl _) (hexpressed.trans (Bool.eq_false_iff.mpr hcan))
  | not =>
    have hexpressed : isExpressed S p.scope.func i := by rw [isExpressed, hi]
    refine goes_literal_unary hp hi hv ho hexpressed _ 1 (fun _ _ _ => ⟨trivial, rfl⟩)
      (s := fun x y z => .binary x .xor y z) fun _ hb hn hrep hr hz hy => ?_
    rw [Constants.rhsValue, hz, hy]
    exact not_agrees hn hrep hr
  | other => exact goes_unknown hp (Nat.le_refl _) (by rw [isExpressed, hi])

/-- The second operand of a small shift is such a count. -/
theorem Stands.small (h : Stands S q f o b x) (hsmall : (some o).any isSmallCount = true) : 0 ≤ x ∧ x < 64 := by
  have hreads := h.reads
  cases o with
  | const t c =>
    cases c with
    | int m =>
      obtain rfl : x = m := hreads
      obtain ⟨hlow, hhigh⟩ := Bool.and_eq_true_iff.mp hsmall
      exact ⟨of_decide_eq_true hlow, of_decide_eq_true hhigh⟩
    | _ => cases hsmall
  | _ => cases hsmall

theorem goes_binary {op : Ssa.BinaryToken} (hp : Ok p) (hi : i.action = .binary op) (hv : i.result = some v)
    (ho : i.operand? 0 = some o) (ho' : i.operand? 1 = some o') :
    Goes S Stmt.Straight p.numVars p (binary i op) fun _ q => Exact S p q i v := by
  have hexpressed : isExpressed S p.scope.func i = ((S.types.basic? (S.source.operandType p.scope.func o)).bind
      fun b => integerOp b op ((i.operand? 1).any isSmallCount)).isSome := by
    rw [isExpressed, hi, ho]
    rfl
  refine goes_types (goes_typeAt ho ?_)
  dsimp only
  split
  · rename_i op' hop
    rw [hop] at hexpressed
    obtain ⟨b, hb, hop⟩ := Option.bind_eq_some_iff.mp hop
    rw [operandAt_eq ho, operandAt_eq ho', resultOf, hv, Option.getD_some]
    refine (goes_varOf hp v).bind' fun x p₁ hp₁ h₁ ⟨hx, hcode₁⟩ => ?_
    have hoperand {p : Point} (hp : Ok p) (o : Operand) :=
      goes_operand (S := S) (A := Stmt.Straight) (fun _ h => h) hp (Nat.le_refl _) o
    refine (hoperand hp₁ o).bind' fun y p₂ hp₂ h₂ ⟨code, hcode₂, _, hmakes⟩ => ?_
    refine (hoperand hp₂ o').bind' fun z p₃ hp₃ h₃ ⟨code', hcode₃, hfrom, hmakes'⟩ => ?_
    have hx₃ := h₃.vars.old v x (h₂.vars.old v x hx)
    refine (goes_emit hp₃ (by trivial) (mayWrite_value hp₃ rfl hx₃)).mono fun _ q hq hpq h => ?_
    refine ⟨code ++ code', .binary x op' y z, by rw [h.2, hcode₃, hcode₂, hcode₁, List.append_assoc p.code],
      ?_⟩
    rw [if_pos (by exact hexpressed)]
    refine ⟨hpq.vars.old v x hx₃, fun f b₀ r hyields => ?_⟩
    have hmakes_q := hmakes.later (h₃.trans hpq h₃.numVars)
    have hmakes_q' := hmakes'.later hpq
    have hfunc : q.scope.func = p.scope.func :=
      hpq.func.trans (h₃.func.trans (h₂.func.trans h₁.func))
    cases hyields with
    | unary hi' => cases hi.symm.trans hi'
    | convert hi' => cases hi.symm.trans hi'
    | binary hi' hob hob' hstands hstands' hsame hr =>
      obtain rfl := Ssa.Action.binary.inj (hi.symm.trans hi')
      obtain rfl := Option.some.inj (ho.symm.trans hob)
      obtain rfl := Option.some.inj (ho'.symm.trans hob')
      obtain rfl := Option.some.inj (hb.symm.trans (hfunc ▸ hstands.type))
      obtain ⟨c, hc, hrep⟩ := hmakes_q.get_flow hstands
      obtain ⟨c', hc', hrep'⟩ := hmakes_q'.get_flow (hstands'.flow hmakes_q.writesTemps)
      -- the second operand is made in other variables than the first
      have hfirst := hfrom.get_flow (hmakes.lt hp₂) (flow code f)
      rw [flow_append, Constants.rhsValue, hfirst, hc, hc']
      have hsmall := fun h => hstands'.small (ho' ▸ h)
      exact (integerOp_agrees hop hstands.sized hstands'.sized hsame hsmall hstands.has hstands'.has hrep hrep'
        hr).and_nac_iff
  · rename_i hnone
    exact goes_unknown hp (Nat.le_refl _) (by rw [hexpressed, hnone]; rfl)

theorem goes_convert (hp : Ok p) (hi : i.action = .convert) (hv : i.result = some v) (ho : i.operand? 0 = some o) :
    Goes S Stmt.Straight p.numVars p (convert i) fun _ q => Exact S p q i v := by
  have hexpressed : isExpressed S p.scope.func i = isCopy (S.types.basic? (S.source.operandType p.scope.func o))
      (S.types.basic? (p.scope.func.valueType (i.result.getD 0))) := by
    rw [isExpressed, hi, ho]
    rfl
  refine goes_types (goes_typeAt ho (goes_types (goes_get ?_)))
  dsimp only
  split
  · rename_i hcopy
    refine (goes_from_operand hp hv ho (s := .copy) fun _ _ => ⟨trivial, rfl⟩).mono fun _ q _ hpq h => ?_
    obtain ⟨x, y, code, hx, hcode, -, hmakes⟩ := h
    refine ⟨code, _, hcode, ?_⟩
    rw [if_pos (hexpressed.trans hcopy)]
    refine ⟨hx, fun f b r hyields => ?_⟩
    cases hyields with
    | unary hi' => cases hi.symm.trans hi'
    | binary hi' => cases hi.symm.trans hi'
    | convert hi' hob hstands hb' hsized hr =>
      obtain rfl := Option.some.inj (ho.symm.trans hob)
      obtain ⟨c, hc, hrep⟩ := hmakes.get_flow hstands
      rw [hpq.func] at hb'
      have ht := hpq.func ▸ hstands.type
      rw [ht, hb'] at hcopy
      rw [Constants.rhsValue, hc]
      exact (copy_agrees hcopy hstands.sized hsized hstands.has hrep hr).and_nac_iff
  · rename_i hcopy
    exact goes_unknown hp (Nat.le_refl _) (hexpressed.trans (Bool.eq_false_iff.mpr hcopy))

/-- An operation on integers or truth values that is expressed becomes a statement with its value, for all
values of the operands; the statement has no constant exactly where the program stops for a division by zero.
All other operations become unknown values. -/
theorem instruction_exact (hp : Ok p) (hi : IsArithmetic i) (hv : i.result = some v) :
    Exact S p (p.after S (instruction i)) i v := by
  unfold IsArithmetic at hi
  split at hi
  · rename_i op hop
    obtain ⟨o, ho⟩ := Option.isSome_iff_exists.mp hi.2
    have h := (goes_unary (S := S) hp hop hi.1 hv ho).post
    rwa [instruction, hop]
  · rename_i op hop
    obtain ⟨o, ho⟩ := Option.isSome_iff_exists.mp hi.1
    obtain ⟨o', ho'⟩ := Option.isSome_iff_exists.mp hi.2
    have h := (goes_binary (S := S) hp hop hv ho ho').post
    rwa [instruction, hop]
  · rename_i hconvert
    obtain ⟨o, ho⟩ := Option.isSome_iff_exists.mp hi
    have h := (goes_convert (S := S) hp hconvert hv ho).post
    rwa [instruction, hconvert]
  · exact hi.elim

/-- A function that reduces one byte by another. -/
def byteRemainder : Instruction where
  action := .binary .rem
  name := "BinOp"
  operands := [some (.value 0), some (.value 1)]
  result := some 2
  pos := none

def bytes : Setting where
  source := { types := #[{ text := "int8", shape := .basic (.integer true 1) }] }
  admits _ := true

/-- Before the first instruction of a function of three bytes. -/
def bytesStart : Point where
  scope := { func := { (default : Ssa.Func) with values := #[("x", 0), ("y", 0), ("z", 0)] }, method := 0 }
  state := { builder := { ({} : Builder) with drafts := #[default] } }

theorem byteRemainder_exact : Ok bytesStart ∧ IsArithmetic byteRemainder ∧
    isExpressed bytes bytesStart.scope.func byteRemainder ∧
    Exact bytes bytesStart (bytesStart.after bytes (instruction byteRemainder)) byteRemainder 2 := by
  have hok : Ok bytesStart := Starts.ok ⟨⟨default, rfl, rfl, rfl, rfl⟩, rfl, rfl, rfl⟩
  have hi : IsArithmetic byteRemainder := ⟨rfl, rfl⟩
  exact ⟨hok, hi, rfl, instruction_exact hok hi rfl⟩

end WholeProgram.Lowering
