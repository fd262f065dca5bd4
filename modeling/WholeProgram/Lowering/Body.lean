import WholeProgram.Lowering.Arithmetic
import WholeProgram.Lowering.Declaration

/-!
# Lowering bodies

Blocks are lowered one after the other, each under its label. A phi becomes two copies: every
predecessor of its block assigns the incoming value to a shadow of the phi, and the head of the block
copies the shadow, so that the phis of a block change all at once.
-/

namespace WholeProgram.Lowering

open Ssa (TypeId FuncId GlobalId ValueId BlockId Operand Instruction Block Func)

/-- What is known while a body is lowered. -/
structure Scope where
  func : Func
  method : MethodId
  vars : Std.HashMap ValueId VarId := {}
  labels : Std.HashMap BlockId Label := {}
  /-- The shadow of each phi. -/
  shadows : Std.HashMap ValueId VarId := {}
  temps : Nat := 0

abbrev LowerBody := StateT Scope Lower

/-- Adds a statement. -/
def emit (s : Stmt Label) : LowerBody Unit := do
  let m := (← get).method
  build fun b => (b.add m s, ())

def newVar (name : String) (ty : Ty) : LowerBody VarId := do
  let m := (← get).method
  build (·.addVar m name ty)

/-- The variable of a value of the function. -/
def varOf (v : ValueId) : LowerBody VarId := do
  let s ← get
  match s.vars[v]? with
  | some x => return x
  | none =>
    let ty ← tyOf (s.func.valueType v)
    let x ← newVar (s.func.valueName v) ty
    modify fun s => { s with vars := s.vars.insert v x }
    return x

/-- A fresh variable. -/
def temp (t : TypeId) : LowerBody VarId := do
  let n := (← get).temps + 1
  modify fun s => { s with temps := n }
  let ty ← tyOf t
  newVar ("$" ++ toString n) ty

/-- A fresh variable with an integer in it. -/
def literal (t : TypeId) (value : Int64) : LowerBody VarId := do
  let x ← temp t
  emit (.literal x value)
  return x

/-- The type of an operand. -/
def operandType (o : Operand) : LowerBody TypeId := do
  return (← read).source.operandType (← get).func o

/-- A variable that holds a constant: nothing is assigned for a zero value, and constants that are no
integers are unknown. -/
def constant (t : TypeId) (c : Ssa.Const) : LowerBody VarId := do
  let isInt := ((← types).basic? t).any (·.isIntLike)
  match c, if isInt then literal? c else none with
  | .zero, _ => temp t
  | _, some n => literal t n
  | _, none =>
    let x ← temp t
    emit (.unknown (some x) "constant" [])
    return x

/-- A variable that holds an operand at the current statement. -/
def operand (o : Operand) : LowerBody VarId := do
  match o with
  | .value v => varOf v
  | .const t c => constant t c
  | .global g =>
    let d := (← read).source.global g
    let x ← temp d.ty
    if ((← types).cell? d.ty).isSome then
      emit (.unknown (some x) ("&" ++ d.name) [])
    else
      let f ← globalField g
      emit (.loadField x none f)
    return x
  | .func f =>
    let d := (← read).source.func f
    let x ← temp d.sig
    emit (.unknown (some x) ("func " ++ d.name) [])
    return x
  | .builtin _ => temp 0

/-- The operand at a position of an instruction. -/
def operandAt (i : Instruction) (k : Nat) : LowerBody VarId :=
  match i.operand? k with
  | some o => operand o
  | none => temp 0

/-- The type of the operand at a position. -/
def typeAt (i : Instruction) (k : Nat) : LowerBody TypeId :=
  match i.operand? k with
  | some o => operandType o
  | none => return 0

/-- The variable that an instruction defines. -/
def resultOf (i : Instruction) : LowerBody VarId := varOf (i.result.getD 0)

/-- An object for a variable. -/
def newObject (x : VarId) (ty : Ty) : LowerBody Unit := do
  match ty with
  | .ref c =>
    modifyThe State fun s =>
      if s.named.any (·.1 == c) then { s with allocated := s.allocated.insert c } else s
  | _ => pure ()
  emit (.new x ty)

/-- An instruction whose effect is not described. -/
def unknown (i : Instruction) : LowerBody Unit := do
  let args ← (i.args.filter fun o => match o with | .builtin _ => false | _ => true).mapM operand
  let x ← match i.result with
    | some v => do pure (some (← varOf v))
    | none => pure none
  emit (.unknown x i.name.toLower args)

/-- An instruction that passes its operand on. -/
def copy (i : Instruction) : LowerBody Unit := do
  let x ← resultOf i
  emit (.copy x (← operandAt i 0))

/-! ## Memory -/

/-- The address of a value is used for other things than to load from it and to store to it. -/
def escapes (f : Func) (v : ValueId) : Bool :=
  f.instrs.any fun i =>
    i.operands.contains (some (.value v)) &&
      match i.action with
      | .store => i.operand? 0 != some (.value v) || i.operand? 1 == some (.value v)
      | .unary op => op != .deref
      | .mark => false
      | _ => true

/-- The place that an address stands for. -/
inductive Address where
  /-- A field of the structure that an operand is or points to. -/
  | field (base : Operand) (index : Nat)
  | element (base index : Operand)
  | global (g : GlobalId)
  | pointer (o : Operand)

def address (f : Func) (o : Operand) : Address :=
  match o with
  | .global g => .global g
  | .value v =>
    match f.definition? v with
    | none => .pointer o
    | some i =>
      match i.action, i.operand? 0, i.operand? 1 with
      | .fieldAddr k, some base, _ => .field base k
      | .indexAddr, some base, some index => .element base index
      | _, _, _ => .pointer o
  | _ => .pointer o

/-- A store through a pointer: into its cell, or of a whole structure. -/
def storeThrough (o : Operand) (value : VarId) : LowerBody Unit := do
  let t ← operandType o
  match (← types).cell? t with
  | some elem =>
    let base ← operand o
    let f ← cellField ((← types).underlying t) elem
    emit (.storeField (some base) f value)
  | none =>
    let base ← operand o
    emit (.unknown none "store" [base, value])

def store (i : Instruction) : LowerBody Unit := do
  -- The value is made before the place it goes to.
  let value ← operandAt i 1
  let target := (i.operand? 0).getD (.builtin "")
  match address (← get).func target with
  | .field base k =>
    let b ← operand base
    let f ← fieldOf (← operandType base) k
    emit (.storeField (some b) f value)
  | .element base index =>
    let b ← operand base
    let x ← operand index
    emit (.storeArray b x value)
  | .global g =>
    if ((← types).cell? ((← read).source.global g).ty).isSome then
      let f ← globalField g
      emit (.storeField none f value)
    else
      storeThrough target value
  | .pointer o => storeThrough o value

def load (i : Instruction) : LowerBody Unit := do
  let x ← resultOf i
  let source := (i.operand? 0).getD (.builtin "")
  match address (← get).func source with
  | .field base k =>
    let b ← operand base
    let f ← fieldOf (← operandType base) k
    emit (.loadField x (some b) f)
  | .element base index =>
    let b ← operand base
    emit (.loadArray x b (← operand index))
  | .global g =>
    let f ← globalField g
    emit (.loadField x none f)
  | .pointer o =>
    let t ← operandType o
    match (← types).cell? t with
    | some elem =>
      let base ← operand o
      let f ← cellField ((← types).underlying t) elem
      emit (.loadField x (some base) f)
    | none => emit (.copy x (← operand o))

/-! ## Arithmetic -/

def unary (i : Instruction) (op : Ssa.UnaryToken) : LowerBody Unit := do
  let t ← typeAt i 0
  let b := (← types).basic? t
  match op with
  | .deref => load i
  | .neg =>
    if canNegate b then
      let z ← literal t 0
      let x ← resultOf i
      emit (.binary x .sub z (← operandAt i 0))
    else unknown i
  | .complement =>
    if canComplement b then
      let ones ← literal t (-1)
      let x ← resultOf i
      emit (.binary x .xor (← operandAt i 0) ones)
    else unknown i
  | .not =>
    let one ← literal t 1
    let x ← resultOf i
    emit (.binary x .xor (← operandAt i 0) one)
  | .other => unknown i

def binary (i : Instruction) (op : Ssa.BinaryToken) : LowerBody Unit := do
  let b := (← types).basic? (← typeAt i 0)
  let small := (i.operand? 1).any isSmallCount
  match b.bind fun b => integerOp b op small with
  | some op =>
    let x ← resultOf i
    let y ← operandAt i 0
    emit (.binary x op y (← operandAt i 1))
  | none => unknown i

def convert (i : Instruction) : LowerBody Unit := do
  let source := (← types).basic? (← typeAt i 0)
  let target := (← types).basic? ((← get).func.valueType (i.result.getD 0))
  if isCopy source target then copy i else unknown i

/-! ## Calls -/

/-- Calls of interface methods are looked up by the interface, calls of functions are static, calls of
methods go to their receiver; calls of built-in functions and of function values are unknown. -/
def call (result : Option VarId) (c : Ssa.CallCommon) : LowerBody Unit := do
  match c.method, c.value with
  | some (name, sig), _ =>
    let cls ← classOf (← operandType c.value)
    let subsig ← subsignatureOf name sig
    let base ← operand c.value
    let args ← c.args.mapM operand
    emit (.invoke result { kind := .interface, ref := { cls, name, subsig }, base := some base, args })
  | none, .builtin name =>
    emit (.unknown result ("builtin " ++ name) (← c.args.mapM operand))
  | none, _ =>
    let source := (← read).source
    match c.callee.filter fun f => !source.types.isGeneric (source.func f).sig with
    | none =>
      let callee ← operand c.value
      let args ← c.args.mapM operand
      emit (.unknown result "dynamic call" (callee :: args))
    | some f =>
      let m ← methodFor f
      let args ← c.args.mapM operand
      let d := (← getThe State).builder.header m
      let ref : MethodRef := { cls := d.cls, name := d.name, subsig := d.subsig }
      match d.isStatic, args with
      | false, base :: args => emit (.invoke result { kind := .special, ref, base := some base, args })
      | _, _ => emit (.invoke result { kind := .static, ref, base := none, args })

/-! ## Instructions and blocks -/

/-- Lowers an instruction that neither is a phi nor ends a block. -/
def instruction (i : Instruction) : LowerBody Unit := do
  match i.action with
  | .mark => return
  | .allocate =>
    let x ← resultOf i
    newObject x (← tyOf ((← get).func.valueType (i.result.getD 0)))
  | .store => store i
  | .unary op => unary i op
  | .binary op => binary i op
  | .fieldAddr k =>
    if escapes (← get).func (i.result.getD 0) then
      let x ← resultOf i
      let f ← fieldOf (← typeAt i 0) k
      let name := ((← getThe State).builder.fields[f]?.map (·.name)).getD ""
      emit (.unknown (some x) ("&" ++ name) [← operandAt i 0])
  | .indexAddr =>
    if escapes (← get).func (i.result.getD 0) then
      let x ← resultOf i
      let a ← operandAt i 0
      emit (.unknown (some x) "&[]" [a, ← operandAt i 1])
  | .field k =>
    let x ← resultOf i
    let b ← operandAt i 0
    emit (.loadField x (some b) (← fieldOf (← typeAt i 0) k))
  | .index =>
    let x ← resultOf i
    let a ← operandAt i 0
    emit (.loadArray x a (← operandAt i 1))
  | .call c =>
    let result ← if ((← types).results c.sig).isEmpty then pure none else do pure (some (← resultOf i))
    call result c
  | .spawn c => call none c
  | .retype => copy i
  | .typeAssert commaOk => if commaOk then unknown i else copy i
  | .slice => if ((← types).basic? (← typeAt i 0)).isSome then unknown i else copy i
  | .convert => convert i
  | .makeClosure =>
    match i.args with
    | .func f :: bindings =>
      let _ ← methodFor f
      let x ← resultOf i
      let name := ((← read).source.func f).name
      emit (.unknown (some x) ("closure " ++ name) (← bindings.mapM operand))
    | _ => unknown i
  | .phi | .jump | .branch | .ret | .panic | .other => unknown i

def setPos (pos : Option String) : LowerBody Unit := do
  let m := (← get).method
  build fun b => (b.setPos m pos, ())

def labelOf (b : BlockId) : LowerBody Label := do return ((← get).labels[b]?).getD 0

def shadowOf (phi : Instruction) : LowerBody VarId := do return ((← get).shadows[phi.result.getD 0]?).getD 0

/-- The phis at the head of a block. -/
def headPhis (b : Block) : List Instruction := b.instrs.takeWhile (·.isPhi)

/-- Assigns the shadow of a phi the value that comes along an edge. -/
def assignPhi (edge : Nat) (phi : Instruction) : LowerBody Unit := do
  let shadow ← shadowOf phi
  emit (.copy shadow (← operandAt phi edge))

/-- Assigns the shadows of the phis of the successors of a block. A block that has one successor twice
assigns them once. -/
def assignPhis (blocks : Array Block) (id : BlockId) : LowerBody Unit :=
  (blocks.getD id default).succs.eraseDups.forM fun succ =>
    let target := blocks.getD succ default
    -- A block that is its predecessor twice brings one value along both edges.
    (headPhis target).forM (assignPhi (target.preds.idxOf id))

/-- Lowers the last instruction of a block. -/
def terminator (b : Block) (i : Instruction) : LowerBody Unit := do
  match i.action with
  | .jump => emit (.jump (← labelOf (b.succs.getD 0 0)))
  | .branch =>
    let cond ← operandAt i 0
    let z ← literal (← typeAt i 0) 0
    emit (.branch .ne cond z (← labelOf (b.succs.getD 0 0)))
    emit (.jump (← labelOf (b.succs.getD 1 0)))
  | .ret =>
    match ← i.args.mapM operand with
    | [] => emit (.ret none)
    | [x] => emit (.ret (some x))
    | xs =>
      emit (.unknown none "return" xs)
      emit (.ret none)
  | .panic =>
    emit (.unknown none "panic" [← operandAt i 0])
    emit (.ret none)
  | _ => return

/-- The label of a block stands for the next statement. -/
def bindLabel (id : BlockId) : LowerBody Unit := do
  let m := (← get).method
  let l ← labelOf id
  build fun b => (b.bind m l, ())

/-- Lowers an instruction that does not end a block. -/
def lowerInstr (i : Instruction) : LowerBody Unit := do
  setPos i.pos
  if i.isPhi then
    let x ← resultOf i
    emit (.copy x (← shadowOf i))
  else
    instruction i

/-- Leaves a block. -/
def endBlock (blocks : Array Block) (id : BlockId) : LowerBody Unit := do
  let b := blocks.getD id default
  match b.instrs.getLast? with
  | some i =>
    setPos i.pos
    assignPhis blocks id
    terminator b i
  | none => return

def lowerBlock (blocks : Array Block) (id : BlockId) : LowerBody Unit := do
  bindLabel id
  (blocks.getD id default).instrs.dropLast.forM lowerInstr
  endBlock blocks id

/-- Gives a block its label. -/
def makeLabel (id : BlockId) : LowerBody Unit := do
  let m := (← get).method
  let l ← build (·.newLabel m)
  modify fun s => { s with labels := s.labels.insert id l }

/-- Gives a phi its shadow. -/
def makeShadow (phi : Instruction) : LowerBody Unit := do
  let v := phi.result.getD 0
  let _ ← varOf v
  let f := (← get).func
  let shadow ← newVar (f.valueName v ++ "$in") (← tyOf (f.valueType v))
  modify fun s => { s with shadows := s.shadows.insert v shadow }

/-- Gives the block a label and its phis their shadows. -/
def prepareBlock (blocks : Array Block) (id : BlockId) : LowerBody Unit := do
  makeLabel id
  ((blocks.getD id default).instrs.filter (·.isPhi)).forM makeShadow

/-- Gives a global whose value is a structure or an array its object. -/
def allocateMember (member : Ssa.Member) : LowerBody Unit := do
  match member with
  | .global g =>
    let t := ((← read).source.global g).ty
    if ((← types).cell? t).isNone then
      let x ← temp t
      newObject x (← tyOf t)
      let f ← globalField g
      emit (.storeField none f x)
  | _ => pure ()

/-- The blocks that are reached without a panic. -/
def blockIds (f : Func) : List BlockId :=
  (List.range (f.blocks.getD #[]).size).filter fun b => f.recover != some b

/-- The parameters of the function are those of the method. -/
def bindParams : LowerBody Unit := do
  let f := (← get).func
  let header := (← getThe State).builder.header (← get).method
  let bound := f.params.zip (header.receiver.toList ++ header.params.toList)
  modify fun s => { s with vars := bound.foldl (fun vars (v, x) => vars.insert v x) s.vars }

/-- What comes before the blocks are lowered. The initializer of a package begins with the objects of its
globals. -/
def prologue : LowerBody Unit := do
  let f := (← get).func
  f.freeVars.forM fun v => discard (varOf v)
  f.anons.forM fun g => discard (methodFor g)
  (blockIds f).forM (prepareBlock (f.blocks.getD #[]))
  if f.isInit then
    match (← read).source.packages.find? fun p => some p.path == f.pkg with
    | some pkg => pkg.members.forM fun m => allocateMember m.2
    | none => pure ()

/-- Lowers the body of a function. -/
def body : LowerBody Unit := do
  bindParams
  prologue
  let f := (← get).func
  (blockIds f).forM (lowerBlock (f.blocks.getD #[]))

/-- Lowers the body of a function into its method. -/
def lowerFunction (f : FuncId) (m : MethodId) : Lower Unit := do
  modify fun s => { s with functions := s.functions + 1 }
  let func := (← read).source.func f
  let _ ← body.run { func, method := m }

end WholeProgram.Lowering
