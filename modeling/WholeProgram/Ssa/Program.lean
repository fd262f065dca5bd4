import WholeProgram.Ssa.Type

/-!
# Programs in static single assignment form

Functions are graphs of blocks of instructions. Values are known by their position among the values of
their function; functions and globals by their position in the program.
-/

namespace WholeProgram.Ssa

abbrev FuncId := Nat

abbrev GlobalId := Nat

/-- Position among the values of a function: parameters, free variables and results of instructions. -/
abbrev ValueId := Nat

abbrev BlockId := Nat

/-- The value of a constant, as far as it matters. -/
inductive Const where
  /-- The zero value of a type that is not basic. -/
  | zero
  | bool (b : Bool)
  | int (n : Int)
  | other
deriving DecidableEq, Repr

/-- What an instruction reads. -/
inductive Operand where
  | value (v : ValueId)
  | const (ty : TypeId) (c : Const)
  | global (g : GlobalId)
  | func (f : FuncId)
  | builtin (name : String)
deriving DecidableEq, Repr

/-- Unary operators. -/
inductive UnaryToken where
  | deref | neg | complement | not
  | other
deriving DecidableEq, Repr

namespace UnaryToken

def ofText : String → UnaryToken
  | "*" => deref
  | "-" => neg
  | "^" => complement
  | "!" => not
  | _ => other

end UnaryToken

/-- Binary operators. -/
inductive BinaryToken where
  | add | sub | mul | quo | rem
  | and | or | xor | shl | shr
  | eq | ne | lt | gt | le | ge
  | other
deriving DecidableEq, Repr

namespace BinaryToken

def ofText : String → BinaryToken
  | "+" => add
  | "-" => sub
  | "*" => mul
  | "/" => quo
  | "%" => rem
  | "&" => and
  | "|" => or
  | "^" => xor
  | "<<" => shl
  | ">>" => shr
  | "==" => eq
  | "!=" => ne
  | "<" => lt
  | ">" => gt
  | "<=" => le
  | ">=" => ge
  | _ => other

end BinaryToken

/-- A call. -/
structure CallCommon where
  value : Operand
  args : List Operand
  sig : TypeId
  /-- The function, if it is known. -/
  callee : Option FuncId
  /-- The method of an interface, if the call is to one. -/
  method : Option Binding
deriving Repr

/-- What an instruction does; its operands stand beside it. -/
inductive Action where
  /-- Marks that only debuggers read, and the running of deferred calls. -/
  | mark
  | allocate
  | store
  | unary (op : UnaryToken)
  | binary (op : BinaryToken)
  | fieldAddr (index : Nat)
  | indexAddr
  | field (index : Nat)
  | index
  | call (c : CallCommon)
  /-- A call whose result is dropped, now or later. -/
  | spawn (c : CallCommon)
  /-- The value in another type. -/
  | retype
  | typeAssert (commaOk : Bool)
  | slice
  | convert
  | makeClosure
  | phi
  | jump
  | branch
  | ret
  | panic
  | other
deriving Repr

/-- An instruction. -/
structure Instruction where
  action : Action
  /-- The name of the instruction. -/
  name : String
  operands : List (Option Operand)
  /-- The value that it defines. -/
  result : Option ValueId
  pos : Option String
deriving Repr

namespace Instruction

def isPhi (i : Instruction) : Bool :=
  match i.action with
  | .phi => true
  | _ => false

/-- The operand at a position. -/
def operand? (i : Instruction) (k : Nat) : Option Operand := (i.operands[k]?).join

/-- The operands that are there. -/
def args (i : Instruction) : List Operand := i.operands.filterMap id

end Instruction

/-- A basic block: its last instruction ends it. -/
structure Block where
  preds : List BlockId
  succs : List BlockId
  instrs : List Instruction
deriving Repr, Inhabited

/-- A function. -/
structure Func where
  name : String
  sig : TypeId
  /-- The path of its package. -/
  pkg : Option String
  /-- The path of the package of its declaration. -/
  objectPkg : Option String
  pos : Option String
  /-- It is the initializer of its package. -/
  isInit : Bool
  params : List ValueId
  freeVars : List ValueId
  anons : List FuncId
  values : Array Binding
  blocks : Option (Array Block)
  /-- The block in which a panic is caught. -/
  recover : Option BlockId
deriving Repr, Inhabited

namespace Func

def valueName (f : Func) (v : ValueId) : String := (f.values.getD v ("", 0)).1

def valueType (f : Func) (v : ValueId) : TypeId := (f.values.getD v ("", 0)).2

/-- All instructions. -/
def instrs (f : Func) : List Instruction := (f.blocks.getD #[]).toList.flatMap (·.instrs)

/-- The instruction that defines a value. -/
def definition? (f : Func) (v : ValueId) : Option Instruction := f.instrs.find? (·.result == some v)

end Func

structure Global where
  name : String
  /-- The type of its address. -/
  ty : TypeId
  pkg : Option String
deriving Repr, Inhabited

/-- A member of a package. -/
inductive Member where
  | func (f : FuncId)
  | global (g : GlobalId)
  | type (t : TypeId)
  | const
deriving Repr

structure Package where
  path : String
  name : String
  /-- It is one of the packages asked for. -/
  initial : Bool
  /-- The members by name, in increasing order. -/
  members : List (String × Member)
deriving Repr, Inhabited

/-- A method of the pointer to a named type. -/
structure Selection where
  name : String
  sig : TypeId
  /-- Number of fields on the way to it; one for a method of the type itself. -/
  depth : Nat
  func : Option FuncId
  /-- The function that goes that way. -/
  wrapper : Option FuncId
deriving Repr

namespace Selection

/-- The function that implements the method. -/
def implementation? (s : Selection) : Option FuncId :=
  match s.func with
  | some f => if s.depth = 1 then some f else s.wrapper
  | none => s.wrapper

end Selection

/-- A program in static single assignment form. -/
structure Program where
  types : Types := #[]
  /-- The packages by path, in increasing order. -/
  packages : List Package := []
  globals : Array Global := #[]
  funcs : Array Func := #[]
  methodSets : List (TypeId × List Selection) := []
  /-- Named types, or pointers to them, and the interfaces they implement. -/
  implementations : List (TypeId × TypeId) := []
deriving Inhabited

namespace Program

def func (p : Program) (f : FuncId) : Func := p.funcs.getD f default

def global (p : Program) (g : GlobalId) : Global := p.globals.getD g default

/-- The methods of the pointer to a named type. -/
def methodsOf (p : Program) (t : TypeId) : List Selection := (p.methodSets.lookup t).getD []

def implements (p : Program) (t iface : TypeId) : Bool := p.implementations.contains (t, iface)

/-- The type of an operand of a function. -/
def operandType (p : Program) (f : Func) : Operand → TypeId
  | .value v => f.valueType v
  | .const t _ => t
  | .global g => (p.global g).ty
  | .func g => (p.func g).sig
  | .builtin _ => 0

/-- The package of a function: its own, that of its receiver, or that of its declaration. -/
def owner? (p : Program) (f : FuncId) : Option String :=
  let d := p.func f
  let ofReceiver := (p.types.receiver? d.sig).bind fun r =>
    match p.types.shape (p.types.deref r) with
    | .named pkg _ _ _ => pkg
    | _ => none
  d.pkg <|> ofReceiver <|> d.objectPkg

end Program

end WholeProgram.Ssa
