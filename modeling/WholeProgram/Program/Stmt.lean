import WholeProgram.Program.Type
import WholeProgram.Program.Op

/-!
# Statements

A method body is a list of statements of fifteen forms. The type of jump targets is a parameter: a
body under construction jumps to labels, a finished one to the positions of its statements.

`Stmt.defined?` and `Stmt.uses` are the variable written and the variables read.
-/

namespace WholeProgram

/-- The method a call names: a class, and the subsignature that is looked up from there. -/
structure MethodRef where
  cls : ClassId
  name : String
  subsig : String
deriving DecidableEq, Repr

/-- The call expression of a call site. -/
structure Call where
  kind : CallKind
  ref : MethodRef
  base : Option VarId
  args : List VarId
deriving DecidableEq, Repr

/-- Statements with jump targets of type `τ`. -/
inductive Stmt (τ : Type) where
  /-- Does nothing. -/
  | nop
  /-- `lhs = value` -/
  | literal (lhs : VarId) (value : Int64)
  /-- `lhs = rhs` -/
  | copy (lhs rhs : VarId)
  /-- `lhs = x op y` -/
  | binary (lhs : VarId) (op : BinaryOp) (x y : VarId)
  /-- `lhs = new ty`; each such statement is one allocation site. -/
  | new (lhs : VarId) (ty : Ty)
  /-- `lhs = base.field`, or the static field when there is no base. -/
  | loadField (lhs : VarId) (base : Option VarId) (field : FieldId)
  /-- `base.field = rhs`, or the static field when there is no base. -/
  | storeField (base : Option VarId) (field : FieldId) (rhs : VarId)
  /-- `lhs = base[index]` -/
  | loadArray (lhs base index : VarId)
  /-- `base[index] = rhs` -/
  | storeArray (base index rhs : VarId)
  /-- `result = call`; the result may be dropped. -/
  | invoke (result : Option VarId) (call : Call)
  /-- `if (x op y) goto target` -/
  | branch (op : BinaryOp) (x y : VarId) (target : τ)
  /-- `goto target` -/
  | jump (target : τ)
  /-- Jumps to the target of the first case with the value of `scrutinee`, or to the default. -/
  | switch (scrutinee : VarId) (cases : List (Int64 × τ)) (default : τ)
  /-- Leaves the method. -/
  | ret (value : Option VarId)
  /-- `lhs = unknown(args)`: a value, or only an effect, that programs do not describe. -/
  | unknown (lhs : Option VarId) (desc : String) (args : List VarId)
deriving Repr, DecidableEq

instance {τ : Type} : Inhabited (Stmt τ) := ⟨.nop⟩

namespace Stmt

variable {τ υ : Type}

/-- Replaces every jump target. -/
def mapTargets (f : τ → υ) : Stmt τ → Stmt υ
  | nop => nop
  | literal x v => literal x v
  | copy x y => copy x y
  | binary x op y z => binary x op y z
  | new x t => new x t
  | loadField x b f => loadField x b f
  | storeField b f y => storeField b f y
  | loadArray x a i => loadArray x a i
  | storeArray a i y => storeArray a i y
  | invoke r c => invoke r c
  | branch op x y t => branch op x y (f t)
  | jump t => jump (f t)
  | switch v cs d => switch v (cs.map fun c => (c.1, f c.2)) (f d)
  | ret v => ret v
  | unknown x d as => unknown x d as

/-- The variable that the statement defines. -/
def defined? : Stmt τ → Option VarId
  | literal x _ | copy x _ | binary x _ _ _ | new x _ | loadField x _ _ | loadArray x _ _ => some x
  | invoke r _ => r
  | unknown x _ _ => x
  | nop | storeField _ _ _ | storeArray _ _ _ | branch _ _ _ _ | jump _ | switch _ _ _ | ret _ => none

/-- The variables that the statement reads, in order of appearance. -/
def uses : Stmt τ → List VarId
  | nop | literal _ _ | new _ _ | jump _ => []
  | copy _ y => [y]
  | binary _ _ x y => [x, y]
  | loadField _ b _ => b.toList
  | storeField b _ y => b.toList ++ [y]
  | loadArray _ a i => [a, i]
  | storeArray a i y => [a, i, y]
  | invoke _ c => c.base.toList ++ c.args
  | branch _ x y _ => [x, y]
  | switch v _ _ => [v]
  | ret v => v.toList
  | unknown _ _ as => as

/-- The variable through which the statement reaches an object: the base of an access, or the receiver of
a call. -/
def base? : Stmt τ → Option VarId
  | loadField _ b _ | storeField b _ _ => b
  | loadArray _ a _ | storeArray a _ _ => some a
  | invoke _ c => c.base
  | nop | literal _ _ | copy _ _ | binary _ _ _ _ | new _ _ | branch _ _ _ _ | jump _ | switch _ _ _ | ret _
  | unknown _ _ _ => none

/-- The call of a call site. -/
def call? : Stmt τ → Option Call
  | invoke _ c => some c
  | _ => none

/-- The name of the statement's form. -/
def form : Stmt τ → String
  | nop => "Nop"
  | literal _ _ => "AssignLiteral"
  | copy _ _ => "Copy"
  | binary _ _ _ _ => "Binary"
  | new _ _ => "New"
  | loadField _ _ _ => "LoadField"
  | storeField _ _ _ => "StoreField"
  | loadArray _ _ _ => "LoadArray"
  | storeArray _ _ _ => "StoreArray"
  | invoke _ _ => "Invoke"
  | branch _ _ _ _ => "If"
  | jump _ => "Goto"
  | switch _ _ _ => "Switch"
  | ret _ => "Return"
  | unknown _ _ _ => "Opaque"

end Stmt

end WholeProgram
