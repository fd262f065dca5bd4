/-!
# Types of the source language

Programs come in static single assignment form, with a table of the types that occur in them. A type is
known by its position in the table and by its text; two positions may hold the same type.
-/

namespace WholeProgram.Ssa

/-- Position in the table of types. -/
abbrev TypeId := Nat

/-- Basic types. Sizes are in bytes, on a 64-bit platform. -/
inductive Basic where
  | boolean
  | integer (signed : Bool) (size : Nat)
  /-- A constant without a type of its own has no size. -/
  | float (size : Option Nat)
  | complex
  | other
deriving DecidableEq, Repr

namespace Basic

/-- The basic type with this name. -/
def ofName : String → Basic
  | "bool" | "untyped bool" => boolean
  | "int8" => integer true 1
  | "int16" => integer true 2
  | "int32" => integer true 4
  | "int" | "int64" | "untyped int" | "untyped rune" => integer true 8
  | "uint8" => integer false 1
  | "uint16" => integer false 2
  | "uint32" => integer false 4
  | "uint" | "uint64" | "uintptr" => integer false 8
  | "float32" => float (some 4)
  | "float64" => float (some 8)
  | "untyped float" => float none
  | "complex64" | "complex128" | "untyped complex" => complex
  | _ => other

def isInteger : Basic → Bool
  | integer _ _ => true
  | _ => false

def isNumeric : Basic → Bool
  | integer _ _ | float _ | complex => true
  | boolean | other => false

/-- Values of the type are tracked as integers. -/
def isIntLike : Basic → Bool
  | integer _ _ | boolean => true
  | _ => false

/-- An integer type without sign. -/
def isUnsigned : Basic → Bool
  | integer signed _ => !signed
  | _ => false

/-- A 64-bit integer type. -/
def isWide : Basic → Bool
  | integer _ size => size == 8
  | _ => false

end Basic

/-- A name and a type. -/
abbrev Binding := String × TypeId

/-- How a type is built. -/
inductive Shape where
  | basic (b : Basic)
  | named (pkg : Option String) (tparams targs : Nat) (underlying : TypeId)
  | pointer (elem : TypeId)
  | slice (elem : TypeId)
  | array (elem : TypeId)
  | struct (fields : List Binding)
  | signature (recv : Option TypeId) (tparams : Nat) (params results : List Binding)
  | interface (numMethods : Nat)
  | typeParam (underlying : TypeId)
  /-- A type whose parts do not matter. -/
  | other
deriving Repr, Inhabited

/-- A type of the source language. -/
structure SourceType where
  text : String
  shape : Shape
deriving Repr, Inhabited

/-- A table of types. -/
abbrev Types := Array SourceType

namespace Types

def text (ts : Types) (t : TypeId) : String := (ts.getD t default).text

def shape (ts : Types) (t : TypeId) : Shape := (ts.getD t default).shape

/-- The type behind names. -/
def underlying (ts : Types) (t : TypeId) : TypeId :=
  match ts.shape t with
  | .named _ _ _ u | .typeParam u => u
  | _ => t

/-- The shape behind names. -/
def under (ts : Types) (t : TypeId) : Shape := ts.shape (ts.underlying t)

/-- The type that a pointer points to; any other type itself. -/
def deref (ts : Types) (t : TypeId) : TypeId :=
  match ts.under t with
  | .pointer e => e
  | _ => t

/-- The basic type behind names. -/
def basic? (ts : Types) (t : TypeId) : Option Basic :=
  match ts.under t with
  | .basic b => some b
  | _ => none

/-- A pointer to the type is an object of its own with one field; pointers to structures and arrays are
the structures and arrays themselves. -/
def isCellOf (ts : Types) (elem : TypeId) : Bool :=
  match ts.under elem with
  | .struct _ | .array _ => false
  | _ => true

/-- The pointee of a pointer type that is a cell. -/
def cell? (ts : Types) (t : TypeId) : Option TypeId :=
  match ts.under t with
  | .pointer e => if ts.isCellOf e then some e else none
  | _ => none

/-- The results of a signature. -/
def results (ts : Types) (sig : TypeId) : List Binding :=
  match ts.shape sig with
  | .signature _ _ _ rs => rs
  | _ => []

def params (ts : Types) (sig : TypeId) : List Binding :=
  match ts.shape sig with
  | .signature _ _ ps _ => ps
  | _ => []

def receiver? (ts : Types) (sig : TypeId) : Option TypeId :=
  match ts.shape sig with
  | .signature r _ _ _ => r
  | _ => none

/-- The signature has type parameters. -/
def isGeneric (ts : Types) (sig : TypeId) : Bool :=
  match ts.shape sig with
  | .signature _ n _ _ => 0 < n
  | _ => false

end Types

end WholeProgram.Ssa
