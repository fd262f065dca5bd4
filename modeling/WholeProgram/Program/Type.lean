/-!
# Identifiers and types

Classes, methods, variables and fields of a program are numbered by their position in it. Types are
primitive types, arrays, and classes.
-/

namespace WholeProgram

/-- Position of a class in its program. -/
abbrev ClassId := Nat

/-- Position of a method in its program. -/
abbrev MethodId := Nat

/-- Position of a variable among all variables of its program. -/
abbrev VarId := Nat

/-- Position of a field among all fields of its program. -/
abbrev FieldId := Nat

/-- Primitive types. Numbers that name no declared type are kept as they are. -/
inductive Prim where
  | int | long | short | byte | char | boolean | float | double
  | undeclared (code : Int)
deriving DecidableEq, Repr, Hashable

namespace Prim

def declared : List Prim := [int, long, short, byte, char, boolean, float, double]

/-- The primitive type with this number. -/
def ofCode (n : Int) : Prim :=
  match n with
  | .ofNat k => declared.getD k (undeclared n)
  | .negSucc _ => undeclared n

def text : Prim → String
  | int => "int"
  | long => "long"
  | short => "short"
  | byte => "byte"
  | char => "char"
  | boolean => "boolean"
  | float => "float"
  | double => "double"
  | undeclared n => "primitive(" ++ toString n ++ ")"

/-- Values of the type are integers, truth values and characters included. -/
def holdsInt : Prim → Bool
  | int | long | short | byte | char | boolean => true
  | float | double | undeclared _ => false

end Prim

/-- The type of a variable, a field or an allocated object. -/
inductive Ty where
  | prim (p : Prim)
  | array (elem : Ty)
  | ref (c : ClassId)
deriving DecidableEq, Repr, Hashable, Inhabited

namespace Ty

/-- The text of a type, given the names of the classes. -/
def text (className : ClassId → String) : Ty → String
  | prim p => p.text
  | array t => t.text className ++ "[]"
  | ref c => className c

/-- Variables of the type hold integers. -/
def holdsInt : Ty → Bool
  | prim p => p.holdsInt
  | array _ | ref _ => false

end Ty

end WholeProgram
