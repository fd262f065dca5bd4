/-!
# Operators and kinds of calls

Both are closed sets that programs refer to by number; a number outside the set is kept, so that a
malformed program can be described, and every use of it is a fault.
-/

namespace WholeProgram

/-- Families of binary operators. -/
inductive OpFamily where
  | arithmetic | bitwise | condition | shift
deriving DecidableEq, Repr

namespace OpFamily

def code : OpFamily → Nat
  | arithmetic => 0
  | bitwise => 1
  | condition => 2
  | shift => 3

end OpFamily

/-- Binary operators. -/
inductive BinaryOp where
  | add | sub | mul | div | rem
  | and | or | xor
  | eq | ne | lt | gt | le | ge
  | shl | shr | ushr
  | undeclared (code : Int)
deriving DecidableEq, Repr, Hashable

namespace BinaryOp

/-- The declared operators, by number. -/
def declared : List BinaryOp :=
  [add, sub, mul, div, rem, and, or, xor, eq, ne, lt, gt, le, ge, shl, shr, ushr]

def ofCode (n : Int) : BinaryOp :=
  match n with
  | .ofNat k => declared.getD k (undeclared n)
  | .negSucc _ => undeclared n

def text : BinaryOp → String
  | add => "+"
  | sub => "-"
  | mul => "*"
  | div => "/"
  | rem => "%"
  | and => "&"
  | or => "|"
  | xor => "^"
  | eq => "=="
  | ne => "!="
  | lt => "<"
  | gt => ">"
  | le => "<="
  | ge => ">="
  | shl => "<<"
  | shr => ">>"
  | ushr => ">>>"
  | undeclared n => "op(" ++ toString n ++ ")"

/-- The operator written with this symbol. -/
def ofText? (s : String) : Option BinaryOp := declared.find? (·.text == s)

/-- The family of a declared operator; an undeclared one has none, and its number is returned. -/
def family : BinaryOp → Except Int OpFamily
  | add | sub | mul | div | rem => .ok .arithmetic
  | and | or | xor => .ok .bitwise
  | eq | ne | lt | gt | le | ge => .ok .condition
  | shl | shr | ushr => .ok .shift
  | undeclared n => .error n

def isDeclared (op : BinaryOp) : Bool := op.family.isOk

end BinaryOp

/-- How a call finds its callee. -/
inductive CallKind where
  | static | special | virtual | interface
  | undeclared (code : Int)
deriving DecidableEq, Repr, Hashable

namespace CallKind

def declared : List CallKind := [static, special, virtual, interface]

def ofCode (n : Int) : CallKind :=
  match n with
  | .ofNat k => declared.getD k (undeclared n)
  | .negSucc _ => undeclared n

def text : CallKind → String
  | static => "STATIC"
  | special => "SPECIAL"
  | virtual => "VIRTUAL"
  | interface => "INTERFACE"
  | undeclared n => "CallKind(" ++ toString n ++ ")"

/-- The kind as call expressions show it. -/
def word : CallKind → String
  | static => "static"
  | special => "special"
  | virtual => "virtual"
  | interface => "interface"
  | undeclared n => "callkind(" ++ toString n ++ ")"

/-- The number of the kind. -/
def code : CallKind → Int
  | static => 0
  | special => 1
  | virtual => 2
  | interface => 3
  | undeclared n => n

end CallKind

end WholeProgram
