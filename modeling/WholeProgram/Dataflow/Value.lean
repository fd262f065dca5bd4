import WholeProgram.Program.Op

/-!
# The lattice of constants

A value is undefined, one 64-bit integer, or not a constant, in this order from below. `Value.join`
combines the values of two paths; `Value.binary` is the abstract operation of the operators.
-/

namespace WholeProgram

/-- What is known of an integer variable. -/
inductive Value where
  /-- No value was seen. -/
  | undefined
  | const (c : Int64)
  /-- Not a constant: several values were seen. -/
  | nac
deriving DecidableEq, Repr, Inhabited

namespace Value

def text : Value → String
  | undefined => "UNDEF"
  | const c => toString c.toInt
  | nac => "NAC"

def isUndefined : Value → Bool
  | undefined => true
  | _ => false

def isConst : Value → Bool
  | const _ => true
  | _ => false

def isNac : Value → Bool
  | nac => true
  | _ => false

/-- The constant of a value that must be one. -/
def getConst (v : Value) : Except String Int64 :=
  match v with
  | const c => .ok c
  | _ => .error (v.text ++ " is not a constant")

/-- The least value above both. -/
def join : Value → Value → Value
  | nac, _ | _, nac => nac
  | undefined, b => b
  | a, undefined => a
  | const a, const b => if a = b then const a else nac

/-- The order of the lattice. -/
def le (a b : Value) : Bool := a.isUndefined || b.isNac || a == b

def ofBool (b : Bool) : Value := const (if b then 1 else 0)

end Value

namespace BinaryOp

/-- The result of an operator on two constants: 64-bit arithmetic that wraps, shifts by the low six
bits of the second operand, and no constant for a division by zero. -/
def compute (op : BinaryOp) (x y : Int64) : Value :=
  match op with
  | add => .const (x + y)
  | sub => .const (x - y)
  | mul => .const (x * y)
  | div => if y = 0 then .nac else .const (x / y)
  | rem => if y = 0 then .nac else .const (x % y)
  | and => .const (x &&& y)
  | or => .const (x ||| y)
  | xor => .const (x ^^^ y)
  | eq => .ofBool (x == y)
  | ne => .ofBool (x != y)
  | lt => .ofBool (decide (x < y))
  | gt => .ofBool (decide (y < x))
  | le => .ofBool (decide (x ≤ y))
  | ge => .ofBool (decide (y ≤ x))
  | shl => .const (x <<< (y &&& 63))
  | shr => .const (x >>> (y &&& 63))
  | ushr => .const (x.toUInt64 >>> (y &&& 63).toUInt64).toInt64
  | undeclared _ => .nac

end BinaryOp

namespace Value

/-- The value of `x op y`. -/
def binary (op : BinaryOp) (x y : Value) : Value :=
  match x, y with
  | const a, const b => op.compute a b
  | nac, _ | _, nac => nac
  | undefined, undefined | undefined, const _ | const _, undefined => undefined

/-- Evaluating `x op y` is a fault: the operands are constants and the operator does not exist. -/
def faulty (op : BinaryOp) (x y : Value) : Bool := x.isConst && y.isConst && !op.isDeclared

/-- The value of `x op y`, or the operator that does not exist. -/
def evaluate (op : BinaryOp) (x y : Value) : Except BinaryOp Value :=
  if faulty op x y then .error op else .ok (binary op x y)

end Value

end WholeProgram
