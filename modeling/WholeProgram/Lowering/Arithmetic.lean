import WholeProgram.Text.Digits
import WholeProgram.Program.Op
import WholeProgram.Ssa.Program

/-!
# Which arithmetic can be expressed

Statements compute with 64-bit integers. An operation of the source language becomes such a computation
only if both always have the same result; all others become unknown values.
-/

namespace WholeProgram.Lowering

open Ssa

/-- The operator that computes `x op y` for operands of type `b`. Operations that may overflow need
64-bit operands, unsigned 64-bit numbers are not ordered or divided, and shifts need a small count. -/
def integerOp (b : Basic) (op : BinaryToken) (smallCount : Bool) : Option BinaryOp :=
  let wide := b.isWide
  let unsignedWide := wide && b.isUnsigned
  let only (c : Bool) (o : BinaryOp) : Option BinaryOp := if c then some o else none
  if !b.isIntLike then none
  else match op with
    | .and => some .and
    | .or => some .or
    | .xor => some .xor
    | .eq => some .eq
    | .ne => some .ne
    | .lt => only (!unsignedWide) .lt
    | .gt => only (!unsignedWide) .gt
    | .le => only (!unsignedWide) .le
    | .ge => only (!unsignedWide) .ge
    | .add => only wide .add
    | .sub => only wide .sub
    | .mul => only wide .mul
    | .quo => only (wide && !unsignedWide) .div
    | .rem => only (b.isInteger && !unsignedWide) .rem
    | .shl => only (wide && smallCount) .shl
    | .shr => if unsignedWide then only smallCount .ushr else only (b.isInteger && smallCount) .shr
    | .other => none

/-- A shift count below the width of a word. -/
def isSmallCount : Operand → Bool
  | .const _ (.int n) => 0 ≤ n && n < 64
  | _ => false

/-- Negation can be computed. -/
def canNegate (b : Option Basic) : Bool := b.any (·.isWide)

/-- The bitwise complement can be computed. -/
def canComplement (b : Option Basic) : Bool := b.any fun b => b.isInteger && (!b.isUnsigned || b.isWide)

/-- The conversion keeps the value as it is. -/
def isCopy (source target : Option Basic) : Bool :=
  match source, target with
  | some (.integer signed size), some (.integer signed' size') =>
    size' == 8 || (decide (size < size') && (signed' || !signed))
  | s, t => !(s.any (·.isNumeric) || t.any (·.isNumeric))

/-- The 64-bit pattern of a constant. -/
def literal? : Const → Option Int64
  | .bool b => some (if b then 1 else 0)
  | .int n => if Word.minSigned ≤ n ∧ n ≤ Word.maxUnsigned then some (Int64.ofInt n) else none
  | .zero | .other => none

end WholeProgram.Lowering
