import Mathlib.Tactic.NormNum
import WholeProgram.Dataflow.Value

/-!
# Arithmetic on 64-bit integers

`BinaryOp.onInts?` says what an operator makes of two integers, in terms of the numbers that they stand
for: the result is computed without bounds and then wrapped into 64 bits. The operators on constants
compute the same (`compute_eq`), although they work on the bits.
-/

namespace WholeProgram.BinaryOp

/-- The number of places by which an integer shifts: its lowest six bits. -/
def places (y : Int64) : Nat := (y.toInt % 64).toNat

def ofBool (b : Bool) : Int64 := if b then 1 else 0

/-- What an operator makes of two integers. Nothing comes of a division by zero, or of an operator that
does not exist. -/
def onInts? (op : BinaryOp) (x y : Int64) : Option Int64 :=
  match op with
  | add => some (.ofInt (x.toInt + y.toInt))
  | sub => some (.ofInt (x.toInt - y.toInt))
  | mul => some (.ofInt (x.toInt * y.toInt))
  | div => if y.toInt = 0 then none else some (.ofInt (x.toInt.tdiv y.toInt))
  | rem => if y.toInt = 0 then none else some (.ofInt (x.toInt.tmod y.toInt))
  | and => some (.ofBitVec (x.toBitVec &&& y.toBitVec))
  | or => some (.ofBitVec (x.toBitVec ||| y.toBitVec))
  | xor => some (.ofBitVec (x.toBitVec ^^^ y.toBitVec))
  | eq => some (ofBool (x.toInt = y.toInt))
  | ne => some (ofBool (x.toInt ≠ y.toInt))
  | lt => some (ofBool (x.toInt < y.toInt))
  | gt => some (ofBool (y.toInt < x.toInt))
  | le => some (ofBool (x.toInt ≤ y.toInt))
  | ge => some (ofBool (y.toInt ≤ x.toInt))
  | shl => some (.ofInt (x.toInt * 2 ^ places y))
  | shr => some (.ofInt (x.toInt / 2 ^ places y))
  | ushr => some (.ofInt (x.toInt % 2 ^ 64 / 2 ^ places y))
  | undeclared _ => none

/-- The operator divides, so that it has no result where the second operand is zero. -/
def divides : BinaryOp → Bool
  | div | rem => true
  | _ => false

/-! ## Shifts -/

section

variable (x y : Int64)

theorem places_lt : places y < 64 := by
  unfold places
  omega

theorem places_eq : places y = y.toBitVec.toNat % 64 := by
  unfold places
  rw [← Int64.toInt_toBitVec, BitVec.toInt_eq_toNat_cond]
  split <;> omega

theorem toNat_ofNat_places : (BitVec.ofNat 64 (places y)).toNat = places y := by
  have hlt := places_lt y
  rw [BitVec.toNat_ofNat]
  omega

theorem toBitVec_and_63 : (y &&& 63).toBitVec = BitVec.ofNat 64 (places y) := by
  apply BitVec.eq_of_toNat_eq
  have h63 : (63 : Int64).toBitVec.toNat = 2 ^ 6 - 1 := rfl
  rw [Int64.toBitVec_and, BitVec.toNat_and, h63, Nat.and_two_pow_sub_one_eq_mod, toNat_ofNat_places,
    places_eq]

/-- Reducing the places once more changes nothing, for the unsigned remainder. -/
theorem toNat_umod_places : ((BitVec.ofNat 64 (places y)).umod 64).toNat = places y := by
  have hlt := places_lt y
  rw [BitVec.umod_eq, BitVec.toNat_umod, toNat_ofNat_places]
  show places y % 64 = places y
  omega

theorem toNat_smod_places : ((BitVec.ofNat 64 (places y)).smod 64).toNat = places y := by
  have hmsb : (BitVec.ofNat 64 (places y)).msb = false := by
    have hlt := places_lt y
    rw [BitVec.msb_eq_decide, toNat_ofNat_places]
    simp only [decide_eq_false_iff_not]
    omega
  rw [BitVec.smod_eq, hmsb]
  exact toNat_umod_places y

theorem shiftLeft_eq : x <<< (y &&& 63) = .ofInt (x.toInt * 2 ^ places y) := by
  have hpow : (2 : Int) ^ places y = ((2 ^ places y : Nat) : Int) := by norm_cast
  have htwo : BitVec.twoPow 64 (places y) = BitVec.ofInt 64 (2 ^ places y) := by
    apply BitVec.eq_of_toNat_eq
    rw [BitVec.toNat_twoPow, hpow, BitVec.ofInt_natCast, BitVec.toNat_ofNat]
  rw [← Int64.toBitVec_inj, Int64.toBitVec_shiftLeft, toBitVec_and_63, Int64.toBitVec_ofInt,
    BitVec.ofInt_mul, ← Int64.toInt_toBitVec, BitVec.ofInt_toInt, BitVec.shiftLeft_eq',
    toNat_smod_places, BitVec.shiftLeft_eq_mul_twoPow, htwo]

theorem shiftRight_eq : x >>> (y &&& 63) = .ofInt (x.toInt / 2 ^ places y) := by
  rw [← Int64.toBitVec_inj, Int64.toBitVec_shiftRight, toBitVec_and_63, Int64.toBitVec_ofInt]
  show x.toBitVec.sshiftRight ((BitVec.ofNat 64 (places y)).smod 64).toNat = _
  rw [toNat_smod_places, ← Int64.toInt_toBitVec,
    ← BitVec.ofInt_toInt (x := x.toBitVec.sshiftRight (places y)), BitVec.toInt_sshiftRight,
    Int.shiftRight_eq_div_pow]
  norm_cast

theorem unsignedShiftRight_eq :
    (x.toUInt64 >>> (y &&& 63).toUInt64).toInt64 = .ofInt (x.toInt % 2 ^ 64 / 2 ^ places y) := by
  have hx : x.toInt % 2 ^ 64 = (x.toBitVec.toNat : Int) := by
    rw [← Int64.toInt_toBitVec, BitVec.toInt_eq_toNat_cond]
    split <;> omega
  have hdiv : (x.toBitVec.toNat : Int) / 2 ^ places y = ((x.toBitVec.toNat / 2 ^ places y : Nat) : Int) := by
    norm_cast
  have hlt : x.toBitVec.toNat / 2 ^ places y < 2 ^ 64 :=
    lt_of_le_of_lt (Nat.div_le_self _ _) x.toBitVec.isLt
  rw [← Int64.toBitVec_inj, Int64.toBitVec_ofInt]
  apply BitVec.eq_of_toNat_eq
  show (x.toBitVec >>> ((y &&& 63).toBitVec.umod 64).toNat).toNat = _
  rw [toBitVec_and_63, toNat_umod_places, BitVec.toNat_ushiftRight, Nat.shiftRight_eq_div_pow, hx,
    hdiv, BitVec.ofInt_natCast, BitVec.toNat_ofNat, Nat.mod_eq_of_lt hlt]

end

/-! ## The operators on constants -/

theorem div_eq (x y : Int64) : x / y = .ofInt (x.toInt.tdiv y.toInt) := by
  rw [Int64.ofInt_tdiv x.minValue_le_toInt x.toInt_le y.minValue_le_toInt y.toInt_le,
    Int64.ofInt_toInt, Int64.ofInt_toInt]

theorem rem_eq (x y : Int64) : x % y = .ofInt (x.toInt.tmod y.toInt) := by
  rw [← Int64.toInt_mod, Int64.ofInt_toInt]

theorem toInt_eq_zero {y : Int64} : y.toInt = 0 ↔ y = 0 :=
  Int64.toInt_inj (y := 0)

/-- The operators on constants compute on the integers. -/
theorem compute_eq (op : BinaryOp) (x y : Int64) :
    op.compute x y = match op.onInts? x y with
      | some c => .const c
      | none => .nac := by
  cases op with
  | add => simp [compute, onInts?, Int64.ofInt_add]
  | sub => simp [compute, onInts?, Int64.ofInt_sub]
  | mul => simp [compute, onInts?, Int64.ofInt_mul]
  | div =>
    by_cases hy : y = 0
    · simp [compute, onInts?, hy]
    · simp [compute, onInts?, toInt_eq_zero, hy, div_eq]
  | rem =>
    by_cases hy : y = 0
    · simp [compute, onInts?, hy]
    · simp [compute, onInts?, toInt_eq_zero, hy, rem_eq]
  | and | or | xor => rfl
  | eq => simp [compute, onInts?, Value.ofBool, ofBool, Int64.toInt_inj]
  | ne => simp [compute, onInts?, Value.ofBool, ofBool, Int64.toInt_inj]
  | lt => simp [compute, onInts?, Value.ofBool, ofBool, Int64.lt_iff_toInt_lt]
  | gt => simp [compute, onInts?, Value.ofBool, ofBool, Int64.lt_iff_toInt_lt]
  | le => simp [compute, onInts?, Value.ofBool, ofBool, Int64.le_iff_toInt_le]
  | ge => simp [compute, onInts?, Value.ofBool, ofBool, Int64.le_iff_toInt_le]
  | shl => exact congrArg Value.const (shiftLeft_eq x y)
  | shr => exact congrArg Value.const (shiftRight_eq x y)
  | ushr => exact congrArg Value.const (unsignedShiftRight_eq x y)
  | undeclared => rfl

-- the quotient that does not fit wraps around, and shifts go by the lowest six bits
example : onInts? .div Int64.minValue (-1) = some Int64.minValue := by decide

example : onInts? .shr (-8) 65 = some (-4) := by decide

end WholeProgram.BinaryOp
