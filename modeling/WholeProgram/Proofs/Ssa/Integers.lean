import Mathlib.Tactic.NormNum
import Mathlib.Tactic.Linarith
import Mathlib.Tactic.Positivity
import WholeProgram.Ssa.Program

/-!
# Integers of the source language

What the source language computes with integers and truth values. A value of an integer type is an integer
in the range of the type, a truth value is 0 or 1. Results are wrapped to the type, division truncates,
bitwise operators work on the bits of the type, and a division by zero stops the program.

* `Basic.Has` — the values of a type; `Basic.wrap` brings an integer into its range;
* `BinaryToken.result?`, `UnaryToken.result?`, `Basic.converted?` — what operators and conversions give;
* `Basic.Represents` — a value as a 64-bit integer: by its bits if it is an unsigned word, else by itself;
* `Basic.represents_iff` — in both cases it is the integer wrapped into 64 bits.
-/

namespace WholeProgram.Ssa

/-! ## Types and values -/

namespace Basic

/-- An integer type of some bytes, a word at most, or the type of truth values. -/
def Sized : Basic → Prop
  | boolean => True
  | integer _ size => 0 < size ∧ size ≤ 8
  | float _ | complex | other => False

/-- The number is a value of the type. -/
def Has : Basic → Int → Prop
  | boolean, n => n = 0 ∨ n = 1
  | integer true size, n => -2 ^ (8 * size - 1) ≤ n ∧ n < 2 ^ (8 * size - 1)
  | integer false size, n => 0 ≤ n ∧ n < 2 ^ (8 * size)
  | _, _ => False

/-- The number of bits of a value. -/
def width : Basic → Nat
  | integer _ size => 8 * size
  | _ => 1

/-- The lowest bits of a number. -/
def bits (b : Basic) (n : Int) : BitVec b.width := BitVec.ofInt b.width n

/-- An integer type with sign. -/
def isSigned (b : Basic) : Bool := b.isInteger && !b.isUnsigned

/-- The value that has these bits. -/
def ofBits (b : Basic) (v : BitVec b.width) : Int := if b.isSigned then v.toInt else v.toNat

/-- The value of the type with the lowest bits of the number. -/
def wrap (b : Basic) (n : Int) : Int := b.ofBits (b.bits n)

/-- The integer stands for the value: it has the bits of an unsigned word, and is any other value. -/
def Represents (b : Basic) (n : Int) (c : Int64) : Prop :=
  if b.isWide && b.isUnsigned then (c.toUInt64.toNat : Int) = n else c.toInt = n

end Basic

/-! ## Operators -/

/-- The number of a truth value. -/
def truth (b : Bool) : Int := if b then 1 else 0

/-- What comes of an operation. -/
inductive Outcome where
  | value (n : Int)
  /-- The program stops: a division by zero. -/
  | divisionByZero
  /-- The program stops: a shift by less than nothing. -/
  | negativeShift
deriving DecidableEq, Repr

namespace BinaryToken

def isShift : BinaryToken → Bool
  | shl | shr => true
  | _ => false

/-- The type of the result, for first operands of type `b`. -/
def resultType (op : BinaryToken) (b : Basic) : Basic :=
  match op with
  | eq | ne | lt | gt | le | ge => .boolean
  | _ => b

/-- What an operator makes of two integers of type `b`; the second operand of a shift is of any type. -/
def onIntegers? (op : BinaryToken) (b : Basic) (x y : Int) : Option Outcome :=
  match op with
  | add => some (.value (b.wrap (x + y)))
  | sub => some (.value (b.wrap (x - y)))
  | mul => some (.value (b.wrap (x * y)))
  | quo => some (if y = 0 then .divisionByZero else .value (b.wrap (x.tdiv y)))
  | rem => some (if y = 0 then .divisionByZero else .value (b.wrap (x.tmod y)))
  | and => some (.value (b.ofBits (b.bits x &&& b.bits y)))
  | or => some (.value (b.ofBits (b.bits x ||| b.bits y)))
  | xor => some (.value (b.ofBits (b.bits x ^^^ b.bits y)))
  | shl => some (if y < 0 then .negativeShift else .value (b.wrap (x * 2 ^ y.toNat)))
  | shr => some (if y < 0 then .negativeShift else .value (b.wrap (x / 2 ^ y.toNat)))
  | eq => some (.value (truth (x = y)))
  | ne => some (.value (truth (x ≠ y)))
  | lt => some (.value (truth (x < y)))
  | gt => some (.value (truth (y < x)))
  | le => some (.value (truth (x ≤ y)))
  | ge => some (.value (truth (y ≤ x)))
  | other => none

/-- What an operator makes of two values. Truth values are only compared. -/
def result? (op : BinaryToken) (b : Basic) (x y : Int) : Option Outcome :=
  match b, op with
  | .integer _ _, _ | .boolean, eq | .boolean, ne => op.onIntegers? b x y
  | _, _ => none

end BinaryToken

/-- What an operator makes of a value. -/
def UnaryToken.result? (op : UnaryToken) (b : Basic) (x : Int) : Option Int :=
  match b, op with
  | .integer _ _, neg => some (b.wrap (-x))
  | .integer _ _, complement => some (b.ofBits (~~~ b.bits x))
  | .boolean, not => some (1 - x)
  | _, _ => none

/-- The value in another type. -/
def Basic.converted? (source target : Basic) (x : Int) : Option Int :=
  match source, target with
  | integer _ _, integer _ _ => some (target.wrap x)
  | boolean, boolean => some x
  | _, _ => none

-- eight bits wrap around, and the remainder by -1 is zero where the quotient does not fit
example : BinaryToken.result? .quo (.integer true 1) (-128) (-1) = some (.value (-128)) := by decide

example : BinaryToken.result? .rem (.integer true 1) (-128) (-1) = some (.value 0) := by decide

example : UnaryToken.result? .complement (.integer false 1) 5 = some 250 := by decide

/-! ## Representation -/

namespace Basic

variable {b : Basic} {n m x : Int} {c d : Int64}

theorem Sized.width_pos (hb : b.Sized) : 0 < b.width := by
  cases b with
  | boolean => exact Nat.one_pos
  | integer => exact Nat.mul_pos (by decide) hb.1
  | _ => cases hb

theorem two_pow_le {i j : Nat} (h : i ≤ j) : (2 : Int) ^ i ≤ 2 ^ j := by
  exact_mod_cast Nat.pow_le_pow_right (by decide) h

/-- Values other than unsigned words fit into a signed word. -/
theorem Has.fits (hn : b.Has n) (hb : b.Sized) (hword : (b.isWide && b.isUnsigned) = false) :
    -2 ^ 63 ≤ n ∧ n < 2 ^ 63 := by
  cases b with
  | boolean => rcases hn with rfl | rfl <;> decide
  | integer signed size =>
    obtain ⟨hpos, hle⟩ : 0 < size ∧ size ≤ 8 := hb
    cases signed with
    | true =>
      obtain ⟨hlow, hhigh⟩ := hn
      have hpow : (2 : Int) ^ (8 * size - 1) ≤ 2 ^ 63 := two_pow_le (by omega)
      omega
    | false =>
      obtain ⟨hlow, hhigh⟩ := hn
      have hsize : size ≠ 8 := by simpa [isWide, isUnsigned] using hword
      have hpow : (2 : Int) ^ (8 * size) ≤ 2 ^ 63 := two_pow_le (by omega)
      omega
  | _ => cases hn

/-- An unsigned word. -/
theorem Has.word (hn : b.Has n) (hword : (b.isWide && b.isUnsigned) = true) : 0 ≤ n ∧ n < 2 ^ 64 := by
  cases b with
  | integer signed size =>
    obtain ⟨hsize, hsigned⟩ : size = 8 ∧ signed = false := by simpa [isWide, isUnsigned] using hword
    subst hsize hsigned
    exact hn
  | _ => cases hword

/-- A value is represented by the integer, wrapped into 64 bits. -/
theorem represents_iff (hb : b.Sized) (hn : b.Has n) : b.Represents n c ↔ c = Int64.ofInt n := by
  unfold Represents
  split
  · rename_i hword
    obtain ⟨hlow, hhigh⟩ := hn.word hword
    have hnat : ((Int64.ofInt n).toUInt64.toNat : Int) = n := by
      show ((BitVec.ofInt 64 n).toNat : Int) = n
      rw [BitVec.toNat_ofInt]
      omega
    constructor
    · intro h
      apply Int64.toBitVec_inj.mp
      apply BitVec.eq_of_toNat_eq
      exact_mod_cast h.trans hnat.symm
    · rintro rfl
      exact hnat
  · rename_i hword
    obtain ⟨hlow, hhigh⟩ := hn.fits hb (by simpa using hword)
    have hint := Int64.toInt_ofInt_of_le hlow hhigh
    constructor
    · intro h
      exact Int64.toInt_inj.mp (h.trans hint.symm)
    · rintro rfl
      exact hint

/-- Different values are represented differently. -/
theorem Has.ofInt_inj (hb : b.Sized) (hn : b.Has n) (hm : b.Has m) :
    Int64.ofInt n = Int64.ofInt m ↔ n = m := by
  refine ⟨fun h => ?_, fun h => h ▸ rfl⟩
  have hn' := (represents_iff hb hn).mpr rfl
  have hm' := (represents_iff hb hm).mpr h
  unfold Represents at hn' hm'
  split at hn'
  · exact hn'.symm.trans (by simpa [*] using hm')
  · exact hn'.symm.trans (by simpa [*] using hm')

theorem has_truth (t : Bool) : boolean.Has (truth t) := by
  cases t
  · exact Or.inl rfl
  · exact Or.inr rfl

/-- A type has the numbers between zero and its values. -/
theorem Has.of_between (hn : b.Has n) (hb : b.isInteger) (hpos : 0 ≤ n → 0 ≤ m ∧ m ≤ n)
    (hneg : n ≤ 0 → n ≤ m ∧ m ≤ 0) : b.Has m := by
  cases b with
  | integer signed size =>
    cases signed with
    | true =>
      obtain ⟨hlow, hhigh⟩ := hn
      refine ⟨?_, ?_⟩ <;> rcases Int.le_total 0 n with h | h <;> grind
    | false =>
      obtain ⟨hlow, hhigh⟩ := hn
      obtain ⟨hm, hmn⟩ := hpos hlow
      exact ⟨hm, lt_of_le_of_lt hmn hhigh⟩
  | _ => cases hb

theorem Has.tmod (hn : b.Has n) (hb : b.isInteger) (m : Int) : b.Has (n.tmod m) := by
  refine hn.of_between hb (fun h => ?_) fun h => ?_
  · refine ⟨Int.tmod_nonneg m h, ?_⟩
    have := Int.natAbs_tmod n m
    have := Nat.mod_le n.natAbs m.natAbs
    have := Int.tmod_nonneg m h
    omega
  · have hnonneg := Int.tmod_nonneg m (a := -n) (by omega)
    rw [Int.neg_tmod] at hnonneg
    have := Int.natAbs_tmod n m
    have := Nat.mod_le n.natAbs m.natAbs
    omega

theorem Has.div_two_pow (hn : b.Has n) (hb : b.isInteger) (k : Nat) : b.Has (n / 2 ^ k) := by
  have hpos : (0 : Int) < 2 ^ k := by positivity
  refine hn.of_between hb (fun h => ⟨Int.ediv_nonneg h hpos.le, Int.ediv_le_self _ h⟩) fun h => ⟨?_, ?_⟩
  · rw [Int.le_ediv_iff_mul_le hpos]
    nlinarith
  · exact Int.ediv_nonpos_of_nonpos_of_neg h hpos

/-! ### Bits -/

/-- The bits of a word that stand for the value with these bits. -/
def extend (b : Basic) (v : BitVec b.width) : BitVec 64 :=
  if b.isSigned then v.signExtend 64 else v.setWidth 64

theorem ofInt_ofBits (v : BitVec b.width) : Int64.ofInt (b.ofBits v) = .ofBitVec (b.extend v) := by
  apply Int64.toBitVec_inj.mp
  rw [Int64.toBitVec_ofInt, ofBits, extend]
  split
  · rfl
  · exact (BitVec.ofInt_natCast 64 _).trans (BitVec.ofNat_toNat 64 _)

theorem has_ofBits (hb : b.Sized) (v : BitVec b.width) : b.Has (b.ofBits v) := by
  cases b with
  | boolean =>
    have hlt : v.toNat < 2 ^ 1 := v.isLt
    show (v.toNat : Int) = 0 ∨ (v.toNat : Int) = 1
    omega
  | integer signed size =>
    cases signed with
    | true => exact ⟨v.le_toInt, BitVec.toInt_lt⟩
    | false =>
      have hlt : v.toNat < 2 ^ (8 * size) := v.isLt
      show 0 ≤ (v.toNat : Int) ∧ (v.toNat : Int) < 2 ^ (8 * size)
      exact ⟨Int.natCast_nonneg _, by exact_mod_cast hlt⟩
  | _ => cases hb

theorem has_wrap (hb : b.Sized) (n : Int) : b.Has (b.wrap n) := has_ofBits hb _

/-- Wrapping changes no value of the type. -/
theorem wrap_eq (hb : b.Sized) (hn : b.Has n) : b.wrap n = n := by
  cases b with
  | boolean => rcases hn with rfl | rfl <;> rfl
  | integer signed size =>
    cases signed with
    | true => exact BitVec.toInt_ofInt_eq_self hb.width_pos hn.1 hn.2
    | false =>
      obtain ⟨hlow, hhigh⟩ : 0 ≤ n ∧ n < 2 ^ (8 * size) := hn
      show ((BitVec.ofInt (8 * size) n).toNat : Int) = n
      rw [BitVec.toNat_ofInt, Int.emod_eq_of_lt hlow (by exact_mod_cast hhigh), Int.toNat_of_nonneg hlow]
  | _ => cases hb

theorem ofInt_eq_extend (hb : b.Sized) (hn : b.Has n) : Int64.ofInt n = .ofBitVec (b.extend (b.bits n)) := by
  rw [← ofInt_ofBits]
  exact congrArg Int64.ofInt (wrap_eq hb hn).symm

/-- Words are wrapped like their representations. -/
theorem ofInt_wrap (hb : b.isWide) (n : Int) : Int64.ofInt (b.wrap n) = Int64.ofInt n := by
  cases b with
  | integer signed size =>
    obtain rfl : size = 8 := by simpa [isWide] using hb
    rw [wrap, ofInt_ofBits]
    cases signed with
    | true => exact congrArg Int64.ofBitVec (BitVec.signExtend_eq _)
    | false => exact congrArg Int64.ofBitVec (BitVec.setWidth_eq _)
  | _ => cases hb

theorem extend_and (v u : BitVec b.width) : b.extend (v &&& u) = b.extend v &&& b.extend u := by
  unfold extend
  split
  · exact BitVec.signExtend_and
  · exact BitVec.setWidth_and

theorem extend_or (v u : BitVec b.width) : b.extend (v ||| u) = b.extend v ||| b.extend u := by
  unfold extend
  split
  · exact BitVec.signExtend_or
  · exact BitVec.setWidth_or

theorem extend_xor (v u : BitVec b.width) : b.extend (v ^^^ u) = b.extend v ^^^ b.extend u := by
  unfold extend
  split
  · exact BitVec.signExtend_xor
  · exact BitVec.setWidth_xor

/-- The complement of a signed integer, or of a word, is that of its representation. -/
theorem extend_not (hb : b.Sized) (h : b.isSigned ∨ b.isWide) (v : BitVec b.width) :
    b.extend (~~~ v) = ~~~ b.extend v := by
  unfold extend
  split
  · exact BitVec.signExtend_not hb.width_pos
  · rename_i hsigned
    cases b with
    | integer signed size =>
      obtain rfl : size = 8 := by simpa [hsigned, isWide] using h
      exact (BitVec.setWidth_eq _).trans (congrArg _ (BitVec.setWidth_eq _).symm)
    | _ => simp [isSigned, isInteger, isWide] at h

end Basic

end WholeProgram.Ssa
