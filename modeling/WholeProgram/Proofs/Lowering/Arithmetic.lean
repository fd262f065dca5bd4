import WholeProgram.Lowering.Arithmetic
import WholeProgram.Proofs.Program.Arithmetic
import WholeProgram.Proofs.Ssa.Integers

/-!
# Expressed arithmetic is exact

An operation that becomes a computation on words has the result of the source language: on operands that
stand for values, the word that comes out stands for the result, and nothing does just where the program
stops.

* `Agrees` — a value of constant propagation is that of an outcome;
* `integerOp_agrees` — the operators, by cases on what each requires of its operands;
* `negate_agrees`, `complement_agrees`, `not_agrees`, `copy_agrees` — negation, complements and conversions.
-/

namespace WholeProgram.Lowering

open Ssa

/-- The value is that of the outcome, for results of type `b`. -/
def Agrees (b : Basic) (v : Value) : Outcome → Prop
  | .value n => ∃ c, v = .const c ∧ b.Represents n c
  | .divisionByZero => v = .nac
  | .negativeShift => False

variable {b b' : Basic} {x y n : Int} {c d : Int64} {v : Value}

/-- There is no constant exactly where the program stops for a division by zero. -/
theorem Agrees.and_nac_iff {r : Outcome} (h : Agrees b v r) : Agrees b v r ∧ (v = .nac ↔ r = .divisionByZero) := by
  refine ⟨h, ?_⟩
  cases r with
  | value n =>
    obtain ⟨c, rfl, -⟩ := h
    simp
  | divisionByZero => exact iff_of_true h rfl
  | negativeShift => exact h.elim

theorem agrees_value (hb : b.Sized) (hn : b.Has n) (hv : v = .const (Int64.ofInt n)) : Agrees b v (.value n) :=
  ⟨_, hv, (Basic.represents_iff hb hn).mpr rfl⟩

theorem agrees_bits (hb : b.Sized) {u : BitVec b.width} (hv : v = .const (.ofBitVec (b.extend u))) :
    Agrees b v (.value (b.ofBits u)) :=
  agrees_value hb (Basic.has_ofBits hb u) (by rw [hv, Basic.ofInt_ofBits])

/-- Words wrap around by themselves. -/
theorem agrees_word (hb : b.Sized) (hwide : b.isWide) (hv : v = .const (Int64.ofInt n)) :
    Agrees b v (.value (b.wrap n)) :=
  agrees_value hb (Basic.has_wrap hb n) (by rw [hv, Basic.ofInt_wrap hwide])

/-- Where the result cannot leave the type, nothing has to be wrapped. -/
theorem agrees_inside (hb : b.Sized) (hn : b.Has n) (hv : v = .const (Int64.ofInt n)) :
    Agrees b v (.value (b.wrap n)) := by
  rw [Basic.wrap_eq hb hn]
  exact agrees_value hb hn hv

theorem agrees_truth {t : Prop} [Decidable t] (hv : v = .const (BinaryOp.ofBool t)) :
    Agrees .boolean v (.value (truth t)) := by
  refine agrees_value trivial (Basic.has_truth _) (hv.trans ?_)
  cases decide t <;> rfl

/-- The places of a small count. -/
theorem places_ofInt (h : 0 ≤ y ∧ y < 64) : BinaryOp.places (Int64.ofInt y) = y.toNat := by
  unfold BinaryOp.places
  rw [Int64.toInt_ofInt_of_le (by omega) (by omega)]
  omega

theorem onIntegers?_of_result? {op : BinaryToken} {r : Outcome} (h : op.result? b x y = some r) :
    op.onIntegers? b x y = some r := by
  unfold BinaryToken.result? at h
  split at h
  · exact h
  · exact h
  · exact h
  · cases h

/-! ## Operators -/

/-- The word that stands for a value, other than an unsigned word, is the value. -/
theorem toInt_ofInt (hb : b.Sized) (hn : b.Has n) (hword : (b.isWide && b.isUnsigned) = false) :
    (Int64.ofInt n).toInt = n :=
  Int64.toInt_ofInt_of_le (hn.fits hb hword).1 (hn.fits hb hword).2

/-- The operators that work on the bits. -/
theorem bitwise_agrees (hb : b.Sized) (hx : b.Has x) (hy : b.Has y) :
    Agrees b (BinaryOp.and.compute (.ofInt x) (.ofInt y)) (.value (b.ofBits (b.bits x &&& b.bits y))) ∧
    Agrees b (BinaryOp.or.compute (.ofInt x) (.ofInt y)) (.value (b.ofBits (b.bits x ||| b.bits y))) ∧
    Agrees b (BinaryOp.xor.compute (.ofInt x) (.ofInt y)) (.value (b.ofBits (b.bits x ^^^ b.bits y))) := by
  rw [Basic.ofInt_eq_extend hb hx, Basic.ofInt_eq_extend hb hy]
  refine ⟨agrees_bits hb ?_, agrees_bits hb ?_, agrees_bits hb ?_⟩
  · rw [Basic.extend_and]
    rfl
  · rw [Basic.extend_or]
    rfl
  · rw [Basic.extend_xor]
    rfl

/-- The quotient, wherever it is wrapped. -/
theorem quo_agrees (hb : b.Sized) (hwide : b.isWide) (hword : (b.isWide && b.isUnsigned) = false) (hx : b.Has x)
    (hy : b.Has y) :
    Agrees b (BinaryOp.div.compute (.ofInt x) (.ofInt y))
      (if y = 0 then .divisionByZero else .value (b.wrap (x.tdiv y))) := by
  rw [BinaryOp.compute_eq, BinaryOp.onInts?, toInt_ofInt hb hx hword, toInt_ofInt hb hy hword]
  by_cases hzero : y = 0
  · simp only [hzero, if_true]
    rfl
  · simp only [hzero, if_false]
    exact agrees_word hb hwide rfl

/-- The remainder is never wrapped. -/
theorem rem_agrees (hb : b.Sized) (hint : b.isInteger) (hword : (b.isWide && b.isUnsigned) = false) (hx : b.Has x)
    (hy : b.Has y) :
    Agrees b (BinaryOp.rem.compute (.ofInt x) (.ofInt y))
      (if y = 0 then .divisionByZero else .value (b.wrap (x.tmod y))) := by
  rw [BinaryOp.compute_eq, BinaryOp.onInts?, toInt_ofInt hb hx hword, toInt_ofInt hb hy hword]
  by_cases hzero : y = 0
  · simp only [hzero, if_true]
    rfl
  · simp only [hzero, if_false]
    exact agrees_inside hb (hx.tmod hint y) rfl

/-- Values are compared by their representations. -/
theorem compare_agrees (hb : b.Sized) (hx : b.Has x) (hy : b.Has y) :
    Agrees .boolean (BinaryOp.eq.compute (.ofInt x) (.ofInt y)) (.value (truth (x = y))) ∧
    Agrees .boolean (BinaryOp.ne.compute (.ofInt x) (.ofInt y)) (.value (truth (x ≠ y))) := by
  have heq : (Int64.ofInt x).toInt = (Int64.ofInt y).toInt ↔ x = y := Int64.toInt_inj.trans (hx.ofInt_inj hb hy)
  refine ⟨agrees_truth ?_, agrees_truth ?_⟩
  · simp only [BinaryOp.compute_eq, BinaryOp.onInts?, heq]
  · simp only [BinaryOp.compute_eq, BinaryOp.onInts?, ne_eq, heq]

/-- The numbers are ordered like the words. -/
theorem order_agrees (hb : b.Sized) (hword : (b.isWide && b.isUnsigned) = false) (hx : b.Has x) (hy : b.Has y) :
    Agrees .boolean (BinaryOp.lt.compute (.ofInt x) (.ofInt y)) (.value (truth (x < y))) ∧
    Agrees .boolean (BinaryOp.gt.compute (.ofInt x) (.ofInt y)) (.value (truth (y < x))) ∧
    Agrees .boolean (BinaryOp.le.compute (.ofInt x) (.ofInt y)) (.value (truth (x ≤ y))) ∧
    Agrees .boolean (BinaryOp.ge.compute (.ofInt x) (.ofInt y)) (.value (truth (y ≤ x))) := by
  simp only [BinaryOp.compute_eq, BinaryOp.onInts?, toInt_ofInt hb hx hword, toInt_ofInt hb hy hword]
  exact ⟨agrees_truth rfl, agrees_truth rfl, agrees_truth rfl, agrees_truth rfl⟩

/-- Words lose what is shifted out. -/
theorem shl_agrees (hb : b.Sized) (hwide : b.isWide) (hsmall : 0 ≤ y ∧ y < 64) :
    Agrees b (BinaryOp.shl.compute (.ofInt x) (.ofInt y)) (.value (b.wrap (x * 2 ^ y.toNat))) := by
  refine agrees_word hb hwide ?_
  rw [BinaryOp.compute_eq, BinaryOp.onInts?, places_ofInt hsmall, Int64.ofInt_mul, Int64.ofInt_toInt,
    ← Int64.ofInt_mul]

/-- The sign is shifted in. -/
theorem shr_agrees (hb : b.Sized) (hint : b.isInteger) (hword : (b.isWide && b.isUnsigned) = false) (hx : b.Has x)
    (hsmall : 0 ≤ y ∧ y < 64) :
    Agrees b (BinaryOp.shr.compute (.ofInt x) (.ofInt y)) (.value (b.wrap (x / 2 ^ y.toNat))) := by
  refine agrees_inside hb (hx.div_two_pow hint _) ?_
  rw [BinaryOp.compute_eq, BinaryOp.onInts?, places_ofInt hsmall, toInt_ofInt hb hx hword]

/-- Zeros are shifted into an unsigned word. -/
theorem ushr_agrees (hb : b.Sized) (hword : (b.isWide && b.isUnsigned) = true) (hx : b.Has x)
    (hsmall : 0 ≤ y ∧ y < 64) :
    Agrees b (BinaryOp.ushr.compute (.ofInt x) (.ofInt y)) (.value (b.wrap (x / 2 ^ y.toNat))) := by
  have hint : b.isInteger := by cases b <;> simp_all [Basic.isWide, Basic.isInteger]
  obtain ⟨hlow, hhigh⟩ := hx.word hword
  have hbits : (Int64.ofInt x).toInt % 2 ^ 64 = x := by
    rw [Int64.toInt_ofInt]
    exact Int.bmod_emod.trans (Int.emod_eq_of_lt hlow hhigh)
  refine agrees_inside hb (hx.div_two_pow hint _) ?_
  rw [BinaryOp.compute_eq, BinaryOp.onInts?, places_ofInt hsmall, hbits]

/-- What the operators require of their operands: `word` says that these are unsigned words. -/
inductive Expresses (b : Basic) (small : Bool) : BinaryToken → BinaryOp → Prop
  | and : Expresses b small .and .and
  | or : Expresses b small .or .or
  | xor : Expresses b small .xor .xor
  | eq : Expresses b small .eq .eq
  | ne : Expresses b small .ne .ne
  | lt (word : (b.isWide && b.isUnsigned) = false) : Expresses b small .lt .lt
  | gt (word : (b.isWide && b.isUnsigned) = false) : Expresses b small .gt .gt
  | le (word : (b.isWide && b.isUnsigned) = false) : Expresses b small .le .le
  | ge (word : (b.isWide && b.isUnsigned) = false) : Expresses b small .ge .ge
  | add (wide : b.isWide) : Expresses b small .add .add
  | sub (wide : b.isWide) : Expresses b small .sub .sub
  | mul (wide : b.isWide) : Expresses b small .mul .mul
  | quo (wide : b.isWide) (word : (b.isWide && b.isUnsigned) = false) : Expresses b small .quo .div
  | rem (integer : b.isInteger) (word : (b.isWide && b.isUnsigned) = false) : Expresses b small .rem .rem
  | shl (wide : b.isWide) (count : small) : Expresses b small .shl .shl
  | shr (integer : b.isInteger) (word : (b.isWide && b.isUnsigned) = false) (count : small) :
      Expresses b small .shr .shr
  | ushr (word : (b.isWide && b.isUnsigned) = true) (count : small) : Expresses b small .shr .ushr

theorem expresses_of_integerOp {op : BinaryToken} {o : BinaryOp} {small : Bool}
    (h : integerOp b op small = some o) : Expresses b small op o := by
  simp only [integerOp, Option.ite_none_left_eq_some] at h
  obtain ⟨-, h⟩ := h
  cases op with
  | and | or | xor | eq | ne =>
    obtain rfl := Option.some.inj h
    constructor
  | lt | gt | le | ge =>
    obtain ⟨hword, heq⟩ := Option.ite_none_right_eq_some.mp h
    obtain rfl := Option.some.inj heq
    constructor
    exact Bool.not_eq_true' _ ▸ hword
  | add | sub | mul =>
    obtain ⟨hwide, heq⟩ := Option.ite_none_right_eq_some.mp h
    obtain rfl := Option.some.inj heq
    constructor
    exact hwide
  | quo =>
    obtain ⟨hcond, heq⟩ := Option.ite_none_right_eq_some.mp h
    obtain ⟨hwide, hword⟩ := Bool.and_eq_true_iff.mp hcond
    exact Option.some.inj heq ▸ .quo hwide (Bool.not_eq_true' _ ▸ hword)
  | rem =>
    obtain ⟨hcond, heq⟩ := Option.ite_none_right_eq_some.mp h
    obtain ⟨hint, hword⟩ := Bool.and_eq_true_iff.mp hcond
    exact Option.some.inj heq ▸ .rem hint (Bool.not_eq_true' _ ▸ hword)
  | shl =>
    obtain ⟨hcond, heq⟩ := Option.ite_none_right_eq_some.mp h
    obtain ⟨hwide, hcount⟩ := Bool.and_eq_true_iff.mp hcond
    exact Option.some.inj heq ▸ .shl hwide hcount
  | shr =>
    by_cases hword : (b.isWide && b.isUnsigned) = true
    · obtain ⟨hcount, heq⟩ := Option.ite_none_right_eq_some.mp ((if_pos hword).symm.trans h)
      exact Option.some.inj heq ▸ .ushr hword hcount
    · obtain ⟨hcond, heq⟩ := Option.ite_none_right_eq_some.mp ((if_neg hword).symm.trans h)
      obtain ⟨hint, hcount⟩ := Bool.and_eq_true_iff.mp hcond
      exact Option.some.inj heq ▸ .shr hint (Bool.eq_false_iff.mpr hword) hcount
  | other => cases h

/-- An operator that is expressed computes the result. -/
theorem integerOp_agrees {op : BinaryToken} {o : BinaryOp} {small : Bool} {r : Outcome}
    (hop : integerOp b op small = some o) (hb : b.Sized) (hb' : b'.Sized) (hsame : op.isShift = false → b' = b)
    (hsmall : small = true → 0 ≤ y ∧ y < 64) (hx : b.Has x) (hy : b'.Has y) (hc : b.Represents x c)
    (hd : b'.Represents y d) (hr : op.result? b x y = some r) : Agrees (op.resultType b) (o.compute c d) r := by
  obtain rfl := (Basic.represents_iff hb hx).mp hc
  obtain rfl := (Basic.represents_iff hb' hy).mp hd
  have hr := onIntegers?_of_result? hr
  have hy : op.isShift = false → b.Has y := fun h => hsame h ▸ hy
  -- a small count is no negative one
  have hcount : ∀ {n : Int}, small = true → (if y < 0 then Outcome.negativeShift else .value n) = .value n :=
    fun h => if_neg (Int.not_lt.mpr (hsmall h).1)
  cases expresses_of_integerOp hop <;> cases hr
  case and => exact (bitwise_agrees hb hx (hy rfl)).1
  case or => exact (bitwise_agrees hb hx (hy rfl)).2.1
  case xor => exact (bitwise_agrees hb hx (hy rfl)).2.2
  case eq => exact (compare_agrees hb hx (hy rfl)).1
  case ne => exact (compare_agrees hb hx (hy rfl)).2
  case lt hword => exact (order_agrees hb hword hx (hy rfl)).1
  case gt hword => exact (order_agrees hb hword hx (hy rfl)).2.1
  case le hword => exact (order_agrees hb hword hx (hy rfl)).2.2.1
  case ge hword => exact (order_agrees hb hword hx (hy rfl)).2.2.2
  case add hwide => exact agrees_word hb hwide (congrArg Value.const (Int64.ofInt_add x y).symm)
  case sub hwide => exact agrees_word hb hwide (congrArg Value.const (Int64.ofInt_sub x y).symm)
  case mul hwide => exact agrees_word hb hwide (congrArg Value.const (Int64.ofInt_mul x y).symm)
  case quo hwide hword => exact quo_agrees hb hwide hword hx (hy rfl)
  case rem hint hword => exact rem_agrees hb hint hword hx (hy rfl)
  case shl hwide h =>
    rw [hcount h]
    exact shl_agrees hb hwide (hsmall h)
  case shr hint hword h =>
    rw [hcount h]
    exact shr_agrees hb hint hword hx (hsmall h)
  case ushr hword h =>
    rw [hcount h]
    exact ushr_agrees hb hword hx (hsmall h)

-- eight bits divide as words do, but only the remainder always fits
example : integerOp (.integer true 1) .quo false = none ∧ integerOp (.integer true 1) .rem false = some .rem := by
  decide

/-! ## Negation, complements and conversions -/

/-- Subtracting a word from zero negates it. -/
theorem negate_agrees {r : Int} (hneg : canNegate (some b)) (hb : b.Sized) (hx : b.Has x)
    (hc : b.Represents x c) (hr : UnaryToken.neg.result? b x = some r) :
    Agrees b (BinaryOp.sub.compute 0 c) (.value r) := by
  obtain rfl := (Basic.represents_iff hb hx).mp hc
  cases b with
  | integer =>
    obtain rfl := Option.some.inj hr
    refine agrees_word hb hneg (congrArg Value.const ?_)
    rw [Int64.ofInt_neg]
    exact Int64.zero_sub _
  | _ => cases hr

/-- All bits that stand for a complement are flipped. -/
theorem complement_agrees {r : Int} (hcan : canComplement (some b)) (hb : b.Sized) (hx : b.Has x)
    (hc : b.Represents x c) (hr : UnaryToken.complement.result? b x = some r) :
    Agrees b (BinaryOp.xor.compute c (-1)) (.value r) := by
  obtain rfl := (Basic.represents_iff hb hx).mp hc
  have hr : some (b.ofBits (~~~ b.bits x)) = some r := by
    cases b with
    | integer => exact hr
    | _ => cases hr
  obtain rfl := Option.some.inj hr
  refine agrees_bits hb (congrArg Value.const ?_)
  have hflip : b.isSigned ∨ b.isWide := by
    obtain ⟨hint, hsigned⟩ := Bool.and_eq_true_iff.mp hcan
    exact (Bool.or_eq_true_iff.mp hsigned).imp_left fun h => Bool.and_eq_true_iff.mpr ⟨hint, h⟩
  rw [Basic.ofInt_eq_extend hb hx, Basic.extend_not hb hflip]
  exact congrArg Int64.ofBitVec BitVec.xor_allOnes

/-- Truth values are flipped. -/
theorem not_agrees {r : Int} (hx : b.Has x) (hc : b.Represents x c)
    (hr : UnaryToken.not.result? b x = some r) :
    Agrees b (BinaryOp.xor.compute c 1) (.value r) := by
  cases b with
  | boolean =>
    have hb : Basic.boolean.Sized := trivial
    obtain rfl := Option.some.inj hr
    obtain rfl := (Basic.represents_iff hb hx).mp hc
    rcases hx with rfl | rfl
    · exact agrees_value hb (Or.inr rfl) rfl
    · exact agrees_value hb (Or.inl rfl) rfl
  | _ => cases hr

/-- A type that is larger, and has a sign if the other does, has its values. -/
theorem has_of_larger {signed signed' : Bool} {size size' : Nat} (hsize : size < size')
    (hsigned : signed' || !signed) (hx : (Basic.integer signed size).Has x) :
    (Basic.integer signed' size').Has x := by
  cases signed with
  | true =>
    obtain rfl : signed' = true := by simpa using hsigned
    obtain ⟨hlow, hhigh⟩ := hx
    have hpow : (2 : Int) ^ (8 * size - 1) ≤ 2 ^ (8 * size' - 1) := Basic.two_pow_le (by omega)
    exact ⟨by omega, by omega⟩
  | false =>
    obtain ⟨hlow, hhigh⟩ := hx
    cases signed' with
    | true =>
      have hpow : (2 : Int) ^ (8 * size) ≤ 2 ^ (8 * size' - 1) := Basic.two_pow_le (by omega)
      exact ⟨by omega, by omega⟩
    | false =>
      have hpow : (2 : Int) ^ (8 * size) ≤ 2 ^ (8 * size') := Basic.two_pow_le (by omega)
      exact ⟨hlow, by omega⟩

/-- A value that is copied is the converted one. -/
theorem copy_agrees {r : Int} (hcopy : isCopy (some b) (some b')) (hb : b.Sized) (hb' : b'.Sized) (hx : b.Has x)
    (hc : b.Represents x c) (hr : b.converted? b' x = some r) : Agrees b' (.const c) (.value r) := by
  obtain rfl := (Basic.represents_iff hb hx).mp hc
  unfold Basic.converted? at hr
  split at hr
  · rename_i signed size signed' size'
    obtain rfl := Option.some.inj hr
    rcases Bool.or_eq_true_iff.mp hcopy with hwide | hlarger
    · exact agrees_word hb' hwide rfl
    · obtain ⟨hsize, hsigned⟩ := Bool.and_eq_true_iff.mp hlarger
      exact agrees_inside hb' (has_of_larger (of_decide_eq_true hsize) hsigned hx) rfl
  · obtain rfl := Option.some.inj hr
    exact agrees_value trivial hx rfl
  · cases hr

end WholeProgram.Lowering
