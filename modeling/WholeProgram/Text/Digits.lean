/-!
# Numbers as text

Numbers written in a base between two and thirty-six: the letters are digits from ten on, in either case.
Integers that come as text have to fit into a word of 64 bits.
-/

/-! ## Bounds of words -/

namespace WholeProgram.Word

/-- The least signed word. -/
def minSigned : Int := -9223372036854775808

/-- The greatest signed word. -/
def maxSigned : Int := 9223372036854775807

/-- The greatest unsigned word. -/
def maxUnsigned : Nat := 18446744073709551615

end WholeProgram.Word

/-! ## Digits -/

namespace WholeProgram.Text

/-- The value of a digit in a base. -/
def digit? (base : Nat) (c : Char) : Option Nat :=
  let d :=
    if '0' ≤ c ∧ c ≤ '9' then c.toNat - 0x30
    else if 'a' ≤ c ∧ c ≤ 'z' then c.toNat - 0x61 + 10
    else if 'A' ≤ c ∧ c ≤ 'Z' then c.toNat - 0x41 + 10
    else base
  if d < base then some d else none

/-- The number that digits stand for; every character must be one. No digits stand for zero. -/
def digits (base : Nat) (cs : List Char) : Option Nat :=
  cs.foldl (fun acc c => acc.bind fun n => (digit? base c).map (n * base + ·)) (some 0)

/-- The number that some digits stand for. -/
def digits? (base : Nat) (cs : List Char) : Option Nat := if cs.isEmpty then none else digits base cs

/-- The number that decimal digits stand for, with or without a sign before them. -/
def integer? (text : String) : Option Int :=
  match text.toList with
  | '-' :: cs => (digits? 10 cs).map fun n => -(n : Int)
  | '+' :: cs => (digits? 10 cs).map fun n => (n : Int)
  | cs => (digits? 10 cs).map fun n => (n : Int)

/-- The bytes that pairs of hexadecimal digits stand for; a digit without its pair stands for none. -/
def hexBytes : List Char → List UInt8
  | a :: b :: rest => UInt8.ofNat ((digits 16 [a, b]).getD 0) :: hexBytes rest
  | _ => []

end WholeProgram.Text
