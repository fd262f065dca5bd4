import WholeProgram.Text.Printable

/-!
# Quoted text

A text is written between double quotes: printable characters stand for themselves, a quote and a
backslash follow a backslash, seven control characters have a letter, and every other character is
written by its code point in hexadecimal digits. Bytes that are no UTF-8 text are written one by one.
-/

namespace WholeProgram.Text

/-- The lower-case hexadecimal digits of `n`, at least `width` of them. -/
def hex (width n : Nat) : String :=
  let digits := String.ofList (Nat.toDigits 16 n)
  "".pushn '0' (width - digits.length) ++ digits

/-- The written form of one character. -/
def escapeChar (c : Char) : String :=
  if c = '"' then "\\\""
  else if c = '\\' then "\\\\"
  else if isPrintable c then c.toString
  else if c = '\x07' then "\\a"
  else if c = '\x08' then "\\b"
  else if c = '\x0c' then "\\f"
  else if c = '\n' then "\\n"
  else if c = '\r' then "\\r"
  else if c = '\t' then "\\t"
  else if c = '\x0b' then "\\v"
  else if c.toNat < 0x80 then "\\x" ++ hex 2 c.toNat
  else if c.toNat < 0x10000 then "\\u" ++ hex 4 c.toNat
  else "\\U" ++ hex 8 c.toNat

/-- The written form of a text, without the quotes around it. -/
def escape (s : String) : String := s.foldl (fun acc c => acc ++ escapeChar c) ""

/-- The text between double quotes. -/
def quote (s : String) : String := "\"" ++ escape s ++ "\""

/-- One step of reading UTF-8: a character, or a byte that starts none. -/
inductive Piece where
  | char (c : Char)
  | byte (b : UInt8)

/-- The character that a lead byte of `lead` with its payload bits and `count` continuation bytes
encodes, if the bytes are well formed and the encoding is the shortest one. -/
def continued? (lead : Nat) (least : Nat) (rest : List UInt8) (count : Nat) : Option Char :=
  let tail := rest.take count
  if tail.length = count ∧ tail.all (fun b => 0x80 ≤ b.toNat ∧ b.toNat < 0xC0) = true then
    let n := tail.foldl (fun acc b => acc * 64 + (b.toNat - 0x80)) lead
    if h : n.isValidChar then
      if least ≤ n then some (Char.ofNatAux n h) else none
    else
      none
  else
    none

/-- The first piece of a byte string and the number of further bytes that it takes. -/
def firstPiece (b : UInt8) (rest : List UInt8) : Piece × Nat :=
  let n := b.toNat
  let attempt (lead least count : Nat) : Piece × Nat :=
    match continued? lead least rest count with
    | some c => (.char c, count)
    | none => (.byte b, 0)
  if n < 0x80 then (.char (Char.ofNat n), 0)
  else if n < 0xC0 then (.byte b, 0)
  else if n < 0xE0 then attempt (n - 0xC0) 0x80 1
  else if n < 0xF0 then attempt (n - 0xE0) 0x800 2
  else if n < 0xF8 then attempt (n - 0xF0) 0x10000 3
  else (.byte b, 0)

/-- The pieces of a byte string, read as UTF-8 as far as it goes. -/
def pieces (bytes : List UInt8) : List Piece :=
  go bytes.length bytes
where
  go : Nat → List UInt8 → List Piece
    | 0, _ => []
    | _, [] => []
    | fuel + 1, b :: rest =>
      let (piece, used) := firstPiece b rest
      piece :: go fuel (rest.drop used)

/-- The written form of one piece. -/
def escapePiece : Piece → String
  | .char c => escapeChar c
  | .byte b => "\\x" ++ hex 2 b.toNat

/-- The written form of a byte string. -/
def escapeBytes (bytes : List UInt8) : String := (pieces bytes).foldl (fun acc p => acc ++ escapePiece p) ""

end WholeProgram.Text
