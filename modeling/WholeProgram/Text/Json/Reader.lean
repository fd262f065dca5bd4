import WholeProgram.Text.Digits
import WholeProgram.Text.Json.Value

/-!
# Reading JSON

A recursive-descent reader over the characters of a text. Each function returns what it read and the
characters after it; the fuel of the nested values is the length of the text.
-/

namespace WholeProgram.Text.Json

def isSpace (c : Char) : Bool := c == ' ' || c == '\n' || c == '\t' || c == '\r'

def skipSpace (cs : List Char) : List Char := cs.dropWhile isSpace

/-- The number that four hexadecimal digits stand for. -/
def unit? (a b c d : Char) : Option Nat := Text.digits 16 [a, b, c, d]

/-- The character after a backslash that is not a numeric escape. -/
def escape? : Char → Option Char
  | '"' => some '"'
  | '\\' => some '\\'
  | '/' => some '/'
  | 'b' => some '\x08'
  | 'f' => some '\x0c'
  | 'n' => some '\n'
  | 'r' => some '\r'
  | 't' => some '\t'
  | _ => none

/-- A text under construction, and the first half of a character that is written as two units. -/
structure Partial where
  text : String := ""
  high : Option Nat := none

namespace Partial

/-- The text so far; a half without its other half stands for no character. -/
def done (p : Partial) : String := if p.high.isSome then p.text.push '\uFFFD' else p.text

def push (p : Partial) (c : Char) : Partial := { text := p.done.push c }

/-- Adds a unit of sixteen bits: a character, or one half of it. -/
def pushUnit (p : Partial) (u : Nat) : Partial :=
  match p.high with
  | some h =>
    if 0xDC00 ≤ u ∧ u < 0xE000 then
      { text := p.text.push (Char.ofNat (0x10000 + (h - 0xD800) * 0x400 + (u - 0xDC00))) }
    else if 0xD800 ≤ u ∧ u < 0xDC00 then { text := p.done, high := some u }
    else p.push (Char.ofNat u)
  | none =>
    if 0xD800 ≤ u ∧ u < 0xDC00 then { p with high := some u }
    else p.push (if 0xDC00 ≤ u ∧ u < 0xE000 then '\uFFFD' else Char.ofNat u)

end Partial

/-- The rest of a string after its opening quote. -/
def string (acc : Partial) : List Char → Option (String × List Char)
  | [] => none
  | '"' :: rest => some (acc.done, rest)
  | '\\' :: 'u' :: a :: b :: c :: d :: rest =>
    match unit? a b c d with
    | some u => string (acc.pushUnit u) rest
    | none => none
  | '\\' :: c :: rest =>
    match escape? c with
    | some c => string (acc.push c) rest
    | none => none
  | c :: rest => string (acc.push c) rest

def isDigit (c : Char) : Bool := '0' ≤ c && c ≤ '9'

/-- A run of digits as a number, with its length. -/
def digits (cs : List Char) : Nat × Nat × List Char :=
  let ds := cs.takeWhile isDigit
  (ds.foldl (fun n c => n * 10 + (c.toNat - 0x30)) 0, ds.length, cs.dropWhile isDigit)

/-- The exponent of a number. -/
def exponent? : List Char → Option (Int × List Char)
  | 'e' :: rest | 'E' :: rest =>
    let (negative, rest) := match rest with
      | '+' :: r => (false, r)
      | '-' :: r => (true, r)
      | r => (false, r)
    let (n, count, rest) := digits rest
    if count = 0 then none else some (if negative then -(n : Int) else n, rest)
  | cs => some (0, cs)

/-- A number. -/
def number? (cs : List Char) : Option (Json × List Char) := do
  let (negative, cs) := match cs with
    | '-' :: r => (true, r)
    | r => (false, r)
  let (whole, count, rest) := digits cs
  if count = 0 then none
  let (fraction, places, rest) ← match rest with
    | '.' :: r =>
      let (n, places, r) := digits r
      if places = 0 then none else some (n, places, r)
    | r => some (0, 0, r)
  let (e, rest) ← exponent? rest
  let magnitude : Nat := whole * Nat.pow 10 places + fraction
  return (.number (if negative then -(magnitude : Int) else magnitude) (e - places), rest)

mutual

/-- A value. -/
def value : Nat → List Char → Option (Json × List Char)
  | 0, _ => none
  | fuel + 1, cs =>
    match skipSpace cs with
    | 'n' :: 'u' :: 'l' :: 'l' :: rest => some (.null, rest)
    | 't' :: 'r' :: 'u' :: 'e' :: rest => some (.bool true, rest)
    | 'f' :: 'a' :: 'l' :: 's' :: 'e' :: rest => some (.bool false, rest)
    | '"' :: rest => (string {} rest).map fun r => (.str r.1, r.2)
    | '[' :: rest =>
      match skipSpace rest with
      | ']' :: rest => some (.arr [], rest)
      | rest => elements fuel rest #[]
    | '{' :: rest =>
      match skipSpace rest with
      | '}' :: rest => some (.obj [], rest)
      | rest => members fuel rest #[]
    | rest => number? rest

/-- The items of an array up to its closing bracket. -/
def elements : Nat → List Char → Array Json → Option (Json × List Char)
  | 0, _, _ => none
  | fuel + 1, cs, acc =>
    match value fuel cs with
    | none => none
    | some (j, rest) =>
      match skipSpace rest with
      | ',' :: rest => elements fuel rest (acc.push j)
      | ']' :: rest => some (.arr (acc.push j).toList, rest)
      | _ => none

/-- The members of an object up to its closing brace. -/
def members : Nat → List Char → Array (String × Json) → Option (Json × List Char)
  | 0, _, _ => none
  | fuel + 1, cs, acc =>
    match skipSpace cs with
    | '"' :: rest =>
      match string {} rest with
      | none => none
      | some (key, rest) =>
        match skipSpace rest with
        | ':' :: rest =>
          match value fuel rest with
          | none => none
          | some (j, rest) =>
            match skipSpace rest with
            | ',' :: rest => members fuel rest (acc.push (key, j))
            | '}' :: rest => some (.obj (acc.push (key, j)).toList, rest)
            | _ => none
        | _ => none
    | _ => none

end

/-- The value that a whole text stands for. -/
def read? (text : String) : Option Json :=
  let cs := text.toList
  match value (cs.length + 1) cs with
  | some (j, rest) => if (skipSpace rest).isEmpty then some j else none
  | none => none

end WholeProgram.Text.Json
