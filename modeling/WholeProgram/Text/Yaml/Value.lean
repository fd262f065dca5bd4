import WholeProgram.Text.Digits
import WholeProgram.Text.ByteText

/-!
# What scalars stand for

A plain scalar may stand for nothing, a truth value, a number or a time; any other scalar is text. A tag
says which of these a scalar has to be.
-/

namespace WholeProgram.Text.Yaml

/-- How a time says which clock it is read from. -/
inductive Zone where
  /-- Universal time, by its letter or by saying nothing. -/
  | universal
  /-- No distance to universal time, in digits. -/
  | zero
  /-- A distance of whole hours that is in use somewhere. -/
  | hours (n : Int)
  /-- Any other distance. -/
  | odd
deriving DecidableEq, Repr

/-- A point in time. -/
structure Moment where
  /-- The seconds since the first day of the year zero, in universal time. -/
  seconds : Int
  nanoseconds : Nat
  zone : Zone
deriving Repr

/-- Equal times are the same point on the same clock; an odd clock is the same as no other. -/
def Moment.same (a b : Moment) : Bool :=
  a.seconds == b.seconds && a.nanoseconds == b.nanoseconds && a.zone == b.zone && a.zone != .odd

/-- The value of a scalar. -/
inductive Value where
  | null
  | bool (b : Bool)
  /-- An integer of 64 bits, with or without a sign. -/
  | int (n : Int)
  | float (x : Float)
  /-- A date, perhaps with a time of day. -/
  | time (t : Moment)
  | text (s : ByteText)
deriving Inhabited

namespace Value

/-- Equal values; no number is equal to one that is undefined. -/
def same : Value → Value → Bool
  | null, null => true
  | bool a, bool b => a == b
  | int a, int b => a == b
  | float a, float b => a == b
  | time a, time b => a.same b
  | text a, text b => a == b
  | _, _ => false

/-- The short form of the tag of a value. -/
def tag : Value → String
  | null => "!!null"
  | bool _ => "!!bool"
  | int _ => "!!int"
  | float _ => "!!float"
  | time _ => "!!timestamp"
  | text _ => "!!str"

end Value

/-! ## Integers -/

/-- An unsigned integer; the first characters tell the base. -/
def natural? : List Char → Option Nat
  | ['0'] => some 0
  | '0' :: x :: cs =>
    if !cs.isEmpty && (x == 'x' || x == 'X') then digits 16 cs
    else if !cs.isEmpty && (x == 'o' || x == 'O') then digits 8 cs
    else if !cs.isEmpty && (x == 'b' || x == 'B') then digits 2 cs
    else digits 8 (x :: cs)
  | cs => digits? 10 cs

/-- An integer with a sign, within 64 bits. -/
def signed? (read : List Char → Option Nat) (cs : List Char) : Option Int :=
  let (negative, body) := match cs with
    | '-' :: rest => (true, rest)
    | '+' :: rest => (false, rest)
    | _ => (false, cs)
  (read body).bind fun n =>
    let v : Int := if negative then -(n : Int) else n
    if Word.minSigned ≤ v ∧ v ≤ Word.maxSigned then some v else none

/-- An integer without a sign, within 64 bits. -/
def unsigned? (read : List Char → Option Nat) (cs : List Char) : Option Int :=
  (read cs).bind fun n => if (n : Int) ≤ Word.maxUnsigned then some n else none

/-- An integer of 64 bits, with or without a sign. -/
def integer? (read : List Char → Option Nat) (cs : List Char) : Option Int :=
  (signed? read cs).or (unsigned? read cs)

/-- An integer after a sign that tells the base and before whose digits another sign may stand. -/
def basedInteger? : List Char → Option Int
  | '0' :: 'b' :: cs => integer? (digits? 2) cs
  | '0' :: 'o' :: cs => integer? (digits? 8) cs
  | '-' :: '0' :: 'b' :: cs => signed? (digits? 2) ('-' :: cs)
  | '-' :: '0' :: 'o' :: cs => signed? (digits? 8) ('-' :: cs)
  | _ => none

/-! ## Decimal numbers -/

/-- No decimal number with this many places before or after its point is finite and not zero. -/
def maxPlaces : Int := 400

/-- The number `mantissa · 10 ^ exponent`; `none` when it is not finite. -/
def scaled? (negative : Bool) (mantissa : Nat) (exponent : Int) : Option Float :=
  let places := exponent + (Nat.toDigits 10 mantissa).length
  if mantissa == 0 || places < -maxPlaces then some (if negative then -0.0 else 0.0)
  else if maxPlaces < places then none
  else
    let x := Float.ofScientific mantissa (exponent < 0) exponent.natAbs
    if x.isFinite then some (if negative then -x else x) else none

/-- A decimal number: a sign, digits with perhaps a point among them, and perhaps an exponent. -/
def decimal? (cs : List Char) : Option Float :=
  let (negative, body) := match cs with
    | '-' :: rest => (true, rest)
    | '+' :: rest => (false, rest)
    | _ => (false, cs)
  let whole := body.takeWhile Char.isDigit
  let rest := body.dropWhile Char.isDigit
  let (fraction, rest) := match rest with
    | '.' :: more => (more.takeWhile Char.isDigit, more.dropWhile Char.isDigit)
    | _ => ([], rest)
  let exponent : Option Int := match rest with
    | [] => some 0
    | x :: more =>
      if x == 'e' || x == 'E' then
        match more with
        | '-' :: ds => (digits? 10 ds).map fun n => -(n : Int)
        | '+' :: ds => (digits? 10 ds).map Int.ofNat
        | ds => (digits? 10 ds).map Int.ofNat
      else none
  exponent.bind fun e =>
  (digits? 10 (whole ++ fraction)).bind fun m => scaled? negative m (e - fraction.length)

/-- Every underscore stands between two digits. -/
def underscoresBetweenDigits : Char → List Char → Bool
  | before, '_' :: rest =>
    before.isDigit && ((rest.head?.map Char.isDigit).getD false) && underscoresBetweenDigits '_' rest
  | _, c :: rest => underscoresBetweenDigits c rest
  | _, [] => true

/-! ## Times -/

/-- One or two digits, and what follows them. -/
def shortNumber? (cs : List Char) : Option (Nat × List Char) :=
  let n := if ((cs.drop 1).head?.map Char.isDigit).getD false then 2 else 1
  (digits? 10 (cs.take n)).map fun v => (v, cs.drop n)

/-- Goes over a character. -/
def expect? (x : Char) : List Char → Option (List Char)
  | c :: rest => if c == x then some rest else none
  | [] => none

def isLeapYear (y : Nat) : Bool := y % 4 == 0 && (y % 100 != 0 || y % 400 == 0)

def daysIn (month year : Nat) : Nat :=
  if month == 2 then (if isLeapYear year then 29 else 28)
  else if month == 4 || month == 6 || month == 9 || month == 11 then 30
  else 31

/-- The days of the years before a year. -/
def daysBeforeYear (year : Nat) : Nat :=
  if year == 0 then 0 else 365 * year + (year - 1) / 4 - (year - 1) / 100 + (year - 1) / 400 + 1

/-- The days of a year before a month. -/
def daysBeforeMonth (month year : Nat) : Nat :=
  (List.range (month - 1)).foldl (fun days m => days + daysIn (m + 1) year) 0

/-- A date, a year of four digits, a month and a day: the days before it, and what follows. -/
def date? (cs : List Char) : Option (Nat × List Char) := do
  let year ← digits? 10 (cs.take 4)
  let (month, cs) ← (expect? '-' (cs.drop 4)).bind shortNumber?
  let (day, cs) ← (expect? '-' cs).bind shortNumber?
  if 1 ≤ month && month ≤ 12 && 1 ≤ day && day ≤ daysIn month year then
    some (daysBeforeYear year + daysBeforeMonth month year + day - 1, cs)
  else none

/-- A time of day: its seconds, and what follows. -/
def clock? (cs : List Char) : Option (Nat × List Char) := do
  let (hour, cs) ← shortNumber? cs
  let (minute, cs) ← (expect? ':' cs).bind shortNumber?
  let (second, cs) ← (expect? ':' cs).bind shortNumber?
  if 24 ≤ hour || 60 ≤ minute || 60 ≤ second then none
  else some ((hour * 60 + minute) * 60 + second, cs)

/-- A fraction of a second, if there is one: its nanoseconds, and what follows. Digits beyond the ninth do
not count. -/
def fraction (cs : List Char) : Nat × List Char :=
  match cs with
  | x :: more =>
    if (x == '.' || x == ',') && ((more.head?.map Char.isDigit).getD false) then
      let places := (more.takeWhile Char.isDigit).take 9
      let padded := places ++ List.replicate (9 - places.length) '0'
      ((digits? 10 padded).getD 0, more.dropWhile Char.isDigit)
    else (0, cs)
  | [] => (0, [])

/-- The zone at a distance of seconds. -/
def Zone.ofOffset (offset : Int) : Zone :=
  let hour := offset.tdiv 3600
  if offset == 0 then .zero
  else if -12 ≤ hour && hour ≤ 14 && hour * 3600 == offset then .hours hour
  else .odd

/-- A distance to universal time in seconds, and its zone. -/
def zone? : List Char → Option (Int × Zone)
  | ['Z'] => some (0, .universal)
  | [sign, h1, h2, ':', m1, m2] => do
    let hours ← digits? 10 [h1, h2]
    let minutes ← digits? 10 [m1, m2]
    if (sign == '+' || sign == '-') && hours ≤ 24 && minutes ≤ 60 then
      let distance : Int := (hours * 60 + minutes) * 60
      let offset := if sign == '-' then -distance else distance
      some (offset, .ofOffset offset)
    else none
  | _ => none

/-- A date, or a date with a time of day: after a letter with a zone, after blanks without. -/
def moment? (text : String) : Option Moment :=
  let cs := text.toList
  if (cs.takeWhile Char.isDigit).length != 4 then none
  else do
    let (days, rest) ← date? cs
    let start : Int := days * 86400
    match rest with
    | [] => some { seconds := start, nanoseconds := 0, zone := .universal }
    | x :: rest =>
      if x == 'T' || x == 't' then
        let (seconds, rest) ← clock? rest
        let (nanoseconds, rest) := fraction rest
        let (offset, zone) ← zone? rest
        some { seconds := start + seconds - offset, nanoseconds, zone }
      else if x == ' ' then
        let (seconds, rest) ← clock? (rest.dropWhile (· == ' '))
        let (nanoseconds, rest) := fraction rest
        if rest.isEmpty then some { seconds := start + seconds, nanoseconds, zone := .universal } else none
      else none

/-! ## Resolution -/

def nulls : List String := ["", "~", "null", "Null", "NULL"]

/-- The scalars that stand for one value each. -/
def constant? (text : String) : Option Value :=
  if nulls.contains text then some .null
  else if ["true", "True", "TRUE"].contains text then some (.bool true)
  else if ["false", "False", "FALSE"].contains text then some (.bool false)
  else if [".nan", ".NaN", ".NAN"].contains text then some (.float (0.0 / 0.0))
  else if [".inf", ".Inf", ".INF", "+.inf", "+.Inf", "+.INF"].contains text then some (.float (1.0 / 0.0))
  else if ["-.inf", "-.Inf", "-.INF"].contains text then some (.float (-1.0 / 0.0))
  else none

/-- The number that a text stands for. Underscores do not count. -/
def number? (text : String) : Option Value :=
  let cs := text.toList.filter (· != '_')
  match integer? natural? cs with
  | some n => some (.int n)
  | none =>
    match decimal? cs with
    | some x => some (.float x)
    | none => (basedInteger? cs).map .int

/-- What the text of a plain scalar stands for; whether it may be a time has to be said. -/
def guess (times : Bool) (text : String) : Value :=
  match constant? text with
  | some v => v
  | none =>
    match text.toList with
    | [] => .null
    | c :: rest =>
      if c == '.' then
        if underscoresBetweenDigits c rest then
          ((decimal? ((c :: rest).filter (· != '_'))).map .float).getD (.text text)
        else .text text
      else if c.isDigit || c == '+' || c == '-' then
        match (if times then moment? text else none) with
        | some t => .time t
        | none => (number? text).getD (.text text)
      else .text text

/-- The tag under which tags of the standard are known. -/
def standardTag : String := "tag:yaml.org,2002:"

/-- The short form of a tag. -/
def shortTag (tag : String) : String :=
  if tag.startsWith standardTag then "!!" ++ (tag.drop standardTag.length).toString else tag

/-- The value of a digit of a text of bytes. -/
def sextet? (c : Char) : Option Nat :=
  if 'A' ≤ c ∧ c ≤ 'Z' then some (c.toNat - 0x41)
  else if 'a' ≤ c ∧ c ≤ 'z' then some (c.toNat - 0x61 + 26)
  else if '0' ≤ c ∧ c ≤ '9' then some (c.toNat - 0x30 + 52)
  else if c == '+' then some 62
  else if c == '/' then some 63
  else none

/-- The bytes that groups of four digits stand for. -/
def bytes? : List Char → Option (List UInt8)
  | [] => some []
  | [a, b, '=', '='] => do
    let n := (← sextet? a) * 64 + (← sextet? b)
    return [(n / 16).toUInt8]
  | [a, b, c, '='] => do
    let n := ((← sextet? a) * 64 + (← sextet? b)) * 64 + (← sextet? c)
    return [(n / 1024).toUInt8, (n / 4).toUInt8]
  | a :: b :: c :: d :: rest => do
    let n := (((← sextet? a) * 64 + (← sextet? b)) * 64 + (← sextet? c)) * 64 + (← sextet? d)
    return (n / 65536).toUInt8 :: (n / 256).toUInt8 :: n.toUInt8 :: (← bytes? rest)
  | _ => none

/-- The text that is written as bytes. -/
def binary? (text : String) : Option ByteText :=
  (bytes? (text.toList.filter fun c => c != '\n' && c != '\r')).map fun bytes => { bytes }

/-- The value of a scalar with a tag, which is empty for none; `none` when it cannot have the tag. -/
def resolve? (tag : String) (plain : Bool) (text : String) : Option Value :=
  if tag == "!!str" || (tag.isEmpty && !plain) then some (.text text)
  else if tag == "!!binary" then (binary? text).map .text
  else if tag.isEmpty then some (guess true text)
  else if ["!!bool", "!!int", "!!float", "!!null", "!!timestamp"].contains tag then
    let v := guess (tag == "!!timestamp") text
    if v.tag == tag then some v
    else
      match tag == "!!float", v with
      | true, .int n => if n ≤ Word.maxSigned then some (.float (Float.ofInt n)) else none
      | _, _ => none
  else some (.text text)

end WholeProgram.Text.Yaml
