import WholeProgram.Text.Digits
import WholeProgram.Text.Yaml.Cursor

/-!
# Scalars in a text

A scalar is plain, quoted, or a block of lines. Within plain and quoted scalars a gap is the blanks and
line ends between two words: one line end is a space, more are one line end less, and blanks around a
line end do not count. Each reader gives the text and the place after it, or nothing for a text that is
no scalar.
-/

namespace WholeProgram.Text.Yaml

/-! ## Gaps -/

/-- What stands between two words of a scalar. -/
structure Gap where
  /-- The blanks on the line of the first word. -/
  blanks : String := ""
  /-- A line has ended. -/
  broken : Bool := false
  /-- What the first line end stands for. -/
  first : String := ""
  /-- What the other line ends stand for. -/
  others : String := ""

namespace Gap

/-- The text that a gap stands for. -/
def text (g : Gap) : String :=
  if !g.broken then g.blanks
  else if g.first == "\n" then (if g.others.isEmpty then " " else g.others)
  else g.first ++ g.others

/-- Goes over a gap. A tab before the column `floor` must not indent a line. -/
def take (floor : Int) : Nat → Gap → Cursor → Option (Gap × Cursor)
  | 0, _, _ => none
  | fuel + 1, g, c =>
    let x := c.peek
    if isBlank x then
      if g.broken && c.column < floor && x == '\t' then none
      else (c.skip.need 1).bind (take floor fuel (if g.broken then g else { g with blanks := g.blanks.push x }))
    else if isBreak x then
      (c.need 2).bind fun c =>
      (c.skipLine.need 1).bind
        (take floor fuel
          (if g.broken then { g with others := g.others ++ c.lineEnd }
          else { blanks := "", broken := true, first := g.first ++ c.lineEnd, others := g.others }))
    else some (g, c)

end Gap

/-! ## Plain scalars -/

/-- A character that ends a plain scalar in a flow collection. -/
def isFlowIndicator (c : Char) : Bool := c == ',' || c == '?' || c == '[' || c == ']' || c == '{' || c == '}'

/-- A word of a plain scalar: up to a gap, or a colon before a gap, or an indicator of flow
collections within them. -/
def plainWord (flow : Bool) : Nat → String → Cursor → Option (String × Cursor)
  | 0, _, _ => none
  | fuel + 1, acc, c =>
    let x := c.peek
    if isGap x || (x == ':' && isGap (c.ahead 1)) || (flow && isFlowIndicator x) then some (acc, c)
    else (c.skip.need 2).bind (plainWord flow fuel (acc.push x))

/-- The words of a plain scalar, and whether a line has ended after the last one. Outside of flow
collections its lines are indented by `indent` at least. -/
def plainWords (flow : Bool) (indent : Int) : Nat → String → Gap → Cursor → Option (String × Bool × Cursor)
  | 0, _, _, _ => none
  | fuel + 1, acc, gap, c =>
    (c.need 4).bind fun c =>
    if c.atDocumentMark || c.peek == '#' then some (acc, gap.broken, c)
    else
      (plainWord flow c.bound "" c).bind fun (word, c) =>
      let (acc, gap) := if word.isEmpty then (acc, gap) else (acc ++ gap.text ++ word, {})
      if isBlank c.peek || isBreak c.peek then
        (c.need 1).bind fun c =>
        (gap.take indent c.bound c).bind fun (gap, c) =>
        if !flow && c.column < indent then some (acc, gap.broken, c)
        else plainWords flow indent fuel acc gap c
      else some (acc, gap.broken, c)

/-- The plain scalar here, and whether a line has ended after it. -/
def plainScalar? (flow : Bool) (indent : Int) (c : Cursor) : Option (String × Bool × Cursor) :=
  plainWords flow indent c.bound "" {} c

/-! ## Quoted scalars -/

/-- The characters that one letter after a backslash stands for. -/
def simpleEscape? : Char → Option Char
  | '0' => some '\x00'
  | 'a' => some '\x07'
  | 'b' => some '\x08'
  | 't' | '\t' => some '\t'
  | 'n' => some '\n'
  | 'v' => some '\x0b'
  | 'f' => some '\x0c'
  | 'r' => some '\r'
  | 'e' => some '\x1b'
  | ' ' => some ' '
  | '"' => some '"'
  | '\'' => some '\''
  | '\\' => some '\\'
  | 'N' => some '\u0085'
  | '_' => some '\u00a0'
  | 'L' => some '\u2028'
  | 'P' => some '\u2029'
  | _ => none

/-- The number of digits after a letter that begins a coded character. -/
def codeLength? : Char → Option Nat
  | 'x' => some 2
  | 'u' => some 4
  | 'U' => some 8
  | _ => none

/-- The character of an escape at its backslash. -/
def escape? (c : Cursor) : Option (Char × Cursor) :=
  let letter := c.ahead 1
  let after := c.skip.skip
  match simpleEscape? letter, codeLength? letter with
  | some x, _ => some (x, after)
  | none, none => none
  | none, some n =>
    (after.need n).bind fun after =>
    (digits 16 ((List.range n).map after.ahead)).bind fun v =>
    if v.isValidChar then some (Char.ofNat v, after.skipMany n) else none

/-- A word of a quoted scalar, and whether it ends in a line end that does not count. -/
def quotedWord (quote : Char) : Nat → String → Cursor → Option (String × Bool × Cursor)
  | 0, _, _ => none
  | fuel + 1, acc, c =>
    let x := c.peek
    let single := quote == '\''
    if isGap x then some (acc, false, c)
    else if single && x == '\'' && c.ahead 1 == '\'' then
      (c.skip.skip.need 2).bind (quotedWord quote fuel (acc.push '\''))
    else if x == quote then some (acc, false, c)
    else if !single && x == '\\' then
      if isBreak (c.ahead 1) then (c.need 3).map fun c => (acc, true, c.skip.skipLine)
      else
        (escape? c).bind fun (y, after) =>
        (after.need 2).bind (quotedWord quote fuel (acc.push y))
    else (c.skip.need 2).bind (quotedWord quote fuel (acc.push x))

/-- The words of a quoted scalar and its closing quote. -/
def quotedWords (quote : Char) : Nat → String → Cursor → Option (String × Cursor)
  | 0, _, _ => none
  | fuel + 1, acc, c =>
    (c.need 4).bind fun c =>
    if c.atDocumentMark || c.rest.isEmpty then none
    else
      (quotedWord quote c.bound acc c).bind fun (acc, broken, c) =>
      (c.need 1).bind fun c =>
      if c.peek == quote then some (acc, c.skip)
      else
        (Gap.take (-1) c.bound { broken } c).bind fun (gap, c) =>
        quotedWords quote fuel (acc ++ gap.text) c

/-- The quoted scalar at its opening quote. -/
def quotedScalar? (c : Cursor) : Option (String × Cursor) := quotedWords c.peek c.bound "" c.skip

/-! ## Block scalars -/

/-- What becomes of the line ends after a block scalar. -/
inductive Chomping where
  | strip
  | clip
  | keep
deriving DecidableEq

/-- The sign of a chomping. -/
def chomping? (c : Char) : Option Chomping :=
  if c == '+' then some .keep else if c == '-' then some .strip else none

/-- The digit of an indentation; zero is none. -/
def increment? (c : Char) : Option Nat := if c.isDigit && c != '0' then some (c.toNat - 0x30) else none

/-- The signs after the indicator of a block scalar: chomping and indentation, in either order. -/
def blockHeader? (c : Cursor) : Option (Chomping × Nat × Cursor) :=
  match chomping? c.peek with
  | some k =>
    (c.skip.need 1).bind fun c =>
    if c.peek.isDigit then (increment? c.peek).map fun n => (k, n, c.skip) else some (k, 0, c)
  | none =>
    if c.peek.isDigit then
      (increment? c.peek).bind fun n =>
      (c.skip.need 1).map fun c =>
        match chomping? c.peek with
        | some k => (k, n, c.skip)
        | none => (.clip, n, c)
    else some (.clip, 0, c)

/-- Goes over the indentation and the empty lines before the next line of a block scalar: the text of the
line ends, and the greatest column that was met. The indentation is not known while it is zero. -/
def blockBreaks (indent : Nat) : Nat → Nat → String → Cursor → Option (Nat × String × Cursor)
  | 0, _, _, _ => none
  | fuel + 1, widest, breaks, c =>
    let inside (c : Cursor) : Bool := indent == 0 || c.column < indent
    if inside c && c.peek == ' ' then (c.skip.need 1).bind (blockBreaks indent fuel widest breaks)
    else
      let widest := max widest c.column
      if inside c && c.peek == '\t' then none
      else if isBreak c.peek then
        (c.need 2).bind fun c =>
        (c.skipLine.need 1).bind (blockBreaks indent fuel widest (breaks ++ c.lineEnd))
      else some (widest, breaks, c)

/-- The lines of a block scalar. `leading` is the text of the line end before the place, `breaks` that of
the empty lines after it, and `blankBefore` says whether the line before began with a blank. -/
def blockLines (literal : Bool) (indent : Nat) :
    Nat → String → String → String → Bool → Cursor → Option (String × String × String × Cursor)
  | 0, _, _, _, _, _ => none
  | fuel + 1, acc, leading, breaks, blankBefore, c =>
    if c.column == indent && !c.rest.isEmpty then
      let blank := isBlank c.peek
      let folded := !literal && !blankBefore && !blank && leading == "\n"
      let acc := if folded then (if breaks.isEmpty then acc.push ' ' else acc) else acc ++ leading
      (c.takeWhile (fun x => !isLineEnd x) c.bound (acc ++ breaks)).bind fun (acc, c) =>
      (c.need 2).bind fun c =>
      let leading := c.lineEnd
      (c.skipLine.need 1).bind fun c =>
      (blockBreaks indent c.bound 0 "" c).bind fun (_, breaks, c) =>
      blockLines literal indent fuel acc leading breaks blank c
    else some (acc, leading, breaks, c)

/-- The block scalar at its indicator, within a collection indented by `parent`. -/
def blockScalar? (literal : Bool) (parent : Int) (c : Cursor) : Option (String × Cursor) :=
  (c.skip.need 1).bind fun c =>
  (blockHeader? c).bind fun (chomping, increment, c) =>
  (c.need 1).bind fun c =>
  (c.skipWhile isBlank c.bound).bind fun c =>
  (if c.peek == '#' then c.skipWhile (fun x => !isLineEnd x) c.bound else some c).bind fun c =>
  if !isLineEnd c.peek then none
  else
    (c.need 2).bind fun c =>
    (c.skipLine.need 1).bind fun c =>
    let indent := if increment == 0 then 0 else (max parent 0).toNat + increment
    (blockBreaks indent c.bound 0 "" c).bind fun (widest, breaks, c) =>
    let indent := if indent == 0 then max (max widest (parent + 1).toNat) 1 else indent
    (blockLines literal indent c.bound "" "" breaks false c).map fun (text, leading, breaks, c) =>
      let text := if chomping = .strip then text else text ++ leading
      (if chomping = .keep then text ++ breaks else text, c)

end WholeProgram.Text.Yaml
