import WholeProgram.Text.Yaml.Scalar

/-!
# Tokens of a document

The scanner cuts a text into tokens. Indentation becomes tokens that open and close block collections. A
key of a mapping is only known by the colon after it, so a token that may begin such a *simple key* is
remembered, and the tokens that open a mapping and mark its key are put before it later. A simple key ends
on its line, at most 1024 characters after its beginning.

Tokens are made on demand, some ahead of the one that is looked at: what comes later in the text is never
looked at, so a fault there does not count.
-/

namespace WholeProgram.Text.Yaml

inductive Token where
  | streamStart
  | streamEnd
  | versionDirective (major minor : Nat)
  | tagDirective (handle expansion : String)
  | documentStart
  | documentEnd
  | blockSequenceStart
  | blockMappingStart
  | blockEnd
  | flowSequenceStart
  | flowSequenceEnd
  | flowMappingStart
  | flowMappingEnd
  | blockEntry
  | flowEntry
  | key
  | value
  | alias (name : String)
  | anchor (name : String)
  | tag (handle suffix : String)
  | scalar (text : String) (plain : Bool)
deriving Inhabited, DecidableEq

/-- A place where a simple key may begin. -/
structure SimpleKey where
  possible : Bool := false
  /-- Only a key can stand there. -/
  required : Bool := false
  /-- The number of its first token. -/
  token : Nat := 0
  index : Nat := 0
  line : Nat := 0
  column : Nat := 0

/-- The state of the scanner. -/
structure Scanner where
  cursor : Cursor
  started : Bool := false
  /-- The column of the innermost block collection; below zero outside of all. -/
  indent : Int := -1
  /-- The columns of the block collections around it, innermost first. -/
  indents : List Int := []
  /-- One simple key for the block context and one for every open flow collection, innermost first. -/
  keys : List SimpleKey := []
  /-- The numbers of the tokens that may begin a simple key, each with the depth of its flow
  collection. -/
  keyTokens : List (Nat × Nat) := []
  /-- A simple key may begin here. -/
  keyAllowed : Bool := false
  /-- The tokens that have been made and not been taken. -/
  queue : List Token := []
  /-- The number of tokens that have been taken. -/
  taken : Nat := 0
  /-- The first token of the queue is final. -/
  ready : Bool := false

namespace Scanner

def ofString (text : String) : Scanner := { cursor := Cursor.ofString text }

/-- The number of flow collections around this place. -/
def flowLevel (s : Scanner) : Nat := s.keys.length - 1

def inFlow (s : Scanner) : Bool := s.flowLevel != 0

/-- The number of the next token. -/
def nextNumber (s : Scanner) : Nat := s.taken + s.queue.length

/-- Collections nest no deeper. -/
def maxDepth : Nat := 10000

/-! ## The queue -/

def push (t : Token) (s : Scanner) : Scanner := { s with queue := s.queue ++ [t] }

/-- Puts a token before the one with a number; at the end when that one has been taken. -/
def insert (number : Nat) (t : Token) (s : Scanner) : Scanner :=
  if number < s.taken then s.push t
  else
    let (before, after) := s.queue.splitAt (number - s.taken)
    { s with queue := before ++ t :: after }

/-! ## Simple keys -/

/-- The simple key is still on its line and near its beginning. -/
def isNear (s : Scanner) (k : SimpleKey) : Bool :=
  s.cursor.line ≤ k.line && s.cursor.index ≤ k.index + 1024

/-- Whether a simple key can still become one; nothing when it must and cannot. -/
def isLive? (s : Scanner) (k : SimpleKey) : Option Bool :=
  if !k.possible then some false
  else if s.isNear k then some true
  else if k.required then none
  else some false

/-- Forgets the simple key of the innermost flow collection. -/
def dropKey (s : Scanner) : Option Scanner :=
  match s.keys with
  | [] => some s
  | k :: rest =>
    if !k.possible then some s
    else if k.required then none
    else some { s with
      keys := { k with possible := false } :: rest
      keyTokens := s.keyTokens.filter (·.1 != k.token) }

/-- Remembers that a simple key may begin here, if one is allowed. -/
def saveKey (s : Scanner) : Option Scanner :=
  if !s.keyAllowed then some s
  else
    (dropKey s).map fun s =>
      let c := s.cursor
      let k : SimpleKey :=
        { possible := true, required := !s.inFlow && s.indent == c.column, token := s.nextNumber,
          index := c.index, line := c.line, column := c.column }
      { s with
        keys := k :: s.keys.tail
        keyTokens := (k.token, s.keys.length - 1) :: s.keyTokens.filter (·.1 != k.token) }

/-! ## Indentation -/

/-- Opens a block collection at a column that is deeper than the innermost one. The token that opens it
goes before the one with a number, or to the end. -/
def rollIndent (column : Nat) (number : Option Nat) (t : Token) (s : Scanner) : Option Scanner :=
  if s.inFlow || (column : Int) ≤ s.indent then some s
  else if maxDepth ≤ s.indents.length then none
  else
    let s := { s with indents := s.indent :: s.indents, indent := column }
    some (match number with
      | some n => s.insert n t
      | none => s.push t)

/-- Closes the block collections that are deeper than a column. -/
def closeBlocks (column : Int) : List Int → Scanner → Scanner
  | [], s => s
  | outer :: rest, s =>
    if column < s.indent then closeBlocks column rest { s.push .blockEnd with indent := outer, indents := rest }
    else s

def unrollIndent (column : Int) (s : Scanner) : Scanner :=
  if s.inFlow then s else closeBlocks column s.indents s

/-! ## Blanks and comments -/

/-- How far ahead a comment is looked for. -/
def commentReach : Nat := 512

/-- Goes over a comment up to the end of its line. -/
def skipComment (c : Cursor) : Option Cursor := c.skipWhile (fun x => !isLineEnd x) c.bound

/-- The distance to the next comment, if only characters of a class lie before it, from a distance on. -/
def commentAhead (gap : Char → Bool) : Nat → Nat → Cursor → Option (Option Nat × Cursor)
  | 0, _, c => some (none, c)
  | fuel + 1, n, c =>
    (c.need (n + 1)).bind fun c =>
    let x := c.ahead n
    if x == '#' then some (some n, c)
    else if gap x then commentAhead gap fuel (n + 1) c
    else some (none, c)

/-- Goes over blanks and line ends to an index. -/
def skipGap : Nat → Nat → Cursor → Option Cursor
  | 0, _, _ => none
  | fuel + 1, target, c =>
    (c.need 1).bind fun c =>
    if target ≤ c.index then some c
    else if isBreak c.peek then (c.need 2).bind fun c => skipGap fuel target c.skipLine
    else skipGap fuel target c.skip

/-- Goes over the comment at a distance. -/
def skipCommentAt (n : Nat) (c : Cursor) : Option Cursor := (skipGap (n + 1) (c.index + n) c).bind skipComment

/-- Goes over a comment on the line of the last token. -/
def lineComment (c : Cursor) : Option Cursor :=
  if c.newlines != 0 then some c
  else
    (commentAhead isBlank commentReach 0 c).bind fun (distance, c) =>
    match distance with
    | some n => skipCommentAt n c
    | none => some c

/-- A line end of one byte. -/
def isPlainBreak (c : Char) : Bool := c == '\n' || c == '\r'

/-- Goes over the comments on the lines right after a comment. Line ends of several bytes end the search. -/
def moreComments : Nat → Cursor → Option Cursor
  | 0, _ => none
  | fuel + 1, c =>
    (c.need 2).bind fun c =>
    if !isPlainBreak c.peek then some c
    else
      (commentAhead (fun x => isBlank x || isPlainBreak x) (commentReach - 1) 1 c).bind fun (distance, c) =>
      match distance with
      | some n => (skipCommentAt n c).bind (moreComments fuel)
      | none => some c

/-- Goes over a comment and the comments on the lines right after it. -/
def skipComments (c : Cursor) : Option Cursor := (skipComment c).bind (moreComments c.bound)

/-- Goes to the next token. Tabs do not count where no simple key can begin. -/
def skipToToken : Nat → Scanner → Option Scanner
  | 0, _ => none
  | fuel + 1, s =>
    (s.cursor.need 1).bind fun c =>
    let c := if c.column == 0 && c.marked then c.skip else c
    (c.need 1).bind fun c =>
    (c.skipWhile (fun x => x == ' ' || (x == '\t' && (s.inFlow || !s.keyAllowed))) c.bound).bind fun c =>
    (if c.peek == '#' then skipComments c else some c).bind fun c =>
    if isBreak c.peek then
      (c.need 2).bind fun c =>
      skipToToken fuel { s with cursor := c.skipLine, keyAllowed := s.keyAllowed || !s.inFlow }
    else some { s with cursor := c }

/-! ## Directives, anchors and tags -/

/-- The number of a version: one or two digits. -/
def versionNumber (c : Cursor) : Option (Nat × Cursor) :=
  (c.takeWhile Char.isDigit c.bound "").bind fun (digits, c) =>
  if digits.isEmpty || 2 < digits.length then none else some (digits.toNat?.getD 0, c)

/-- The handle of a tag: an exclamation mark, and perhaps a name and another one. -/
def tagHandle (directive : Bool) (c : Cursor) : Option (String × Cursor) :=
  if c.peek != '!' then none
  else
    (c.skip.need 1).bind fun c =>
    (c.takeWhile isNameChar c.bound "!").bind fun (text, c) =>
    if c.peek == '!' then some (text.push '!', c.skip)
    else if directive && text != "!" then none
    else some (text, c)

/-- The number of bytes of a character, told by the first of them. -/
def byteWidth? (octet : Nat) : Option Nat :=
  if octet < 0x80 then some 1
  else if 0xC0 ≤ octet && octet < 0xE0 then some 2
  else if 0xE0 ≤ octet && octet < 0xF0 then some 3
  else if 0xF0 ≤ octet && octet < 0xF8 then some 4
  else none

/-- A byte that is written as a percent sign and two hexadecimal digits. -/
def escapedOctet (c : Cursor) : Option (Nat × Cursor) :=
  (c.need 3).bind fun c =>
  if c.peek != '%' then none
  else (digits 16 [c.ahead 1, c.ahead 2]).map fun n => (n, c.skipMany 3)

/-- The bytes after the first of a character. -/
def escapedRest : Nat → List UInt8 → Cursor → Option (List UInt8 × Cursor)
  | 0, acc, c => some (acc.reverse, c)
  | n + 1, acc, c =>
    (escapedOctet c).bind fun (octet, c) =>
    if 0x80 ≤ octet && octet < 0xC0 then escapedRest n (octet.toUInt8 :: acc) c else none

/-- A character whose bytes are escaped. -/
def escapedChar (c : Cursor) : Option (String × Cursor) :=
  (escapedOctet c).bind fun (octet, c) =>
  (byteWidth? octet).bind fun n =>
  (escapedRest (n - 1) [octet.toUInt8] c).map fun (bytes, c) =>
    ((String.fromUTF8? (ByteArray.mk bytes.toArray)).getD "\ufffd", c)

/-- A character of the rest of a tag. -/
def isTagChar (c : Char) : Bool := isNameChar c || ";/?:@&=+$,.!~*'()[]%".contains c

/-- The rest of a tag. -/
def tagRest : Nat → String → Cursor → Option (String × Cursor)
  | 0, _, _ => none
  | fuel + 1, acc, c =>
    if !isTagChar c.peek then some (acc, c)
    else if c.peek == '%' then
      (escapedChar c).bind fun (text, c) =>
      (c.need 1).bind (tagRest fuel (acc ++ text))
    else (c.skip.need 1).bind (tagRest fuel (acc.push c.peek))

/-- The rest of a tag after a part of it that has been read. -/
def tagSuffix (head : String) (c : Cursor) : Option (String × Cursor) :=
  (tagRest c.bound (String.ofList head.toList.tail) c).bind fun (text, after) =>
  if head.isEmpty && after.index == c.index then none else some (text, after)

/-- The directive at its percent sign: of the version, or of a tag. It ends with its line. -/
def directive? (c : Cursor) : Option (Token × Cursor) :=
  (c.skip.need 1).bind fun c =>
  (c.takeWhile isNameChar c.bound "").bind fun (name, c) =>
  if name.isEmpty || !isGap c.peek then none
  else
    (c.skipWhile isBlank c.bound).bind fun c =>
    let body : Option (Token × Cursor) :=
      if name == "YAML" then
        (versionNumber c).bind fun (major, c) =>
        if c.peek != '.' then none
        else
          (c.skip.need 1).bind fun c =>
          (versionNumber c).map fun (minor, c) => (.versionDirective major minor, c)
      else if name == "TAG" then
        (tagHandle true c).bind fun (handle, c) =>
        (c.need 1).bind fun c =>
        if !isBlank c.peek then none
        else
          (c.skipWhile isBlank c.bound).bind fun c =>
          (tagSuffix "" c).bind fun (expansion, c) =>
          if isGap c.peek then some (.tagDirective handle expansion, c) else none
      else none
    body.bind fun (t, c) =>
    (c.need 1).bind fun c =>
    (c.skipWhile isBlank c.bound).bind fun c =>
    (if c.peek == '#' then skipComment c else some c).bind fun c =>
    if !isLineEnd c.peek then none
    else (c.need 2).map fun c => (t, c.skipLine)

/-- The name of an anchor or alias at its sign. -/
def anchorName? (c : Cursor) : Option (String × Cursor) :=
  (c.skip.need 1).bind fun c =>
  (c.takeWhile isNameChar c.bound "").bind fun (name, c) =>
  if name.isEmpty || !(isGap c.peek || "?:,]\x7d%@`".contains c.peek) then none else some (name, c)

/-- The tag at its exclamation mark. -/
def tag? (c : Cursor) : Option (Token × Cursor) :=
  (c.need 2).bind fun c =>
  let read : Option (Token × Cursor) :=
    if c.ahead 1 == '<' then
      (c.skip.skip.need 1).bind fun c =>
      (tagSuffix "" c).bind fun (suffix, c) =>
      if c.peek == '>' then some (.tag "" suffix, c.skip) else none
    else
      (tagHandle false c).bind fun (handle, c) =>
      (c.need 1).bind fun c =>
      if 1 < handle.length && handle.back == '!' then
        (tagSuffix "" c).map fun (suffix, c) => (.tag handle suffix, c)
      else
        (tagSuffix handle c).map fun (suffix, c) =>
          (if suffix.isEmpty then .tag "" "!" else .tag "!" suffix, c)
  read.bind fun (t, c) =>
  (c.need 1).bind fun c => if isGap c.peek then some (t, c) else none

/-! ## One token -/

/-- Ends all block collections; what follows begins a document or a directive, or ends the text. -/
def leaveBlocks (s : Scanner) : Option Scanner :=
  (dropKey (s.unrollIndent (-1))).map fun s => { s with keyAllowed := false }

/-- The start or end of a document at its mark. -/
def documentMark (t : Token) (s : Scanner) : Option Scanner :=
  (leaveBlocks s).map fun s => { s with cursor := s.cursor.skipMany 3 }.push t

def openFlow (t : Token) (s : Scanner) : Option Scanner :=
  (saveKey s).bind fun s =>
  if maxDepth ≤ s.flowLevel then none
  else
    some ({ s with
      keys := { token := s.nextNumber } :: s.keys
      keyAllowed := true
      cursor := s.cursor.skip }.push t)

def closeFlow (t : Token) (s : Scanner) : Option Scanner :=
  (dropKey s).map fun s =>
    let s := match s.keys with
      | k :: outer :: rest =>
        { s with keys := outer :: rest, keyTokens := s.keyTokens.filter (·.1 != k.token) }
      | _ => s
    { s with keyAllowed := false, cursor := s.cursor.skip }.push t

def flowEntry (s : Scanner) : Option Scanner :=
  (dropKey s).map fun s => { s with keyAllowed := true, cursor := s.cursor.skip }.push .flowEntry

/-- Opens a block collection here, where one may begin. -/
def openBlock (t : Token) (s : Scanner) : Option Scanner :=
  if s.inFlow then some s
  else if s.keyAllowed then s.rollIndent s.cursor.column none t
  else none

def blockEntry (s : Scanner) : Option Scanner :=
  ((openBlock .blockSequenceStart s).bind dropKey).map fun s =>
    { s with keyAllowed := true, cursor := s.cursor.skip }.push .blockEntry

def explicitKey (s : Scanner) : Option Scanner :=
  ((openBlock .blockMappingStart s).bind dropKey).map fun s =>
    { s with keyAllowed := !s.inFlow, cursor := s.cursor.skip }.push .key

/-- The colon after a key. A simple key before it is marked now. -/
def mappingValue (s : Scanner) : Option Scanner :=
  let k := s.keys.headD {}
  (s.isLive? k).bind fun live =>
  let marked : Option Scanner :=
    if live then
      ((s.insert k.token .key).rollIndent k.column (some k.token) .blockMappingStart).map fun s =>
        { s with
          keys := { k with possible := false } :: s.keys.tail
          keyTokens := s.keyTokens.filter (·.1 != k.token)
          keyAllowed := false }
    else
      (openBlock .blockMappingStart { s with keys := { k with possible := false } :: s.keys.tail }).map
        fun s => { s with keyAllowed := !s.inFlow }
  marked.map fun s => { s with cursor := s.cursor.skip }.push .value

/-- A token that may be a simple key and that none can follow. -/
def keyLike (read : Cursor → Option (Token × Cursor)) (s : Scanner) : Option Scanner :=
  (saveKey s).bind fun s =>
  (read s.cursor).map fun (t, cursor) => { s with cursor, keyAllowed := false }.push t

def plainToken (s : Scanner) : Option Scanner :=
  (saveKey s).bind fun s =>
  (plainScalar? s.inFlow (s.indent + 1) s.cursor).map fun (text, broken, cursor) =>
    { s with cursor, keyAllowed := broken }.push (.scalar text true)

def blockToken (literal : Bool) (s : Scanner) : Option Scanner :=
  (dropKey s).bind fun s =>
  (blockScalar? literal s.indent s.cursor).map fun (text, cursor) =>
    { s with cursor, keyAllowed := true }.push (.scalar text false)

/-- The next character can begin a plain scalar. -/
def startsPlain (s : Scanner) : Bool :=
  let x := s.cursor.peek
  let next := s.cursor.ahead 1
  if x == '-' then !isBlank next
  else if x == '?' || x == ':' then !s.inFlow && !isGap next
  else !(isGap x || ",[]\x7b\x7d#&*!|>'\"%@`".contains x)

/-- A token other than the marks of documents and directives. -/
def contentToken (s : Scanner) : Option Scanner :=
  let c := s.cursor
  let x := c.peek
  let gapNext := isGap (c.ahead 1)
  if x == '[' then s.openFlow .flowSequenceStart
  else if x == '\x7b' then s.openFlow .flowMappingStart
  else if x == ']' then s.closeFlow .flowSequenceEnd
  else if x == '\x7d' then s.closeFlow .flowMappingEnd
  else if x == ',' then s.flowEntry
  else if x == '-' && gapNext then s.blockEntry
  else if x == '?' && (s.inFlow || gapNext) then s.explicitKey
  else if x == ':' && (s.inFlow || gapNext) then s.mappingValue
  else if x == '*' then s.keyLike fun c => (anchorName? c).map fun (n, c) => (.alias n, c)
  else if x == '&' then s.keyLike fun c => (anchorName? c).map fun (n, c) => (.anchor n, c)
  else if x == '!' then s.keyLike tag?
  else if x == '|' && !s.inFlow then s.blockToken true
  else if x == '>' && !s.inFlow then s.blockToken false
  else if x == '\'' || x == '"' then
    s.keyLike fun c => (quotedScalar? c).map fun (text, c) => (.scalar text false, c)
  else if s.startsPlain then s.plainToken
  else none

/-- Makes the next token, and those that open and close collections before it. -/
def step (s : Scanner) : Option Scanner :=
  (s.cursor.need 1).bind fun c =>
  let s := { s with cursor := c }
  if !s.started then some ({ s with started := true, keys := [{}], keyAllowed := true }.push .streamStart)
  else
    (skipToToken c.bound s).bind fun s =>
    let s := s.unrollIndent s.cursor.column
    (s.cursor.need 4).bind fun c =>
    let s := { s with cursor := c }
    if c.rest.isEmpty then
      let c := if c.column == 0 then c else { c with column := 0, line := c.line + 1 }
      (leaveBlocks { s with cursor := c }).map (push .streamEnd)
    else if c.column == 0 && c.peek == '%' then
      (leaveBlocks s).bind fun s =>
      (directive? s.cursor).map fun (t, cursor) => { s with cursor }.push t
    else if c.atDocumentMark then s.documentMark (if c.peek == '-' then .documentStart else .documentEnd)
    else
      s.contentToken.bind fun s =>
      if s.queue.getLast? == some .blockEntry then some s
      else (lineComment s.cursor).map fun cursor => { s with cursor }

/-! ## The token stream -/

/-- The first token may still become a simple key; nothing when it must and cannot. -/
def headPending? (s : Scanner) : Option Bool :=
  match s.keyTokens.lookup s.taken with
  | none => some false
  | some depth =>
    match s.keys.reverse[depth]? with
    | some k => s.isLive? k
    | none => some false

/-- Makes tokens until the first one is final: two more follow it, and it is no key that is still
open. -/
def fill : Nat → Scanner → Option Scanner
  | 0, _ => none
  | fuel + 1, s =>
    if 2 < s.queue.length then
      (headPending? s).bind fun pending => if pending then (step s).bind (fill fuel) else some s
    else (step s).bind (fill fuel)

/-- The next token. -/
def peek (s : Scanner) : Option (Token × Scanner) :=
  if s.ready then s.queue.head?.map fun t => (t, s)
  else
    (fill (s.cursor.bound + 4) s).bind fun s =>
    s.queue.head?.map fun t => (t, { s with ready := true })

/-- Takes the next token. -/
def skip (s : Scanner) : Scanner :=
  { s with queue := s.queue.tail, taken := s.taken + 1, ready := false }

end Scanner

end WholeProgram.Text.Yaml
