/-!
# Places in a text

A cursor holds what is left of a text and where it stands. A text is read in blocks, each when more
characters are needed than are at hand: a block with a character that no document may hold cannot be read,
so the text ends there in a fault, which only a look past the blocks before it meets. Where a block is read
also matters for a byte order mark, which counts as one when it is the first character at hand.
-/

namespace WholeProgram.Text.Yaml

/-! ## Classes of characters -/

def isBlank (c : Char) : Bool := c == ' ' || c == '\t'

/-- A character that ends a line. -/
def isBreak (c : Char) : Bool :=
  c == '\n' || c == '\r' || c == '\u0085' || c == '\u2028' || c == '\u2029'

/-- A character that ends a word; the null character stands for the end of the text. -/
def isGap (c : Char) : Bool := isBlank c || isBreak c || c == '\x00'

/-- A character that ends a comment. -/
def isLineEnd (c : Char) : Bool := isBreak c || c == '\x00'

/-- A character of the names of anchors, tags and directives. -/
def isNameChar (c : Char) : Bool := c.isAlphanum || c == '_' || c == '-'

/-- The byte order mark. -/
def byteOrderMark : Char := '\ufeff'

/-- A character that a document may hold. -/
def isAllowed (c : Char) : Bool :=
  let n := c.toNat
  n == 0x09 || n == 0x0A || n == 0x0D || (0x20 ≤ n && n ≤ 0x7E) || n == 0x85 || (0xA0 ≤ n && n ≤ 0xD7FF)
    || (0xE000 ≤ n && n ≤ 0xFFFD) || 0x10000 ≤ n

/-! ## Blocks -/

/-- The number of bytes of a block. -/
def blockSize : Nat := 512

/-- The characters that begin in a block with room for `room` bytes, and those after it. A character that
does not fit as a whole begins the next block. -/
def splitBlock : Nat → List Char → List Char × List Char
  | _, [] => ([], [])
  | room, c :: cs =>
    if c.utf8Size ≤ room then
      let (block, rest) := splitBlock (room - c.utf8Size) cs
      (c :: block, rest)
    else ([], c :: cs)

/-- The blocks before the first that cannot be read, and whether there is one. The first block may have
less room than the others. -/
def readable : Nat → Nat → List Char → List (List Char) × Bool
  | 0, _, _ => ([], false)
  | fuel + 1, room, cs =>
    if cs.isEmpty then ([], false)
    else
      let (block, rest) := splitBlock room cs
      if block.all isAllowed then
        let (more, fault) := readable fuel blockSize rest
        (block :: more, fault)
      else ([], true)

/-! ## Cursors -/

/-- A place in a text. -/
structure Cursor where
  /-- The characters that can be read. -/
  rest : List Char
  /-- The number of characters at hand. Each look past the end of the text adds one that is none. -/
  atHand : Nat := 0
  /-- The numbers of characters of the blocks that have not been read. -/
  blocks : List Nat
  /-- What follows the blocks cannot be read. -/
  fault : Bool
  /-- The number of characters before this place. -/
  index : Nat := 0
  line : Nat := 0
  column : Nat := 0
  /-- The line ends since the last character that is neither blank nor a line end. -/
  newlines : Nat := 0
  /-- A byte order mark was the first character at hand when a block was last read. -/
  marked : Bool := false

namespace Cursor

/-- The start of a text. A byte order mark at its beginning does not count, but takes room. -/
def ofString (text : String) : Cursor :=
  let cs := if text.isEmpty then ['\n'] else text.toList
  let (room, cs) := match cs with
    | c :: rest => if c == byteOrderMark then (blockSize - c.utf8Size, rest) else (blockSize, c :: rest)
    | [] => (blockSize, [])
  let (blocks, fault) := readable (cs.length + 1) room cs
  { rest := blocks.flatten, blocks := blocks.map List.length, fault }

/-- The character `n` places ahead; the null character after the end. -/
def ahead (c : Cursor) (n : Nat) : Char := c.rest.getD n '\x00'

/-- The next character. -/
def peek (c : Cursor) : Char := c.ahead 0

/-- Reads blocks until `n` characters are at hand or there is none left. -/
def readBlocks (n : Nat) : Nat → List Nat → Nat × List Nat
  | atHand, [] => (atHand, [])
  | atHand, size :: blocks =>
    if n ≤ atHand + size then (atHand + size, blocks) else readBlocks n (atHand + size) blocks

/-- Makes `n` characters available, or as many as there are. -/
def need (c : Cursor) (n : Nat) : Option Cursor :=
  if n ≤ c.atHand then some c
  else
    let (atHand, blocks) := readBlocks n c.atHand c.blocks
    if n ≤ atHand then some { c with atHand, blocks, marked := c.peek == byteOrderMark }
    else if c.fault then none
    else some { c with atHand := atHand + 1, blocks, marked := c.peek == byteOrderMark }

/-- Goes over one character within a line. -/
def skip (c : Cursor) : Cursor :=
  { c with
    rest := c.rest.tail
    atHand := c.atHand - 1
    index := c.index + 1
    column := c.column + 1
    newlines := if isBlank c.peek then c.newlines else 0 }

/-- Goes over several characters within a line. -/
def skipMany (n : Nat) (c : Cursor) : Cursor :=
  match n with
  | 0 => c
  | n + 1 => skipMany n c.skip

/-- The line end here has two characters. -/
def atPair (c : Cursor) : Bool := c.peek == '\r' && c.ahead 1 == '\n'

/-- Goes over a line end. -/
def skipLine (c : Cursor) : Cursor :=
  if isBreak c.peek then
    let n := if c.atPair then 2 else 1
    { c with
      rest := c.rest.drop n
      atHand := c.atHand - n
      index := c.index + n
      line := c.line + 1
      column := 0
      newlines := c.newlines + 1 }
  else c

/-- The text that a line end stands for: a line feed, save for the separators of lines and
paragraphs. -/
def lineEnd (c : Cursor) : String :=
  let x := c.peek
  if x == '\u2028' || x == '\u2029' then x.toString else if isBreak x then "\n" else ""

/-- Goes over all characters of a class within a line. -/
def skipWhile (p : Char → Bool) : Nat → Cursor → Option Cursor
  | 0, _ => none
  | fuel + 1, c => if p c.peek then (c.skip.need 1).bind (skipWhile p fuel) else some c

/-- The word of the characters of a class. -/
def takeWhile (p : Char → Bool) : Nat → Cursor → String → Option (String × Cursor)
  | 0, _, _ => none
  | fuel + 1, c, acc =>
    if p c.peek then (c.skip.need 1).bind fun next => takeWhile p fuel next (acc.push c.peek)
    else some (acc, c)

/-- More steps than a walk to the end of the text takes. -/
def bound (c : Cursor) : Nat := c.rest.length + 2

/-- The line begins with the mark of the start or the end of a document. -/
def atDocumentMark (c : Cursor) : Bool :=
  c.column == 0 && isGap (c.ahead 3) &&
    ((c.peek == '-' && c.ahead 1 == '-' && c.ahead 2 == '-')
      || (c.peek == '.' && c.ahead 1 == '.' && c.ahead 2 == '.'))

end Cursor

end WholeProgram.Text.Yaml
