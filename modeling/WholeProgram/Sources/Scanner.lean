import WholeProgram.Text.Digits

/-!
# Scanning source files

The comments and the imports of a Go source file. Nothing inside a string or a character literal is a
comment; a comment that ends with its line does not include the end of the line. A byte order mark may
stand before the first character.

A string literal stands for a text. Between double quotes a backslash begins an escape: a letter, or a
number that is a byte or a character. Between raw quotes all characters stand for themselves, carriage
returns apart.
-/

namespace WholeProgram.Sources

/-! ## String literals -/

/-- The byte that a letter after a backslash stands for. -/
def letterEscape? : Char → Option UInt8
  | 'a' => some 7
  | 'b' => some 8
  | 't' => some 9
  | 'n' => some 10
  | 'v' => some 11
  | 'f' => some 12
  | 'r' => some 13
  | '"' => some 34
  | '\\' => some 92
  | _ => none

/-- The bytes of a character, by its code point. -/
def charBytes? (n : Nat) : Option (List UInt8) :=
  if h : n.isValidChar then some (String.singleton (Char.ofNatAux n h)).toUTF8.toList else none

/-- A byte, by its number. -/
def byte? (n : Nat) : Option (List UInt8) := if n < 256 then some [UInt8.ofNat n] else none

/-- The bytes that an escape without its backslash stands for, and what follows it. -/
def escapeBytes? : List Char → Option (List UInt8 × List Char)
  | [] => none
  | c :: rest =>
    let number (base count : Nat) (cs : List Char) (make : Nat → Option (List UInt8)) :=
      if cs.length < count then none
      else ((Text.digits base (cs.take count)).bind make).map fun bytes => (bytes, cs.drop count)
    match c with
    | 'x' => number 16 2 rest byte?
    | 'u' => number 16 4 rest charBytes?
    | 'U' => number 16 8 rest charBytes?
    | _ =>
      match letterEscape? c with
      | some b => some ([b], rest)
      | none => number 8 3 (c :: rest) byte?

/-- The bytes between double quotes. -/
def interpretedBytes? : Nat → List Char → Option (List UInt8)
  | 0, _ => none
  | _ + 1, [] => some []
  | fuel + 1, c :: rest => do
    let (bytes, after) ← if c = '\\' then escapeBytes? rest else some (c.toString.toUTF8.toList, rest)
    return bytes ++ (← interpretedBytes? fuel after)

/-- The text between double quotes, if its escapes are well formed. -/
def interpretedText? (cs : List Char) : Option String :=
  (interpretedBytes? (cs.length + 1) cs).bind fun bytes => String.fromUTF8? ⟨bytes.toArray⟩

/-- The text between raw quotes. -/
def rawText (cs : List Char) : String := String.ofList (cs.filter (· != '\r'))

/-! ## Comments -/

/-- A piece of a source file. -/
inductive Piece where
  | char (c : Char)
  /-- The text of a string literal, or what stands in a character literal. -/
  | literal (text : String)
  /-- A comment as it stands in the file, with the number of the line in which it starts. `leads` says
  that the line begins with it. -/
  | comment (line : Nat) (leads : Bool) (text : List Char)
deriving Repr, DecidableEq

/-- The characters of a literal up to its closing quote, and those after it. A backslash keeps the next
character from ending the literal. -/
def interpreted (quote : Char) : List Char → List Char × List Char
  | [] => ([], [])
  | '\\' :: c :: rest => let (inside, after) := interpreted quote rest; ('\\' :: c :: inside, after)
  | c :: rest =>
    if c = quote then ([], rest)
    else let (inside, after) := interpreted quote rest; (c :: inside, after)

/-- The characters up to a closing character, and those after it. -/
def upTo (stop : Char) (cs : List Char) : List Char × List Char :=
  (cs.takeWhile (· != stop), (cs.dropWhile (· != stop)).drop 1)

/-- A block comment without its opening, and the characters after it. -/
def block : List Char → List Char × List Char
  | '*' :: '/' :: rest => (['*', '/'], rest)
  | c :: rest => let (inside, after) := block rest; (c :: inside, after)
  | [] => ([], [])

/-- The quote of a character literal. -/
def charQuote : Char := Char.ofNat 0x27

/-- The quote of a string literal in which a backslash means itself. -/
def rawQuote : Char := Char.ofNat 0x60

def newlines (cs : List Char) : Nat := cs.count '\n'

/-- A line without the carriage return at its end. -/
def trimReturn (cs : List Char) : List Char := if cs.getLast? = some '\r' then cs.dropLast else cs

/-- The pieces of a source file from a line on. `leads` says that a line begins here. -/
def pieces : Nat → Nat → Bool → List Char → List Piece
  | 0, _, _, _ | _, _, _, [] => []
  | fuel + 1, line, leads, c :: rest =>
    if c = rawQuote then
      let (inside, after) := upTo c rest
      .literal (rawText inside) :: pieces fuel (line + newlines inside) false after
    else if c = '"' ∨ c = charQuote then
      let (inside, after) := interpreted c rest
      .literal ((interpretedText? inside).getD (String.ofList inside)) :: pieces fuel line false after
    else
      match c, rest with
      | '/', '/' :: _ =>
        let text := (c :: rest).takeWhile (· != '\n')
        .comment line leads (trimReturn text) :: pieces fuel line false (rest.dropWhile (· != '\n'))
      | '/', '*' :: body =>
        let (inside, after) := block body
        .comment line leads ('/' :: '*' :: inside) :: pieces fuel (line + newlines inside) false after
      | _, _ => .char c :: pieces fuel (if c = '\n' then line + 1 else line) (c == '\n') rest

/-- The pieces of a source file. -/
def scan (text : String) : List Piece :=
  match text.toList with
  | '\uFEFF' :: cs => pieces (cs.length + 1) 1 false cs
  | cs => pieces (cs.length + 1) 1 true cs

/-! ## Imports -/

/-- A word, a literal or another character. -/
inductive Token where
  | word (text : String)
  | literal (text : String)
  | symbol (c : Char)
deriving Repr, DecidableEq

def isWordChar (c : Char) : Bool := c.isAlphanum || c == '_' || 0x80 ≤ c.toNat

/-- Ends the word under construction. -/
def endWord (word : String) (tokens : Array Token) : Array Token :=
  if word.isEmpty then tokens else tokens.push (.word word)

/-- The tokens of a file. -/
def tokens (ps : List Piece) : List Token :=
  let (word, found) := ps.foldl
    (fun (word, found) p =>
      match p with
      | .char c =>
        if isWordChar c then (word.push c, found)
        else
          let found := endWord word found
          ("", if c == ' ' || c == '\t' || c == '\n' || c == '\r' then found else found.push (.symbol c))
      | .literal text => ("", (endWord word found).push (.literal text))
      | .comment _ _ _ => ("", endWord word found))
    ("", (#[] : Array Token))
  (endWord word found).toList

/-- The literals up to a closing parenthesis, and the tokens after it. -/
def importGroup : List Token → List String × List Token
  | [] => ([], [])
  | .symbol ')' :: rest => ([], rest)
  | .literal path :: rest => let (paths, after) := importGroup rest; (path :: paths, after)
  | _ :: rest => importGroup rest

/-- The first literal, and the tokens after it. -/
def importPath : List Token → List String × List Token
  | [] => ([], [])
  | .literal path :: rest => ([path], rest)
  | _ :: rest => importPath rest

/-- The paths of import declarations at the beginning of a list of tokens. -/
def importDecls : Nat → List Token → List String
  | 0, _ => []
  | fuel + 1, ts =>
    match ts with
    | .symbol ';' :: rest => importDecls fuel rest
    | .word "import" :: .symbol '(' :: rest =>
      let (paths, after) := importGroup rest
      paths ++ importDecls fuel after
    | .word "import" :: rest =>
      let (paths, after) := importPath rest
      paths ++ importDecls fuel after
    | _ => []

/-- The packages that a source file imports. -/
def imports (text : String) : List String :=
  match tokens (scan text) with
  | .word "package" :: .word _ :: rest => importDecls (rest.length + 1) rest
  | _ => []

end WholeProgram.Sources
