import WholeProgram.Text.Digits
import WholeProgram.Files.Path
import WholeProgram.Sources.Scanner

/-!
# Line directives

A comment `//line file:line` at the beginning of a line, or `/*line file:line*/` anywhere, says where the
text after it comes from; a column may follow the line. The comments of a file are given with the lines
that the directives before them say.
-/

namespace WholeProgram.Sources

/-- A line of a file. -/
structure LinePos where
  file : String
  line : Int
deriving DecidableEq, Repr

namespace LinePos

def text (p : LinePos) : String := baseName p.file ++ ":" ++ toString p.line

/-- By file name, then by line. -/
def le (p q : LinePos) : Bool := p.file < q.file || (p.file == q.file && p.line ≤ q.line)

/-- Each position once, in order. -/
def sorted (ps : List LinePos) : List LinePos := ps.eraseDups.mergeSort le

end LinePos

/-- The number after the last colon, as a 64-bit word, and the text before that colon; the number is
missing if something else stands there. -/
def trailingNumber? (cs : List Char) : Option (List Char × Option Int) :=
  let after := (cs.reverse.takeWhile (· != ':')).reverse
  if after.length = cs.length then none
  else
    let number := ((Text.digits? 10 after).filter (· ≤ Word.maxUnsigned)).map fun n => (Int64.ofNat n).toInt
    some (cs.take (cs.length - after.length - 1), number)

/-- What a comment says about lines. -/
inductive LineDirective where
  | absent
  | malformed
  /-- The file as written, or the file as before, and the line. -/
  | moved (file : Option String) (line : Int)
deriving DecidableEq, Repr

namespace LineDirective

/-- A number that lines and columns may have. -/
def isPlace (n : Int) : Bool := n != 0 && n ≤ 1073741824

/-- What the text after the word `line` says. -/
def ofText (cs : List Char) : LineDirective :=
  match trailingNumber? cs with
  | none => absent
  | some (_, none) => malformed
  | some (before, some n) =>
    match trailingNumber? before with
    | some (file, some line) =>
      if isPlace n && isPlace line then moved (if file.isEmpty then none else some (String.ofList file)) line
      else malformed
    | _ => if isPlace n then moved (some (String.ofList before)) n else malformed

/-- What a comment says. One that ends with its line counts only if the line begins with it. -/
def ofComment (leads : Bool) (comment : List Char) : LineDirective :=
  match comment with
  | '/' :: kind :: 'l' :: 'i' :: 'n' :: 'e' :: ' ' :: rest =>
    if kind = '*' then ofText (rest.take (rest.length - 2))
    else if leads then ofText rest
    else absent
  | _ => absent

end LineDirective

/-- Where the text of a file is said to come from: the line `counted` of the file is the line `said` of
the file `file`. -/
structure Origin where
  file : String
  counted : Nat
  said : Int
deriving Repr

namespace Origin

/-- The position of a line of the file. -/
def position (o : Origin) (line : Nat) : LinePos :=
  { file := o.file, line := o.said + ((line : Int) - (o.counted : Int)) }

/-- A file name in a directive, as seen from the directory of the file that has it. -/
def resolve (dir file : String) : String :=
  if file.isEmpty then ""
  else if file.startsWith "/" then cleanPath file
  else joinPath [dir, file]

/-- The origin after a comment in a file of a directory; nothing if the comment is malformed. -/
def after? (o : Origin) (dir : String) (line : Nat) (leads : Bool) (comment : List Char) : Option Origin :=
  -- A comment that ends with its line speaks of the next one.
  let next := if comment.take 2 == ['/', '/'] then line + 1 else line + newlines comment
  match LineDirective.ofComment leads comment with
  | .absent => some o
  | .malformed => none
  | .moved file said => some { file := (file.map (resolve dir)).getD o.file, counted := next, said }

end Origin

/-- The comments among the pieces of a file, each at its position. -/
def located (dir : String) : Origin → List Piece → Option (List (LinePos × List Char))
  | _, [] => some []
  | o, .comment line leads text :: rest => do
    let o' ← o.after? dir line leads text
    return (o.position line, text) :: (← located dir o' rest)
  | o, _ :: rest => located dir o rest

/-- The comments of a source file at their positions, without carriage returns; nothing if a directive
among them is malformed. -/
def comments? (file text : String) : Option (List (LinePos × String)) :=
  (located (dirName file) { file, counted := 1, said := 1 } (scan text)).map fun found =>
    found.map fun c => (c.1, rawText c.2)

end WholeProgram.Sources
