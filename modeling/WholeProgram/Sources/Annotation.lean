import WholeProgram.Files.Tree
import WholeProgram.Sources.LineDirective

/-!
# Expected flows

Comments in source files say which taint flows are expected: `@Source(id, ...)` marks a source and
`@Sink(id, ...)` marks a sink that is reached by the sources with one of its names.
-/

namespace WholeProgram.Sources

def isBlank (c : Char) : Bool := c == ' ' || c == '\t' || c == '\n' || c == '\r' || c == '\x0c'

def isWord (c : Char) : Bool :=
  ('a' ≤ c && c ≤ 'z') || ('A' ≤ c && c ≤ 'Z') || ('0' ≤ c && c ≤ '9') || c == '_'

/-- Where a list of names stands. -/
inductive NamesState where
  /-- A word must come. -/
  | start
  | word
  /-- Right after a comma. -/
  | comma
  /-- After blanks that follow a comma: a word must come. -/
  | gap
  | bad
deriving DecidableEq, Repr

namespace NamesState

def step (s : NamesState) (c : Char) : NamesState :=
  match s with
  | bad => bad
  | start => if isBlank c then start else if isWord c then word else bad
  | word => if isBlank c || isWord c then word else if c == ',' then comma else bad
  | comma | gap => if isBlank c then gap else if isWord c then word else bad

end NamesState

/-- The text is a list of names: words, divided by blanks and single commas, of which one may stand at
the end. -/
def isNames (cs : List Char) : Bool :=
  match cs.foldl NamesState.step .start with
  | .word | .comma => true
  | _ => false

/-- The rest of a text after a beginning. -/
def after? : List Char → List Char → Option (List Char)
  | [], cs => some cs
  | p :: ps, c :: cs => if p = c then after? ps cs else none
  | _ :: _, [] => none

/-- The names in parentheses at the beginning of a text. -/
def namesAt? (mark cs : List Char) : Option (List Char) :=
  (after? mark cs).bind fun rest =>
    let names := rest.takeWhile (· != ')')
    if names.length < rest.length && isNames names then some names else none

/-- The names of the last mark in the rest of a line. -/
def lastInLine (mark : List Char) : List Char → Option (List Char)
  | [] => none
  | c :: rest => (if c = '\n' then none else lastInLine mark rest) <|> namesAt? mark (c :: rest)

/-- The names of the mark that counts in a comment: the last one after the first pair of slashes that
has one in its line. -/
def findMark (mark : List Char) : List Char → Option (List Char)
  | [] => none
  | c :: rest =>
    (match c, rest with
      | '/', '/' :: line => lastInLine mark line
      | _, _ => none) <|> findMark mark rest

/-- The names of a list, without blanks around them. -/
def splitNames (cs : List Char) : List String :=
  ((String.ofList cs).splitOn ",").filterMap fun name =>
    let name := String.ofList ((name.toList.dropWhile isBlank).reverse.dropWhile isBlank).reverse
    if name.isEmpty then none else some name

/-- The names after a mark such as `Source` in a comment. -/
def marked (mark comment : String) : List String :=
  ((findMark (("@" ++ mark ++ "(").toList) comment.toList).map splitNames).getD []

/-- The positions of the comments that have a mark, with its names. -/
def marks (mark : String) (comments : List (LinePos × String)) : List (LinePos × List String) :=
  comments.filterMap fun (pos, comment) =>
    match marked mark comment with
    | [] => none
    | names => some (pos, names)

/-- The flows that comments expect: every sink that is reached, with its sources. -/
def expectedFlows (comments : List (LinePos × String)) : List (LinePos × List LinePos) :=
  let sources := marks "Source" comments
  let sinks := marks "Sink" comments
  let reaching (names : List String) : List LinePos :=
    (sources.filter fun s => s.2.any names.contains).map (·.1)
  (LinePos.sorted (sinks.map (·.1))).filterMap fun sink =>
    match LinePos.sorted ((sinks.filter (·.1 == sink)).flatMap fun s => reaching s.2) with
    | [] => none
    | found => some (sink, found)

/-- The expected flows of the source files in a directory. -/
def expectedFlowsIn (t : FileTree) (dir : String) : Except String (List (LinePos × List LinePos)) :=
  let place := cleanPath dir
  let sources := t.files.filter fun f => f.1.endsWith ".go" && dirName f.1 == place
  match t.isDir place, sources.mapM fun f => comments? f.1 f.2 with
  | true, some found => .ok (expectedFlows found.flatten)
  | _, _ => .error ("could not parse " ++ dir)

end WholeProgram.Sources
