import WholeProgram.Files.Path

/-!
# Trees of files

The files and directories below the working directory, as far as a command can see and change them. Of
what is elsewhere, only the directories that every system has and the null device are known.
-/

namespace WholeProgram

/-- What keeps a path from being used. -/
inductive FileFault where
  | missing
  | notDirectory
  | isDirectory
  | alreadyThere
  | nameTooLong
  /-- The path is no path at all. -/
  | invalid
deriving DecidableEq, Repr

namespace FileFault

def text : FileFault → String
  | missing => "no such file or directory"
  | notDirectory => "not a directory"
  | isDirectory => "is a directory"
  | alreadyThere => "file exists"
  | nameTooLong => "file name too long"
  | invalid => "invalid argument"

end FileFault

/-- Why a file operation failed. -/
structure FileError where
  operation : String
  path : String
  fault : FileFault
deriving DecidableEq, Repr

namespace FileError

def message (e : FileError) : String := e.operation ++ " " ++ e.path ++ ": " ++ e.fault.text

end FileError

/-- The most bytes that an element of a path may have. -/
def maxNameBytes : Nat := 255

/-- The most bytes that a path may have. -/
def maxPathBytes : Nat := 4095

/-- Directories that every system has. -/
def systemDirs : List String :=
  ["/bin", "/dev", "/etc", "/home", "/lib", "/opt", "/proc", "/root", "/run", "/sys", "/tmp", "/usr", "/var"]

/-- The file that is always empty: what is written to it is gone. -/
def nullDevice : String := "/dev/null"

/-- A tree of files. Files and directories are listed by their places, which are clean paths; what is
above a place is a directory of the tree. -/
structure FileTree where
  /-- The files with their contents, each place once. -/
  files : List (String × String) := []
  dirs : List String := []
deriving Repr

namespace FileTree

/-- The directories above a place, nearest first. -/
def ancestors : Nat → String → List String
  | 0, _ => []
  | fuel + 1, place =>
    let d := dirName place
    if d == place then [d] else d :: ancestors fuel d

/-- The content of the file at a place. -/
def content? (t : FileTree) (place : String) : Option String :=
  if place == nullDevice then some "" else t.files.lookup place

/-- There is a file at a place. -/
def isFile (t : FileTree) (place : String) : Bool := (t.content? place).isSome

/-- The place is the working directory or above it. -/
def isAbove (place : String) : Bool :=
  place == "." || place == "/" || (place.startsWith ".." && (elements place).all (· == ".."))

/-- There is a directory at a place. -/
def isDir (t : FileTree) (place : String) : Bool :=
  isAbove place || systemDirs.contains place || t.dirs.contains place

/-- Adds a directory in one that is there. -/
def putDir (t : FileTree) (place : String) : FileTree :=
  if t.isDir place then t else { t with dirs := place :: t.dirs }

/-- Adds a file in a directory that is there, or replaces its content. -/
def putFile (t : FileTree) (place text : String) : FileTree :=
  if place == nullDevice then t
  else if t.isFile place then
    { t with files := t.files.map fun f => if f.1 == place then (place, text) else f }
  else { t with files := t.files ++ [(place, text)] }

/-- Adds a directory and those above it. -/
def addDir (t : FileTree) (place : String) : FileTree :=
  (place :: ancestors place.length place).foldl putDir t

/-- The tree with the given files; a path that ends in a slash is an empty directory. -/
def ofEntries (entries : List (String × String)) : FileTree :=
  entries.foldl
    (fun t e =>
      let place := cleanPath e.1
      if e.1.endsWith "/" then t.addDir place else (t.addDir (dirName place)).putFile place e.2)
    {}

/-! ## Paths in a tree -/

/-- The place of an element in a directory. -/
def inside (dir element : String) : String :=
  if dir == "." then element
  else if dir == "/" then "/" ++ element
  else dir ++ "/" ++ element

/-- The place of the directory above a directory. -/
def above (dir : String) : String := cleanPath (dir ++ "/..")

/-- Follows the elements of a path from a place. Every element needs a directory to stand in, also an
empty one after the last slash. -/
def follow (t : FileTree) (place : String) : List String → Except FileFault String
  | [] => .ok place
  | element :: rest =>
    if t.isDir place = false then .error .notDirectory
    else if element.isEmpty || element == "." then t.follow place rest
    else if element == ".." then t.follow (above place) rest
    else if maxNameBytes < element.utf8ByteSize then .error .nameTooLong
    else
      let next := inside place element
      if t.isDir next || t.isFile next then t.follow next rest else .error .missing

/-- Where paths like this one begin, if it is a path. -/
def beginning (path : String) : Except FileFault String :=
  if path.toList.contains (Char.ofNat 0) then .error .invalid
  else if path.isEmpty then .error .missing
  else if maxPathBytes < path.utf8ByteSize then .error .nameTooLong
  else .ok (if isRooted path then "/" else ".")

/-- The place of an existing file or directory. -/
def locate (t : FileTree) (path : String) : Except FileFault String := do
  t.follow (← beginning path) (elements path)

/-- A path without the slashes at its end. -/
def trimmed (path : String) : String := String.ofList (path.toList.reverse.dropWhile (· == '/')).reverse

/-- The last element of a path. -/
def lastElement (path : String) : String := (elements (trimmed path)).getLastD ""

/-- The path without its last element; empty when it has only one. -/
def parentText (path : String) : String := "/".intercalate (elements (trimmed path)).dropLast

/-- An element that is no name: the dots, and the nothing after a root. -/
def isStep (element : String) : Bool := element.isEmpty || element == "." || element == ".."

/-! ## Operations -/

/-- The content of a file. -/
def read (t : FileTree) (path : String) : Except FileError String :=
  match t.locate path with
  | .error fault => .error { operation := "open", path, fault }
  | .ok place =>
    match t.content? place with
    | some text => .ok text
    | none => .error { operation := "read", path, fault := .isDirectory }

/-- Creates a file, or replaces its content. A slash at the end asks for a directory. -/
def create (t : FileTree) (path text : String) : Except FileFault FileTree := do
  let dir ← t.follow (← beginning path) ((elements (trimmed path)).dropLast ++ [""])
  let name := lastElement path
  let place := inside dir name
  if isStep name || path.endsWith "/" then .error .isDirectory
  else if maxNameBytes < name.utf8ByteSize then .error .nameTooLong
  else if t.isDir place then .error .isDirectory
  else .ok (t.putFile place text)

/-- Creates a file, or replaces its content. -/
def write (t : FileTree) (path text : String) : Except FileError FileTree :=
  (t.create path text).mapError fun fault => { operation := "open", path, fault }

/-- Makes the last element of a path in the directory that the other elements lead to, unless the
element leads to a directory anyway. Returns the place, too. -/
def makeLast (t : FileTree) (path dir : String) : Except FileFault (FileTree × String) := do
  let _ ← beginning path
  let name := lastElement path
  let place := inside dir name
  if name.isEmpty || name == "." then .ok (t, dir)
  else if name == ".." then .ok (t, above dir)
  else if maxNameBytes < name.utf8ByteSize then .error .nameTooLong
  else if t.isDir place then .ok (t, place)
  else if t.isFile place then .error .alreadyThere
  else .ok (t.putDir place, place)

/-- Makes a directory and those above it, as the path spells them, and gives its place. The error names
the element that could not be made. -/
def makeDirs (t : FileTree) : Nat → String → Except FileError (FileTree × String)
  | 0, _ => .ok (t, ".")
  | fuel + 1, path =>
    match t.locate path with
    | .ok place =>
      if t.isDir place then .ok (t, place) else .error { operation := "mkdir", path, fault := .notDirectory }
    | .error _ => do
      let parent := parentText path
      let (t, dir) ←
        if parent.isEmpty then pure (t, if path.startsWith "/" then "/" else ".") else t.makeDirs fuel parent
      (t.makeLast path dir).mapError fun fault => { operation := "mkdir", path, fault }

/-- Makes a directory and those above it. -/
def makeDir (t : FileTree) (path : String) : Except FileError FileTree :=
  (t.makeDirs (path.length + 1) path).map (·.1)

/-- The files of a tree that another tree does not have and that are below the working directory. -/
def newFiles (t before : FileTree) : List (String × String) :=
  t.files.filter fun f => !before.isFile f.1 && !f.1.startsWith "/" && !f.1.startsWith "../"

end FileTree

end WholeProgram
