import WholeProgram.Files.Tree
import WholeProgram.Program.Render

/-!
# Classes as text files

Every class of a program has a text and a file below an output directory; the packages in its name
become directories.
-/

namespace WholeProgram.Dump

/-- The text of a class: its header, its fields, and its methods with their statements. -/
def classText (p : Program) (c : ClassId) : String :=
  let d := p.classes.getD c default
  let extending := match d.super with
    | some s => " extends " ++ p.className s
    | none => ""
  let implementing :=
    if d.interfaces.isEmpty then ""
    else " implements " ++ ", ".intercalate (d.interfaces.toList.map p.className)
  let field (f : FieldId) : String :=
    let isStatic := (p.fields[f]?.map (·.isStatic)).getD false
    "  " ++ (if isStatic then "static " else "") ++ p.tyText ((p.fields[f]?.map (·.ty)).getD default)
      ++ " " ++ p.fieldName f ++ "\n"
  let method (m : MethodId) : String :=
    "\n  " ++ p.signature m ++ "\n"
      ++ String.join ((List.range (p.method m).body.size).map fun i =>
        "    " ++ p.nodeLine { method := m, node := i + 1 } ++ "\n")
  (if d.isInterface then "interface " else "class ") ++ d.name ++ extending ++ implementing ++ "\n"
    ++ String.join (d.fields.toList.map field) ++ String.join (d.methods.toList.map method) ++ "\n"

/-- Characters that file names may have. -/
def isPathChar (c : Char) : Bool :=
  ('A' ≤ c && c ≤ 'Z') || ('a' ≤ c && c ≤ 'z') || ('0' ≤ c && c ≤ '9')
    || c == '.' || c == '_' || c == '/' || c == '-'

/-- Two dots in a row become one underscore, from left to right. -/
def replaceDots : List Char → List Char
  | '.' :: '.' :: rest => '_' :: replaceDots rest
  | c :: rest => c :: replaceDots rest
  | [] => []

/-- No slashes at either end. -/
def trimSlashes (cs : List Char) : List Char :=
  ((cs.dropWhile (· == '/')).reverse.dropWhile (· == '/')).reverse

/-- The name of the file of a class, without its extension. -/
def fileStem (name : String) : String :=
  String.ofList (trimSlashes (replaceDots (name.toList.map fun c => if isPathChar c then c else '_')))

/-- The file of a class below a directory. -/
def classFile (dir name : String) : String := joinPath [dir, fileStem name ++ ".ir"]

-- The tree is not to be opened where the two operations below are only told apart by success and failure.

/-- Creates a file. -/
@[irreducible] def writeFile (t : FileTree) (path text : String) : Except String FileTree :=
  (t.write path text).mapError fun e => "could not create file: " ++ e.message

/-- Makes a directory and those above it. -/
@[irreducible] def makeDir (t : FileTree) (path : String) : Except String FileTree :=
  (t.makeDir path).mapError fun e => "could not create directory " ++ path ++ ": " ++ e.message

/-- Writes classes into their files, one after the other; after an error the files written so far stay. -/
def writeClasses (p : Program) (dir : String) : List ClassId → FileTree → FileTree × Option String
  | [], t => (t, none)
  | c :: rest, t =>
    let path := classFile dir (p.className c)
    match makeDir t (dirName path) with
    | .error e => (t, some e)
    | .ok t =>
      match writeFile t path (classText p c) with
      | .error e => (t, some e)
      | .ok t => writeClasses p dir rest t

/-- Writes all classes of a program. -/
def writeProgram (p : Program) (dir : String) (t : FileTree) : FileTree × Option String :=
  writeClasses p dir (List.range p.classes.size) t

end WholeProgram.Dump
