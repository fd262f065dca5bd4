import WholeProgram.Files.Tree
import WholeProgram.Sources.Scanner
import WholeProgram.Ssa.Document
import WholeProgram.Ssa.Program

/-!
# What was found of a source program

A listing of packages with their errors, and the program in static single assignment form when there
are none. As a JSON document it holds the packages that were found with their sources, the errors in them,
the program, and the other files of the working directory.
-/

namespace WholeProgram.Sources

/-- A package of a listing. -/
structure Listed where
  path : String
  /-- It is one of the packages asked for. -/
  initial : Bool
  imports : List String := []
deriving Repr

/-- An error in a package. -/
structure PackageError where
  package : String
  /-- Empty when there is none. -/
  position : String
  message : String
deriving Repr

namespace PackageError

def line (e : PackageError) : String :=
  (if e.position.isEmpty then "-" else e.position) ++ ": " ++ e.message ++ "\n"

end PackageError

/-- What was found of a source program. -/
structure Listing where
  /-- Why there is no listing. -/
  failure : Option String := none
  packages : List Listed := []
  errors : List PackageError := []
  program : Ssa.Program := {}

namespace Listing

/-- Visits a package: its imports in increasing order come before it. The first part of the state has
the packages begun, the second those done. -/
def visit (l : Listing) : Nat → List String × List String → String → List String × List String
  | 0, s, _ => s
  | fuel + 1, (begun, done), path =>
    if begun.contains path then (begun, done)
    else
      -- A package is begun before its imports, so that a cycle of imports ends.
      let imports := ((l.packages.find? (·.path == path)).map (·.imports)).getD []
      let (begun, done) := (imports.mergeSort fun a b => decide (a ≤ b)).foldl (visit l fuel) (path :: begun, done)
      (begun, done ++ [path])

/-- The packages that the initial ones need, each after what it needs. -/
def dependencyOrder (l : Listing) : List String :=
  let initial := (l.packages.filter (·.initial)).map (·.path)
  (initial.foldl (visit l (l.packages.length + 2)) ([], [])).2

/-- The errors of the packages in the order in which they are printed. -/
def reported (l : Listing) : List PackageError :=
  l.dependencyOrder.flatMap fun path => l.errors.filter (·.package == path)

/-- What is printed about the packages, and the program or why there is none. -/
def load (l : Listing) : String × Except String Ssa.Program :=
  match l.failure with
  | some reason => ("", .error ("failed to load packages: " ++ reason))
  | none =>
    if l.packages.all (!·.initial) then ("", .error "no packages")
    else match l.reported with
      | [] => ("", .ok l.program)
      | es => (String.join (es.map (·.line)), .error "errors found, exiting")

end Listing

/-! ## Listings as documents -/

open Text (Json)

namespace Document

def listed (j : Json) : Listed where
  path := (j.get "path").text
  initial := (j.get "initial").isTrue
  imports := imports (j.get "src").text

def packageError (j : Json) : PackageError where
  package := (j.item 0).text
  position := (j.item 1).text
  message := (j.item 2).text

/-- The files of the working directory: those that the document has and one for each package. -/
def files (j : Json) : FileTree :=
  .ofEntries ((j.get "files").entries.map (fun f => (f.1, f.2.text))
    ++ (j.get "packages").list fun p => ((p.get "path").text ++ ".go", (p.get "src").text))

end Document

/-- The listing that a document holds. -/
def Listing.ofDocument (j : Json) : Listing where
  failure := (j.get "load_error").option Json.text
  packages := (j.get "packages").list Document.listed
  errors := (j.get "pkg_errors").list Document.packageError
  program := Ssa.Program.ofDocument (j.get "ssa")

end WholeProgram.Sources
