/-!
# Paths

Paths are texts with slashes; nothing here looks at files. A path leads from the root or from the working
directory to a place, one element after another.
-/

namespace WholeProgram

/-- The elements of a path: what stands before, between and after its slashes. -/
def elements (path : String) : List String := (path.toList.splitOn '/').map String.ofList

/-- Goes on from a place by an element. Places are listed from their ends; there is nothing above the root,
and what is above the working directory is named by `..` only. -/
def enter (rooted : Bool) (place : List String) (element : String) : List String :=
  if element.isEmpty || element == "." then place
  else if element == ".." then
    match place with
    | last :: rest => if last == ".." then ".." :: place else rest
    | [] => if rooted then [] else [".."]
  else element :: place

/-- The shortest path to a place. -/
def placeText (rooted : Bool) (place : List String) : String :=
  let joined := "/".intercalate place.reverse
  if rooted then "/" ++ joined else if joined.isEmpty then "." else joined

/-- The path starts from the root. -/
def isRooted (path : String) : Bool := path.startsWith "/"

/-- The place that a path leads to. -/
def placeOf (path : String) : List String := (elements path).foldl (enter (isRooted path)) []

/-- The shortest path that is the same place: no empty parts, no `.`, and `..` only at the beginning. -/
def cleanPath (path : String) : String := placeText (isRooted path) (placeOf path)

/-- The directory of a path. -/
def dirName (path : String) : String :=
  let parts := elements path
  cleanPath ("/".intercalate parts.dropLast ++ (if 1 < parts.length then "/" else ""))

/-- The last element of a path; a dot if the path is empty. -/
def baseName (path : String) : String :=
  if path.isEmpty then "."
  else match ((elements path).filter (!·.isEmpty)).getLast? with
    | some name => name
    | none => "/"

/-- Joins parts of a path; empty ones do not count. -/
def joinPath (parts : List String) : String :=
  match parts.filter fun p => !p.isEmpty with
  | [] => ""
  | ps => cleanPath ("/".intercalate ps)

end WholeProgram
