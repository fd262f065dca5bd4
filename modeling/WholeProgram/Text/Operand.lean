import WholeProgram.Text.Json.Value

/-!
# Values in reports

The text of a value that is handed to a report, and of several of them in a row.
-/

namespace WholeProgram.Text

/-- Members by their names. -/
def byName (members : List (String × String)) : List (String × String) :=
  members.mergeSort fun a b => decide (a.1 ≤ b.1)

mutual

/-- The text of a value: a list stands in brackets, the members of an object are sorted by name, and
texts are not quoted. -/
def valueText : Json → String
  | .null => "<nil>"
  | .bool b => if b then "true" else "false"
  | .number mantissa _ => toString mantissa
  | .str s => s
  | .arr items => "[" ++ " ".intercalate (valueTexts items) ++ "]"
  | .obj members =>
    "map[" ++ " ".intercalate ((byName (memberTexts members)).map fun m => m.1 ++ ":" ++ m.2) ++ "]"

/-- The texts of several values. -/
def valueTexts : List Json → List String
  | [] => []
  | j :: rest => valueText j :: valueTexts rest

/-- The texts of the members of an object. -/
def memberTexts : List (String × Json) → List (String × String)
  | [] => []
  | (name, j) :: rest => (name, valueText j) :: memberTexts rest

end

/-- The value is a text. -/
def isText : Json → Bool
  | .str _ => true
  | _ => false

/-- Values one after the other, with a space between two neighbours neither of which is a text. -/
def joinValues : List Json → String
  | [] => ""
  | [a] => valueText a
  | a :: b :: rest =>
    valueText a ++ (if isText a || isText b then "" else " ") ++ joinValues (b :: rest)

end WholeProgram.Text
