/-!
# JSON values

Documents that describe programs are JSON. Look-ups are total: what is missing reads as null, and what
has another type reads as the empty value of the type asked for.
-/

namespace WholeProgram.Text

/-- A JSON value. Numbers are `mantissa * 10 ^ exponent`; the members of an object keep their order. -/
inductive Json where
  | null
  | bool (b : Bool)
  | number (mantissa : Int) (exponent : Int)
  | str (s : String)
  | arr (items : List Json)
  | obj (members : List (String × Json))
deriving Inhabited, Repr

namespace Json

def isNull : Json → Bool
  | null => true
  | _ => false

/-- The member of an object under a key. -/
def get (j : Json) (key : String) : Json :=
  match j with
  | obj ms => (ms.lookup key).getD null
  | _ => null

/-- The members of an object. -/
def entries : Json → List (String × Json)
  | obj ms => ms
  | _ => []

/-- The items of an array. -/
def items : Json → List Json
  | arr js => js
  | _ => []

/-- The item of an array at an index. -/
def item (j : Json) (i : Nat) : Json := j.items.getD i null

def text : Json → String
  | str s => s
  | _ => ""

def isTrue : Json → Bool
  | bool b => b
  | _ => false

/-- A number without a fraction. -/
def int : Json → Int
  | number m 0 => m
  | _ => 0

def nat (j : Json) : Nat := j.int.toNat

/-- Reads a value that may be null. -/
def option {α : Type} (read : Json → α) (j : Json) : Option α := if j.isNull then none else some (read j)

/-- Reads every item of an array. -/
def list {α : Type} (read : Json → α) (j : Json) : List α := j.items.map read

end Json

end WholeProgram.Text
