import WholeProgram.Program.Spec
import WholeProgram.Text.Json.Value

/-!
# Descriptions as documents

The description of a program that a JSON document holds. An operator or a kind of call is given by its
text or by its number.
-/

namespace WholeProgram.Spec

open Text (Json)

namespace Document

def callKind (j : Json) : CallKind :=
  match ["static", "special", "virtual", "interface"].idxOf? j.text with
  | some i => .ofCode i
  | none => .ofCode j.int

def binaryOp (j : Json) : BinaryOp := (BinaryOp.ofText? j.text).getD (.ofCode j.int)

def int64 (j : Json) : Int64 := Int64.ofInt j.int

def texts (j : Json) : List String := j.list Json.text

/-- Pairs of texts. -/
def pairs (j : Json) : List (String × String) := j.list fun p => ((p.item 0).text, (p.item 1).text)

/-- A line of a body: its name and its operands. -/
def line? (j : Json) : Option Line :=
  let s (i : Nat) : String := (j.item i).text
  let o (i : Nat) : Option String := (j.item i).option Json.text
  match s 0 with
  | "nop" => some .nop
  | "lit" => some (.literal (s 1) (int64 (j.item 2)))
  | "copy" => some (.copy (s 1) (s 2))
  | "bin" => some (.binary (s 1) (s 2) (binaryOp (j.item 3)) (s 4))
  | "new" => some (.new (s 1) (s 2))
  | "load" => some (.load (s 1) (o 2) (s 3) (s 4))
  | "store" => some (.store (o 1) (s 2) (s 3) (s 4))
  | "aload" => some (.loadArray (s 1) (s 2) (s 3))
  | "astore" => some (.storeArray (s 1) (s 2) (s 3))
  | "call" => some (.call (o 1) (callKind (j.item 2)) (s 3) (s 4) (o 5) (texts (j.item 6)))
  | "if" => some (.branch (s 1) (binaryOp (j.item 2)) (s 3) (s 4))
  | "goto" => some (.jump (s 1))
  | "switch" => some (.switch (s 1) ((j.item 2).list int64) (texts (j.item 3)) (s 4))
  | "ret" => some (.ret (o 1))
  | "opaque" => some (.unknown (o 1) (s 2) (texts (j.item 3)))
  | "label" => some (.label (s 1))
  | "pos" => some (.pos (j.item 1).int)
  | _ => none

def field (j : Json) : FieldSpec where
  name := (j.get "name").text
  ty := (j.get "type").text
  isStatic := (j.get "kind").text == "static"
  ensure := (j.get "kind").text == "ensure"

def cls (j : Json) : ClassSpec where
  name := (j.get "name").text
  form := match (j.get "kind").text with
    | "abstract" => .abstract
    | "interface" => .interface
    | _ => .concrete
  super := (j.get "super").option Json.text
  interfaces := texts (j.get "interfaces")
  fields := (j.get "fields").list field

def method? (j : Json) : Option MethodSpec := do
  let body ← (j.get "body").items.mapM line?
  return { cls := (j.get "class").text, name := (j.get "name").text
           isStatic := (j.get "static").isTrue, isAbstract := (j.get "abstract").isTrue
           params := pairs (j.get "params"), returns := (j.get "returns").option Json.text
           locals := pairs (j.get "locals"), pos := (j.get "pos").option Json.int, body }

def file (j : Json) : SourceFile where
  name := (j.get "name").text
  size := (j.get "size").int
  lines := (j.get "lines").list Json.int

end Document

/-- The description in a document; `none` if a line of a body has an unknown name. -/
def ofDocument? (j : Json) : Option Spec := do
  let methods ← (j.get "methods").items.mapM Document.method?
  return { classes := (j.get "classes").list Document.cls, implements := Document.pairs (j.get "implements")
           methods, entries := (j.get "entries").option (Json.list Json.nat)
           entrySelector := (j.get "entry_selector").option Json.text
           file := (j.get "file").option Document.file }

end WholeProgram.Spec
