import WholeProgram.Text.Digits
import WholeProgram.Text.ByteText
import WholeProgram.Text.Regex.Match

/-!
# Code identifiers

A code identifier names methods by expressions over the class and the method, and says what is special
about them: the type of what a source creates, the sensitive argument of a sink, the positions between
which a transfer moves taint.
-/

namespace WholeProgram

/-- A position of a call: an argument, the receiver, or the result. -/
inductive ArgPosition where
  | arg (i : Nat)
  | base
  | result
deriving DecidableEq, Repr

namespace ArgPosition

/-- The number by which positions are written: arguments count from zero. -/
def code : ArgPosition → Int
  | arg i => i
  | base => -1
  | result => -2

/-- The greatest number of an argument. -/
def maxArg : Nat := Word.maxSigned.toNat

/-- The position that a text names. -/
def parse? (text : String) : Option ArgPosition :=
  match text with
  | "base" => some base
  | "result" => some result
  | _ =>
    let digits := match text.toList with
      | '+' :: ds => ds
      | '-' :: ds => if ds.all (· == '0') then ds else []
      | ds => ds
    if digits.isEmpty || !digits.all (fun c => '0' ≤ c && c ≤ '9') then none
    else
      let n := digits.foldl (fun n c => n * 10 + (c.toNat - 0x30)) 0
      if n ≤ maxArg then some (arg n) else none

/-- What is said of a text that names no position. -/
def invalidMessage (text : Text.ByteText) : String :=
  "invalid argument index " ++ text.quoted ++ ": expected base, result or a non-negative number"

def parse (text : Text.ByteText) : Except String ArgPosition :=
  match text.text?.bind parse? with
  | some p => .ok p
  | none => .error (invalidMessage text)

end ArgPosition

/-- The compiled expressions of an identifier. -/
structure CompiledPattern where
  cls : Text.Pattern
  method : Text.Pattern

/-- An identifier as it stands in a configuration. -/
structure CodeIdentifier where
  cls : Text.ByteText := ""
  method : Text.ByteText := ""
  ty : Text.ByteText := ""
  index : Int := 0
  source : Text.ByteText := ""
  target : Text.ByteText := ""
  /-- Both expressions, when both could be compiled. -/
  pattern : Option CompiledPattern := none

namespace CodeIdentifier

def text (c : CodeIdentifier) : String := c.cls.shown ++ "." ++ c.method.shown

/-- An expression for the whole of a name. -/
def anchored (s : String) : String := "^(?:" ++ s ++ ")$"

/-- The compiled expression for the whole of a name; a text with stray bytes is none. -/
def wholeName? (t : Text.ByteText) : Option Text.Pattern :=
  t.text?.bind fun s => Text.Pattern.parse? (anchored s)

/-- Compiles both expressions, or none of them. -/
def compile (c : CodeIdentifier) : CodeIdentifier :=
  match wholeName? c.cls, wholeName? c.method with
  | some cls, some method => { c with pattern := some { cls, method } }
  | _, _ => c

/-- The identifier names the method. An empty part matches everything; without compiled expressions the
parts are compared as they are. -/
def names (c : CodeIdentifier) (cls method : String) : Bool :=
  match c.pattern with
  | some r => (c.cls.isEmpty || r.cls.isMatch cls) && (c.method.isEmpty || r.method.isMatch method)
  | none => (c.cls.isEmpty || c.cls.isText cls) && (c.method.isEmpty || c.method.isText method)

def sourcePosition (c : CodeIdentifier) : Except String ArgPosition := ArgPosition.parse c.source

def targetPosition (c : CodeIdentifier) : Except String ArgPosition := ArgPosition.parse c.target

end CodeIdentifier

/-- A taint tracking problem as it stands in a configuration. -/
structure TaintSpec where
  sources : List CodeIdentifier := []
  sinks : List CodeIdentifier := []
  transfers : List CodeIdentifier := []

namespace TaintSpec

/-- Those identifiers that name a method. -/
def naming (cs : List CodeIdentifier) (cls method : String) : List CodeIdentifier :=
  cs.filter fun c => c.names cls method

def sourcesOf (t : TaintSpec) (cls method : String) : List CodeIdentifier := naming t.sources cls method

def sinkIndices (t : TaintSpec) (cls method : String) : List Int := (naming t.sinks cls method).map (·.index)

def transfersOf (t : TaintSpec) (cls method : String) : List CodeIdentifier := naming t.transfers cls method

/-- The method is a source whose type is left open or is the given one. -/
def isSource (t : TaintSpec) (cls method ty : String) : Bool :=
  (t.sourcesOf cls method).any fun c => c.ty.isEmpty || c.ty.isText ty

/-- The error of a transfer whose positions do not exist. -/
def checkTransfer (c : CodeIdentifier) : Except String Unit :=
  match c.sourcePosition, c.targetPosition with
  | .error e, _ | .ok _, .error e => .error ("transfer " ++ c.text ++ ": " ++ e)
  | .ok _, .ok _ => .ok ()

/-- Compiles the identifiers of a problem. Indices of sinks count from zero, and the positions of
transfers must exist. -/
def compile (t : TaintSpec) : Except String TaintSpec := do
  for c in t.sinks do
    if c.index < 0 then
      throw ("sink " ++ c.text ++ " has a negative index")
  for c in t.transfers do
    checkTransfer c
  return { sources := t.sources.map (·.compile), sinks := t.sinks.map (·.compile)
           transfers := t.transfers.map (·.compile) }

end TaintSpec

end WholeProgram
