import WholeProgram.Config.CodeIdentifier
import WholeProgram.Program.Render

/-!
# Sources, sinks and transfers of a program

`Rules.resolve` finds the methods that the identifiers of a problem name. What is created at a source
or a transfer has a type: the class that the identifier gives, if the program has it, and otherwise the
type of the place where it appears.
-/

namespace WholeProgram.Taint

/-- A method whose result is tainted. -/
structure Source where
  method : MethodId
  ty : Option Ty
deriving DecidableEq, Repr

/-- A method with a sensitive argument. -/
structure Sink where
  method : MethodId
  index : Nat
deriving DecidableEq, Repr

/-- A method that passes taint from one position of a call to another. -/
structure Transfer where
  method : MethodId
  source : ArgPosition
  target : ArgPosition
  ty : Option Ty
deriving DecidableEq, Repr

/-- What is special about the methods of a program. -/
structure Rules where
  sources : List Source := []
  sinks : List Sink := []
  transfers : List Transfer := []
deriving Repr

namespace Rules

def sourcesOf (r : Rules) (m : MethodId) : List Source := r.sources.filter (·.method == m)

def sinksOf (r : Rules) (m : MethodId) : List Sink := r.sinks.filter (·.method == m)

def transfersOf (r : Rules) (m : MethodId) : List Transfer := r.transfers.filter (·.method == m)

/-- There is nothing to find. -/
def isEmpty (r : Rules) : Bool := r.sources.isEmpty || r.sinks.isEmpty

/-- The class with this name as a type, if there is one. -/
def namedType (p : Program) (name : Text.ByteText) (otherwise : Option Ty) : Option Ty :=
  match (if name.isEmpty then none else name.text?.bind p.findClass?) with
  | some c => some (.ref c)
  | none => otherwise

/-- The type of a position of calls to a method. -/
def positionType (p : Program) (m : MethodId) : ArgPosition → Option Ty
  | .base => some (.ref (p.method m).cls)
  | .result => (p.method m).returns
  | .arg i => ((p.method m).params[i]?).map p.varTy

/-- The first error of the identifiers of a problem. -/
def check (t : TaintSpec) : Except String Unit := do
  for c in t.sinks do
    if c.index < 0 then
      throw ("sink " ++ c.text ++ " has a negative index " ++ toString c.index)
  for c in t.transfers do
    TaintSpec.checkTransfer c

/-- The transfers of a method by one identifier: none if a position does not exist. -/
def transferBy (p : Program) (m : MethodId) (c : CodeIdentifier) : Option Transfer :=
  match c.sourcePosition, c.targetPosition with
  | .ok source, .ok target =>
    some { method := m, source, target, ty := namedType p c.ty (positionType p m target) }
  | _, _ => none

/-- The methods of a program that a problem is about. -/
def resolve (p : Program) (t : TaintSpec) : Except String Rules := do
  check t
  let each {α : Type} (f : MethodId → String → String → List α) : List α :=
    (List.range p.methods.size).flatMap fun m => f m (p.className (p.method m).cls) (p.method m).name
  return {
    sources := each fun m cls name =>
      (t.sourcesOf cls name).map fun c => { method := m, ty := namedType p c.ty (p.method m).returns }
    sinks := each fun m cls name => (t.sinkIndices cls name).map fun i => { method := m, index := i.toNat }
    transfers := each fun m cls name => (t.transfersOf cls name).filterMap (transferBy p m) }

end Rules

end WholeProgram.Taint
