import WholeProgram.Ssa.Program
import WholeProgram.Text.Digits
import WholeProgram.Text.Json.Value

/-!
# Programs as documents

The program in static single assignment form that a JSON document describes.
-/

namespace WholeProgram.Ssa

open Text (Json)

namespace Document

def binding (j : Json) : Binding := ((j.item 0).text, (j.item 1).nat)

def bindings (j : Json) : List Binding := j.list binding

def shape (j : Json) : Shape :=
  let elem := ((j.get "elems").item 0).nat
  match (j.get "k").text with
  | "basic" => .basic (.ofName (j.get "basic").text)
  | "named" =>
    .named ((j.get "pkg").option Json.text) (j.get "tparams").nat (j.get "targs").nat (j.get "underlying").nat
  | "pointer" => .pointer elem
  | "slice" => .slice elem
  | "array" => .array elem
  | "struct" => .struct (bindings (j.get "fields"))
  | "signature" =>
    .signature ((j.get "recv").option Json.nat) (j.get "tparams").nat (bindings (j.get "params"))
      (bindings (j.get "results"))
  | "interface" => .interface (j.get "num_methods").nat
  | "type_param" => .typeParam (j.get "underlying").nat
  | _ => .other

def sourceType (j : Json) : SourceType := { text := (j.get "s").text, shape := shape j }

def const (j : Json) : Const :=
  match (j.item 0).text with
  | "bool" => .bool (j.item 1).isTrue
  | "int" => match Text.integer? (j.item 1).text with
    | some n => .int n
    | none => .other
  | _ => if j.isNull then .zero else .other

def operand (j : Json) : Operand :=
  match (j.item 0).text with
  | "local" => .value (j.item 1).nat
  | "const" => .const (j.item 1).nat (const (j.item 2))
  | "global" => .global (j.item 1).nat
  | "func" => .func (j.item 1).nat
  | _ => .builtin (j.item 1).text

def callCommon (j : Json) : CallCommon where
  value := operand (j.get "value")
  args := (j.get "args").list operand
  sig := (j.get "sig").nat
  callee := (j.get "static_callee").option Json.nat
  method := (j.get "invoke").option fun m => ((m.get "name").text, (m.get "sig").nat)

def action (j : Json) : Action :=
  match (j.get "op").text with
  | "DebugRef" | "RunDefers" => .mark
  | "Alloc" | "MakeSlice" | "MakeMap" | "MakeChan" => .allocate
  | "Store" => .store
  | "UnOp" => .unary (.ofText (j.get "token").text)
  | "BinOp" => .binary (.ofText (j.get "token").text)
  | "FieldAddr" => .fieldAddr (j.get "field").nat
  | "IndexAddr" => .indexAddr
  | "Field" => .field (j.get "field").nat
  | "Index" => .index
  | "Call" => .call (callCommon (j.get "call"))
  | "Go" | "Defer" => .spawn (callCommon (j.get "call"))
  | "MakeInterface" | "ChangeType" | "ChangeInterface" | "SliceToArrayPointer" => .retype
  | "TypeAssert" => .typeAssert (j.get "comma_ok").isTrue
  | "Slice" => .slice
  | "Convert" => .convert
  | "MakeClosure" => .makeClosure
  | "Phi" => .phi
  | "Jump" => .jump
  | "If" => .branch
  | "Return" => .ret
  | "Panic" => .panic
  | _ => .other

def instr (j : Json) : Instruction where
  action := action j
  name := (j.get "op").text
  operands := (j.get "operands").list (Json.option operand)
  result := (j.get "value").option Json.nat
  pos := (j.get "pos").option Json.text

def block (j : Json) : Block where
  preds := (j.get "preds").list Json.nat
  succs := (j.get "succs").list Json.nat
  instrs := (j.get "instrs").list instr

def func (j : Json) : Func where
  name := (j.get "name").text
  sig := (j.get "sig").nat
  pkg := (j.get "pkg").option Json.text
  objectPkg := (j.get "object_pkg").option Json.text
  pos := (j.get "pos").option Json.text
  isInit := (j.get "init").isTrue
  params := (j.get "params").list Json.nat
  freeVars := (j.get "free_vars").list Json.nat
  anons := (j.get "anons").list Json.nat
  values := ((j.get "values").list binding).toArray
  blocks := (j.get "blocks").option fun bs => (bs.list block).toArray
  recover := (j.get "recover").option Json.nat

def member (j : Json) : String × Member :=
  let id := (j.item 2).nat
  ((j.item 0).text, match (j.item 1).text with
    | "func" => .func id
    | "global" => .global id
    | "type" => .type id
    | _ => .const)

def package (j : Json) : Package where
  path := (j.get "path").text
  name := (j.get "name").text
  initial := (j.get "initial").isTrue
  members := (j.get "members").list member

def selection (j : Json) : Selection where
  name := (j.get "name").text
  sig := (j.get "sig").nat
  depth := (j.get "depth").nat
  func := (j.get "func").option Json.nat
  wrapper := (j.get "wrapper").option Json.nat

end Document

/-- The program that a document describes. -/
def Program.ofDocument (j : Json) : Program where
  types := ((j.get "types").list Document.sourceType).toArray
  packages := (j.get "packages").list Document.package
  globals := ((j.get "globals").list fun g =>
    { name := (g.get "name").text, ty := (g.get "type").nat, pkg := (g.get "pkg").option Json.text }).toArray
  funcs := ((j.get "funcs").list Document.func).toArray
  methodSets := (j.get "method_sets").list fun m =>
    ((m.get "type").nat, (m.get "methods").list Document.selection)
  implementations := (j.get "implements").list fun p => ((p.item 0).nat, (p.item 1).nat)

end WholeProgram.Ssa
