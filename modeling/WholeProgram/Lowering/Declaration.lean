import Std.Data.HashMap
import WholeProgram.Data.IdSet
import WholeProgram.Program.Builder
import WholeProgram.Ssa.Program

/-!
# Declaring what a source program mentions

Types become classes, packages become classes with static members, functions become methods. Everything
is declared when it is first mentioned, and once. Functions of the packages to be lowered wait for their
bodies; all others stay without one.
-/

namespace WholeProgram.Lowering

open Ssa (TypeId FuncId GlobalId Basic)

/-- What is lowered. -/
structure Setting where
  source : Ssa.Program
  /-- The packages to lower besides those asked for. -/
  admits : String → Bool

namespace Setting

def types (S : Setting) : Ssa.Types := S.source.types

/-- Functions of the package get bodies. -/
def lowers (S : Setting) (path : String) : Bool :=
  S.source.packages.any (fun p => p.initial && p.path == path) || S.admits path

end Setting

/-- What has been declared so far. -/
structure State where
  builder : Builder := {}
  classes : Std.HashMap String ClassId := {}
  /-- The classes of named types, in order. -/
  named : Array (ClassId × TypeId) := #[]
  /-- The interfaces with the types that list their methods, in order. -/
  interfaces : Array (ClassId × TypeId) := #[]
  /-- Classes that declare all methods of their type. -/
  dispatchable : IdSet := ∅
  /-- Classes of named types of which there are objects. -/
  allocated : IdSet := ∅
  methods : Std.HashMap FuncId MethodId := {}
  globals : Std.HashMap GlobalId FieldId := {}
  /-- Functions that wait for their bodies. -/
  waiting : List (FuncId × MethodId) := []
  /-- The initializers of the packages. -/
  inits : List MethodId := []
  mains : List MethodId := []
  functions : Nat := 0
  stubs : Nat := 0

abbrev Lower := ReaderT Setting (StateM State)

def types : Lower Ssa.Types := do return (← read).types

/-- Changes the builder and returns what the change made. -/
def build {α : Type} (f : Builder → Builder × α) : Lower α :=
  modifyGet fun s => let (builder, a) := f s.builder; (a, { s with builder })

/-! ## Classes -/

/-- The class with this name; a new one is made in the given form and listed by `enlist`. -/
def classNamed (name : String) (form : Builder.ClassForm) (enlist : ClassId → State → State) :
    Lower ClassId := do
  match (← get).classes[name]? with
  | some c => return c
  | none =>
    let c ← build (·.addClass name form none [])
    modify fun s => enlist c { s with classes := s.classes.insert name c }
    return c

/-- The class that stands for a type. -/
def classFor (t : TypeId) : Lower ClassId := do
  let ts ← types
  classNamed (ts.text t) .concrete fun c s =>
    match ts.shape t with
    | .named _ _ _ _ => { s with named := s.named.push (c, t) }
    | _ => s

/-- The interface that stands for a type whose methods `iface` lists. -/
def interfaceFor (t iface : TypeId) : Lower ClassId := do
  classNamed ((← types).text t) .interface fun c s => { s with interfaces := s.interfaces.push (c, iface) }

/-- The class of functions that belong to no package. -/
def syntheticPackage : String := "<synthetic>"

/-- The class of the functions and globals of a package. -/
def packageClass (path : Option String) : Lower ClassId :=
  classNamed (match path with | none | some "" => syntheticPackage | some p => p) .concrete fun _ s => s

/-- The type of the variables that hold values of a source type. Truth values and integers are
primitive, slices and arrays are arrays, a pointer to a structure or an array is what it points to, and
all others are classes. -/
def typeOf : Nat → TypeId → Lower Ty
  | 0, t => return .ref (← classFor t)
  | fuel + 1, t => do
    let ts ← types
    match ts.shape t with
    | .basic .boolean => return .prim .boolean
    | .basic (.integer _ _) => return .prim .long
    | .basic (.float (some 4)) => return .prim .float
    | .basic (.float (some 8)) => return .prim .double
    | .named _ _ _ u =>
      match ts.shape u with
      | .basic .boolean | .basic (.integer _ _) | .basic (.float _) => typeOf fuel u
      | .interface _ => return .ref (← interfaceFor t u)
      | _ => return .ref (← classFor t)
    | .pointer e => if ts.isCellOf e then return .ref (← classFor t) else typeOf fuel e
    | .slice e | .array e => return .array (← typeOf fuel e)
    | .interface _ => return .ref (← interfaceFor t t)
    | _ => return .ref (← classFor t)

/-- The type of variables; the parts of a type are fewer than the types there are. -/
def tyOf (t : TypeId) : Lower Ty := do typeOf ((← types).size + 1) t

/-- The class of the values of a type, also of a primitive one. -/
def classOf (t : TypeId) : Lower ClassId := do
  match ← tyOf t with
  | .ref c => return c
  | _ => classFor t

/-- The class that declares the methods with a receiver of this type. -/
def receiverClass (t : TypeId) : Lower ClassId := do
  let ts ← types
  let t := ts.deref t
  match ts.shape t with
  | .named _ _ _ u =>
    match ts.shape u with
    | .interface _ => interfaceFor t u
    | _ => classFor t
  | _ => classOf t

/-! ## Fields -/

/-- The field at an index of a structure, or of the structure that a pointer points to. -/
def fieldOf (t : TypeId) (index : Nat) : Lower FieldId := do
  let ts ← types
  let t := ts.deref t
  let (name, ty) := match ts.under t with
    | .struct fields => fields.getD index ("", 0)
    | _ => ("", 0)
  let c ← classOf t
  let ty ← tyOf ty
  build (·.ensureField c name ty)

/-- The field that holds what a pointer of this type points to. -/
def cellField (ptr elem : TypeId) : Lower FieldId := do
  let c ← classFor ptr
  let ty ← tyOf elem
  build (·.ensureField c "value" ty)

/-- The static field of a global. -/
def globalField (g : GlobalId) : Lower FieldId := do
  match (← get).globals[g]? with
  | some f => return f
  | none =>
    let d := (← read).source.global g
    let c ← packageClass d.pkg
    let f ← match (← get).builder.findField? c d.name with
      | some f => pure f
      | none =>
        let ty ← tyOf ((← types).deref d.ty)
        build (·.addField c d.name ty true)
    modify fun s => { s with globals := s.globals.insert g f }
    return f

/-! ## Methods -/

/-- The types of the parameters of a signature. -/
def paramTypes (sig : TypeId) : Lower (List Ty) := do ((← types).params sig).mapM fun p => tyOf p.2

/-- The subsignature of a method, without its receiver. -/
def subsignatureOf (name : String) (sig : TypeId) : Lower String := do
  let params ← paramTypes sig
  return subsignature (← get).builder.className name params

/-- Declares a method with the given names of parameters. A single result is returned. -/
def declare (c : ClassId) (name : String) (sig : TypeId) (names : List String) (isStatic : Bool)
    (pos : Option String) : Lower MethodId := do
  let params ← paramTypes sig
  let returns ← match (← types).results sig with
    | [r] => do pure (some (← tyOf r.2))
    | _ => pure none
  build (·.addMethod c { name, isStatic, params := names.zip params, returns, pos })

/-- The names of parameters; those without one are numbered. -/
def paramNames (params : List Ssa.Binding) : List String :=
  params.zipIdx.map fun (p, i) => if p.1.isEmpty || p.1 == "_" then "p" ++ toString i else p.1

/-- The method of a function, declared if it is new. It waits for its body if its package is lowered
and it has one. -/
def methodFor (f : FuncId) : Lower MethodId := do
  match (← get).methods[f]? with
  | some m => return m
  | none =>
    let S ← read
    let d := S.source.func f
    let owner := S.source.owner? f
    let receiver := S.types.receiver? d.sig
    let c ← match receiver with
      | none => packageClass owner
      | some r => receiverClass r
    let subsig ← subsignatureOf d.name d.sig
    match (← get).builder.declaredMethod? c subsig with
    | some m =>
      modify fun s => { s with methods := s.methods.insert f m }
      return m
    | none =>
      let params := S.types.params d.sig
      let offset := if receiver.isSome then 1 else 0
      let complete := d.params.length == params.length + offset
      let names := if complete then (d.params.drop offset).map d.valueName else paramNames params
      let m ← declare c d.name d.sig names receiver.isNone d.pos
      modify fun s => { s with methods := s.methods.insert f m }
      if d.blocks.isSome && S.lowers (owner.getD "") && complete then
        modify fun s => { s with waiting := s.waiting ++ [(f, m)] }
      else
        modify fun s => { s with stubs := s.stubs + 1 }
      return m

/-! ## Packages -/

/-- Declares a member of a package. Generic functions and types are declared by their instances. -/
def declareMember (pkg : Ssa.Package) (name : String) : Ssa.Member → Lower Unit
  | .func f => do
    let S ← read
    if S.types.isGeneric (S.source.func f).sig then return
    let m ← methodFor f
    if name == "init" then
      modify fun s => { s with inits := s.inits ++ [m] }
    else if name == "main" && pkg.name == "main" then
      modify fun s => { s with mains := s.mains ++ [m] }
  | .global g => do
    let _ ← globalField g
  | .type t => do
    let S ← read
    match S.types.shape t with
    | .named _ 0 _ u =>
      match S.types.shape u with
      | .interface _ =>
        let _ ← interfaceFor t u
      | _ =>
        let c ← receiverClass t
        modify fun s => { s with dispatchable := s.dispatchable.insert c }
        for sel in S.source.methodsOf t do
          match sel.implementation? with
          | some f =>
            let _ ← methodFor f
          | none => pure ()
    | _ => return
  | .const => return

def declarePackage (pkg : Ssa.Package) : Lower Unit := do
  let _ ← packageClass (some pkg.path)
  for (name, member) in pkg.members do
    declareMember pkg name member

/-- Declares the methods of named types from elsewhere of which there are objects, so that calls on
these can be dispatched. -/
def declareAllocated : Lower Unit := do
  let S ← read
  for (c, t) in (← get).named do
    let s ← get
    if s.allocated.contains c && !s.dispatchable.contains c then
      set { s with dispatchable := s.dispatchable.insert c }
      let instantiated := match S.types.shape t with
        | .named _ tparams targs _ => tparams == 0 || targs != 0
        | _ => true
      if instantiated then
        for sel in S.source.methodsOf t do
          let subsig ← subsignatureOf sel.name sel.sig
          if ((← get).builder.declaredMethod? c subsig).isNone then
            let _ ← declare c sel.name sel.sig (paramNames (S.types.params sel.sig)) false none
            modify fun s => { s with stubs := s.stubs + 1 }

/-- Records which dispatchable classes implement which interfaces. -/
def recordImplementations : Lower Unit := do
  let S ← read
  let s ← get
  for (ic, iface) in s.interfaces do
    let empty := match S.types.shape iface with
      | .interface n => n == 0
      | _ => true
    if !empty then
      for (c, t) in s.named do
        if s.dispatchable.contains c && S.source.implements t iface then
          build fun b => (b.implement c ic, ())

end WholeProgram.Lowering
