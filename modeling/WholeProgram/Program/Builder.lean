import WholeProgram.Program.Render

/-!
# Building programs

A builder collects classes, fields, methods and bodies; `build` resolves the labels of the bodies and
checks the whole. Faults of the description are collected in the order in which they occur, and a
program comes out only when there is none.

A label is bound to the statement that is added next; bound again, it moves. Labels that wait at the
end of a body get a final `nop`.

Every operation that adds a variable, a method or a statement also writes it into the index of the
program (`Index.record`), which tells without a look through the bodies what goes through a variable.
-/

namespace WholeProgram

/-- A jump target of a body under construction, numbered within its method. A number says nothing about
a label that another method made, so a jump to one cannot be written down: bodies jump to their own labels. -/
abbrev Label := Nat

/-- What can be wrong with a description of a program. -/
inductive BuildError where
  | duplicateClass (name : String)
  | notInterface (cls iface : String)
  | duplicateField (cls field : String)
  | duplicateMethod (signature : String)
  | abstractBody (signature : String)
  | notCondition (signature : String) (op : BinaryOp)
  | switchArity (signature : String) (values targets : Nat)
  | unboundLabel (signature : String) (label : Label)
deriving DecidableEq, Repr

namespace BuildError

def message : BuildError → String
  | duplicateClass n => "duplicate class " ++ n
  | notInterface c i => c ++ " implements " ++ i ++ ", which is not an interface"
  | duplicateField c f => "duplicate field " ++ c ++ "." ++ f
  | duplicateMethod s => "duplicate method " ++ s
  | abstractBody s => "abstract method " ++ s ++ " has a body"
  | notCondition s op => s ++ ": if with non-condition operator " ++ op.text
  | switchArity s v t => s ++ ": switch with " ++ toString v ++ " values and " ++ toString t ++ " targets"
  | unboundLabel s l => s ++ ": label L" ++ toString l ++ " is never bound"

end BuildError

/-- A method under construction. The body of `header` stays empty until the program is built. -/
structure Draft where
  header : Method
  code : Array (Stmt Label × Option String) := #[]
  /-- The statement that each label is bound to. -/
  labels : Array (Option Nat) := #[]
  /-- Labels waiting for the next statement. -/
  pending : List Label := []
  /-- The source position of the statements that are added next. -/
  pos : Option String := none
deriving Inhabited

namespace Draft

/-- Appends a statement and binds the waiting labels to it. -/
def push (d : Draft) (s : Stmt Label) : Draft :=
  { d with
    labels := d.pending.foldl (fun ls l => ls.setIfInBounds l (some d.code.size)) d.labels
    pending := []
    code := d.code.push (s, d.pos) }

/-- The method of a draft, its jumps going to the statements that the labels are bound to. The number of
no label goes to the first statement; a draft whose jumps are to its own labels, all of them bound, has
no such number. -/
def toMethod (d : Draft) : Method :=
  let target (l : Label) : Nat := (d.labels[l]?.join).getD 0
  { d.header with body := d.code.map fun c => { stmt := c.1.mapTargets target, pos := c.2 } }

end Draft

/-- Notes down a statement of the body, with the index that it gets. -/
def BodyIndex.record (d : BodyIndex) (i : Nat) (s : Stmt Label) : BodyIndex :=
  let d := { d with indices := d.indices.push i }
  match s with
  | .invoke _ _ => { d with callSites := d.callSites.push i }
  | .ret (some v) => if d.returnVars.contains v then d else { d with returnVars := d.returnVars.push v }
  | _ => d

namespace Index

/-- Changes what is noted down about a variable. -/
def onVar (t : Index) (v : VarId) (f : VarIndex → VarIndex) : Index := { t with vars := t.vars.modify v f }

/-- Changes what is noted down about a body. -/
def onBody (t : Index) (m : MethodId) (f : BodyIndex → BodyIndex) : Index :=
  { t with bodies := t.bodies.modify m f }

/-- Notes down a statement that is added at a place, for its method and for the variable that it goes
through. -/
def record (t : Index) (site : Site) (s : Stmt Label) : Index :=
  let t := t.onBody site.method (·.record site.index s)
  match s with
  | .loadField _ (some v) _ => t.onVar v fun x => { x with loadFields := x.loadFields.push site }
  | .storeField (some v) _ _ => t.onVar v fun x => { x with storeFields := x.storeFields.push site }
  | .loadArray _ v _ => t.onVar v fun x => { x with loadArrays := x.loadArrays.push site }
  | .storeArray v _ _ => t.onVar v fun x => { x with storeArrays := x.storeArrays.push site }
  | .invoke _ c => c.base.elim t fun v => t.onVar v fun x => { x with calls := x.calls.push site }
  | _ => t

end Index

/-- A program under construction. -/
structure Builder where
  classes : Array Class := #[]
  fields : Array Field := #[]
  vars : Array Var := #[]
  drafts : Array Draft := #[]
  entries : List MethodId := []
  errors : Array BuildError := #[]
  index : Index := {}
deriving Inhabited

/-- The subsignature of a method: its name and parameter types. -/
def subsignature (className : ClassId → String) (name : String) (params : List Ty) : String :=
  name ++ "(" ++ ",".intercalate (params.map (Ty.text className)) ++ ")"

namespace Builder

def fail (b : Builder) (e : BuildError) : Builder := { b with errors := b.errors.push e }

def className (b : Builder) (c : ClassId) : String := (b.classes[c]?.map (·.name)).getD ""

def findClass? (b : Builder) (name : String) : Option ClassId := b.classes.findIdx? (·.name == name)

def header (b : Builder) (m : MethodId) : Method := (b.drafts[m]?.map (·.header)).getD default

def signature (b : Builder) (m : MethodId) : String :=
  "<" ++ b.className (b.header m).cls ++ ": " ++ (b.header m).subsig ++ ">"

/-! ## Classes and fields -/

/-- Records that `c` implements the interface `i`, or extends it when `c` is an interface itself. -/
def implement (b : Builder) (c i : ClassId) : Builder :=
  if ((b.classes[i]?.map (·.isInterface)).getD false) = false then
    b.fail (.notInterface (b.className c) (b.className i))
  else if ((b.classes[c]?.map (·.interfaces.contains i)).getD false) then
    b
  else
    let classes := b.classes.modify c fun d => { d with interfaces := d.interfaces.push i }
    { b with classes := classes.modify i fun d => { d with subclasses := d.subclasses.push c } }

/-- The forms of classes. -/
inductive ClassForm where
  | concrete | abstract | interface
deriving DecidableEq, Repr

/-- Adds a class. A name that is taken is a fault, and the class that has it is returned. -/
def addClass (b : Builder) (name : String) (form : ClassForm) (super : Option ClassId)
    (interfaces : List ClassId) : Builder × ClassId :=
  match b.findClass? name with
  | some c => (b.fail (.duplicateClass name), c)
  | none =>
    let c := b.classes.size
    let classes := b.classes.push
      { name, super, isAbstract := form != .concrete, isInterface := form == .interface }
    let classes := match super with
      | some s => classes.modify s fun d => { d with subclasses := d.subclasses.push c }
      | none => classes
    let b := { b with classes }
    (interfaces.foldl (fun b i => b.implement c i) b, c)

def findField? (b : Builder) (c : ClassId) (name : String) : Option FieldId :=
  (b.classes[c]?).bind fun d => d.fields.find? fun f => (b.fields[f]?.map (·.name)) == some name

/-- Declares a field. A name that is taken in the class is a fault, and its field is returned. -/
def addField (b : Builder) (c : ClassId) (name : String) (ty : Ty) (isStatic : Bool) : Builder × FieldId :=
  match b.findField? c name with
  | some f => (b.fail (.duplicateField (b.className c) name), f)
  | none =>
    let f := b.fields.size
    ({ b with
        fields := b.fields.push { name, cls := c, ty, isStatic }
        classes := b.classes.modify c fun d => { d with fields := d.fields.push f } }, f)

/-- The field of this name, declared as an instance field when there is none. -/
def ensureField (b : Builder) (c : ClassId) (name : String) (ty : Ty) : Builder × FieldId :=
  match b.findField? c name with
  | some f => (b, f)
  | none => b.addField c name ty false

/-! ## Methods -/

/-- Declares a variable of a method. -/
def addVar (b : Builder) (m : MethodId) (name : String) (ty : Ty) : Builder × VarId :=
  let v := b.vars.size
  let index := (b.header m).vars.size
  ({ b with
      vars := b.vars.push { name, ty, method := m, index }
      index := { b.index with vars := b.index.vars.push {} }
      drafts := b.drafts.modify m fun d => { d with header := { d.header with vars := d.header.vars.push v } } }, v)

/-- What `addMethod` needs to know. -/
structure MethodSpec where
  name : String
  isStatic : Bool := false
  isAbstract : Bool := false
  params : List (String × Ty) := []
  returns : Option Ty := none
  pos : Option String := none

/-- Adds a method without variables and statements. -/
def openMethod (b : Builder) (header : Method) : Builder :=
  { b with
    drafts := b.drafts.push { header }
    index := { b.index with bodies := b.index.bodies.push {} } }

/-- Declares a method of `c`: an instance method gets its receiver, then every method its parameters.
A subsignature that is taken in the class is a fault; the method is then in no class. -/
def addMethod (b : Builder) (c : ClassId) (spec : MethodSpec) : Builder × MethodId :=
  let m := b.drafts.size
  let subsig := subsignature b.className spec.name (spec.params.map (·.2))
  let b := b.openMethod
    { name := spec.name, cls := c, isStatic := spec.isStatic, isAbstract := spec.isAbstract, subsig
      returns := spec.returns, receiver := none, params := #[], vars := #[], body := #[]
      pos := spec.pos }
  let b :=
    if spec.isStatic then b
    else
      let (b, v) := b.addVar m "this" (.ref c)
      { b with drafts := b.drafts.modify m fun d => { d with header := { d.header with receiver := some v } } }
  let b := spec.params.foldl
    (fun b p =>
      let (b, v) := b.addVar m p.1 p.2
      { b with drafts := b.drafts.modify m fun d =>
          { d with header := { d.header with params := d.header.params.push v } } }) b
  let taken := ((b.classes[c]?.map (·.methods)).getD #[]).any fun k => (b.header k).subsig == subsig
  if taken then
    (b.fail (.duplicateMethod (b.signature m)), m)
  else
    ({ b with classes := b.classes.modify c fun d => { d with methods := d.methods.push m } }, m)

/-- The method that class `c` declares with this subsignature. -/
def declaredMethod? (b : Builder) (c : ClassId) (subsig : String) : Option MethodId :=
  (b.classes[c]?).bind fun d => d.methods.find? fun m => (b.header m).subsig == subsig

/-! ## Bodies -/

/-- A fresh label of the method. -/
def newLabel (b : Builder) (m : MethodId) : Builder × Label :=
  let l := (b.drafts[m]?.map (·.labels.size)).getD 0
  ({ b with drafts := b.drafts.modify m fun d => { d with labels := d.labels.push none } }, l)

/-- Binds a label to the statement that is added next. -/
def bind (b : Builder) (m : MethodId) (l : Label) : Builder :=
  { b with drafts := b.drafts.modify m fun d => { d with pending := l :: d.pending } }

/-- Sets the source position of the statements that are added next. -/
def setPos (b : Builder) (m : MethodId) (pos : Option String) : Builder :=
  { b with drafts := b.drafts.modify m fun d => { d with pos } }

/-- The place of the statement that is added next to a method. -/
def nextSite? (b : Builder) (m : MethodId) : Option Site :=
  b.drafts[m]?.map fun d => { method := m, index := d.code.size }

/-- Appends a statement to the body of a method and notes it down. -/
def append (b : Builder) (m : MethodId) (s : Stmt Label) : Builder :=
  { b with
    drafts := b.drafts.modify m (Draft.push · s)
    index := (b.nextSite? m).elim b.index (b.index.record · s) }

/-- Adds a statement to the body of a method. A body of an abstract method is a fault. -/
def add (b : Builder) (m : MethodId) (s : Stmt Label) : Builder :=
  let b := if (b.header m).isAbstract then b.fail (.abstractBody (b.signature m)) else b
  b.append m s

/-- Adds `if (x op y) goto target`. An operator that is no condition is a fault of the description;
one that is no operator at all ends the construction, with its number. -/
def addBranch (b : Builder) (m : MethodId) (op : BinaryOp) (x y : VarId) (target : Label) :
    Except Int Builder :=
  match op.family with
  | .error n => .error n
  | .ok f =>
    let b := if f = .condition then b else b.fail (.notCondition (b.signature m) op)
    .ok (b.add m (.branch op x y target))

/-- Adds a switch; the number of its values and targets must agree. -/
def addSwitch (b : Builder) (m : MethodId) (v : VarId) (values : List Int64) (targets : List Label)
    (default : Label) : Builder :=
  let b := if values.length = targets.length then b
    else b.fail (.switchArity (b.signature m) values.length targets.length)
  b.add m (.switch v (values.zip targets) default)

/-! ## The finished program -/

/-- Notes down the entry of a body, before its statements, and its exit, after them. -/
def sealBody (b : Builder) (m : MethodId) : Builder :=
  { b with index := (b.nextSite? m).elim b.index fun site =>
      b.index.onBody m fun d => { d with entry := some (-1), exit := some site.index } }

/-- Ends the body of a method: waiting labels get a final `nop`, and every label must be bound. -/
def finish (b : Builder) (m : MethodId) : Builder :=
  let waiting := (b.drafts[m]?.map (·.pending.isEmpty)).getD true
  let b := if waiting then b else b.add m .nop
  let labels := (b.drafts[m]?.map (·.labels)).getD #[]
  let b := (List.range labels.size).foldl
    (fun b l => if (labels[l]?.join).isNone then b.fail (.unboundLabel (b.signature m) l) else b) b
  b.sealBody m

/-- The program, or what is wrong with its description. Without entry methods set, the static methods
named `main` are the entry methods. -/
def build (b : Builder) : Except (Array BuildError) Program :=
  let b := (List.range b.drafts.size).foldl finish b
  if b.errors.isEmpty then
    let methods := b.drafts.map Draft.toMethod
    let mains := (List.range methods.size).filter fun m =>
      (methods[m]?.map fun d => d.isStatic && d.name == "main").getD false
    .ok
      { classes := b.classes, fields := b.fields, vars := b.vars, methods, index := b.index
        entries := if b.entries.isEmpty then mains else b.entries }
  else
    .error b.errors

end Builder

end WholeProgram
