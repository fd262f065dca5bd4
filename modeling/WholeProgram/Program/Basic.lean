import WholeProgram.Program.Stmt

/-!
# Programs

A program is four tables (classes, fields, methods, variables) and its entry methods; everything
refers to everything else by position. While a program is built, its index is kept: the statements
through each variable, and the call sites and returned variables of each body (`Index`). The views of a
`Method` read the same off its body.

A *node* is a place of control in a method: the entry, a statement, or the exit. Nodes are numbered
from the entry at `0`; statement `i` is node `i + 1`.
-/

namespace WholeProgram

/-- A local variable. -/
structure Var where
  name : String
  ty : Ty
  method : MethodId
  /-- Position among the variables of its method. -/
  index : Nat
deriving DecidableEq, Repr, Inhabited

/-- A field of a class. -/
structure Field where
  name : String
  cls : ClassId
  ty : Ty
  isStatic : Bool
deriving DecidableEq, Repr, Inhabited

/-- A class or an interface. -/
structure Class where
  name : String
  super : Option ClassId
  interfaces : Array ClassId := #[]
  /-- Declared abstract; interfaces are too. -/
  isAbstract : Bool
  isInterface : Bool
  /-- The methods declared in the class, one per subsignature. -/
  methods : Array MethodId := #[]
  fields : Array FieldId := #[]
  /-- The classes that extend or implement this one directly. -/
  subclasses : Array ClassId := #[]
deriving DecidableEq, Repr, Inhabited

/-- A statement with its position in the source, as reports print it. -/
structure Instr where
  stmt : Stmt Nat
  pos : Option String
deriving DecidableEq, Repr, Inhabited

/-- A method. -/
structure Method where
  name : String
  cls : ClassId
  isStatic : Bool
  isAbstract : Bool
  subsig : String
  returns : Option Ty
  receiver : Option VarId
  params : Array VarId
  vars : Array VarId
  body : Array Instr
  pos : Option String
deriving DecidableEq, Repr, Inhabited

namespace Method

/-- The statement at position `i`. -/
def stmt? (m : Method) (i : Nat) : Option (Stmt Nat) := m.body[i]?.map (·.stmt)

/-- Number of nodes: the statements, the entry and the exit. -/
def numNodes (m : Method) : Nat := m.body.size + 2

/-- The number of the exit node. -/
def exit (m : Method) : Nat := m.body.size + 1

/-- The statement of a node; the entry and the exit do nothing. -/
def stmtAt (m : Method) (node : Nat) : Stmt Nat :=
  match node with
  | 0 => .nop
  | i + 1 => (m.stmt? i).getD .nop

/-- The positions of the statements that satisfy `p`, in order. -/
def positions (m : Method) (p : Stmt Nat → Bool) : List Nat :=
  (List.range m.body.size).filter fun i => (m.stmt? i).any p

/-- The call sites of the method, in order. -/
def callSites (m : Method) : List Nat := m.positions fun s => s.call?.isSome

/-- The variables that the method returns, each once, in order of first appearance. -/
def returnVars (m : Method) : List VarId :=
  m.body.toList.foldl
    (fun acc i =>
      match i.stmt with
      | .ret (some v) => if acc.contains v then acc else acc ++ [v]
      | _ => acc) []

/-- The variables that the method has to do with: its receiver, its parameters, and those that its
statements define or read. -/
def mentioned (m : Method) : List VarId :=
  m.receiver.toList ++ m.params.toList
    ++ m.body.toList.flatMap fun i => i.stmt.defined?.toList ++ i.stmt.uses

/-- The stores to a field of `x`. -/
def storeFieldsOn (m : Method) (x : VarId) : List Nat :=
  m.positions fun s => match s with | .storeField (some b) _ _ => b == x | _ => false

def loadFieldsOn (m : Method) (x : VarId) : List Nat :=
  m.positions fun s => match s with | .loadField _ (some b) _ => b == x | _ => false

def storeArraysOn (m : Method) (x : VarId) : List Nat :=
  m.positions fun s => match s with | .storeArray b _ _ => b == x | _ => false

def loadArraysOn (m : Method) (x : VarId) : List Nat :=
  m.positions fun s => match s with | .loadArray _ b _ => b == x | _ => false

/-- The calls whose receiver is `x`. -/
def callsOn (m : Method) (x : VarId) : List Nat :=
  m.positions fun s => match s with | .invoke _ c => c.base == some x | _ => false

end Method

/-- A place of control: a method and a node of it. -/
structure Node where
  method : MethodId
  node : Nat
deriving DecidableEq, Repr, Hashable, Inhabited

/-- A call site: a method and the position of the call in its body. -/
structure Site where
  method : MethodId
  index : Nat
deriving DecidableEq, Repr, Hashable, Inhabited

namespace Site

def node (s : Site) : Node := { method := s.method, node := s.index + 1 }

end Site

/-- What is noted down about a variable: the statements that go through it, in the order in which they
were added. -/
structure VarIndex where
  storeFields : Array Site := #[]
  loadFields : Array Site := #[]
  storeArrays : Array Site := #[]
  loadArrays : Array Site := #[]
  calls : Array Site := #[]
deriving DecidableEq, Repr, Inhabited

/-- What is noted down about a body. -/
structure BodyIndex where
  /-- The index that each statement got when it was added. -/
  indices : Array Int := #[]
  callSites : Array Nat := #[]
  /-- The returned variables, each once. -/
  returnVars : Array VarId := #[]
  /-- The index of the entry, once the body is finished. -/
  entry : Option Int := none
  exit : Option Int := none
deriving DecidableEq, Repr, Inhabited

/-- What is noted down while a program is built, for each variable and each method at its number. -/
structure Index where
  vars : Array VarIndex := #[]
  bodies : Array BodyIndex := #[]
deriving DecidableEq, Repr, Inhabited

/-- A whole program. -/
structure Program where
  classes : Array Class := #[]
  fields : Array Field := #[]
  methods : Array Method := #[]
  vars : Array Var := #[]
  entries : List MethodId := []
  index : Index := {}
deriving DecidableEq, Repr, Inhabited

namespace Program

def class? (p : Program) (c : ClassId) : Option Class := p.classes[c]?

/-- The class with this name. -/
def findClass? (p : Program) (name : String) : Option ClassId := p.classes.findIdx? (·.name == name)

def className (p : Program) (c : ClassId) : String := (p.classes[c]?.map (·.name)).getD ""

def method (p : Program) (m : MethodId) : Method := p.methods.getD m default

def varName (p : Program) (v : VarId) : String := (p.vars[v]?.map (·.name)).getD ""

def varTy (p : Program) (v : VarId) : Ty := (p.vars[v]?.map (·.ty)).getD default

/-- The variable holds integers. -/
def holdsInt (p : Program) (v : VarId) : Bool := (p.varTy v).holdsInt

/-- The super class of a class. -/
def superOf (p : Program) (c : ClassId) : Option ClassId := (p.class? c).bind (·.super)

def subclassesOf (p : Program) (c : ClassId) : List ClassId :=
  ((p.class? c).map (·.subclasses.toList)).getD []

/-- The class can have no objects of its own. -/
def isAbstractClass (p : Program) (c : ClassId) : Bool :=
  ((p.class? c).map fun d => d.isAbstract || d.isInterface).getD false

/-- The method that class `c` itself declares with this subsignature. -/
def declaredMethod? (p : Program) (c : ClassId) (subsig : String) : Option MethodId :=
  (p.class? c).bind fun d => d.methods.find? fun m => (p.method m).subsig == subsig

/-- The field that class `c` declares under this name. -/
def declaredField? (p : Program) (c : ClassId) (name : String) : Option FieldId :=
  (p.class? c).bind fun d => d.fields.find? fun f => (p.fields[f]?.map (·.name)) == some name

/-- The statement at a place. -/
def stmt? (p : Program) (s : Site) : Option (Stmt Nat) := (p.method s.method).stmt? s.index

/-- The call of a call site. -/
def callAt? (p : Program) (s : Site) : Option Call := (p.stmt? s).bind (·.call?)

/-- The variable that receives the result of a call site. -/
def resultOf? (p : Program) (s : Site) : Option VarId := (p.stmt? s).bind (·.defined?)

/-- The places of the statements that go through a variable, whatever their method. -/
def sitesThrough (p : Program) (v : VarId) : List Site :=
  (List.range p.methods.size).flatMap fun m =>
    ((p.method m).positions fun s => s.base? == some v).map fun i => { method := m, index := i }

/-- The call sites of a method. -/
def sitesIn (p : Program) (m : MethodId) : List Site :=
  (p.method m).callSites.map fun i => { method := m, index := i }

/-- The statement of a node. -/
def stmtAt (p : Program) (n : Node) : Stmt Nat := (p.method n.method).stmtAt n.node

/-- The methods that a selector names: `Class.method`, or `method` in any class. The last dot divides
the two. -/
def lookup (p : Program) (selector : String) : List MethodId :=
  let parts := selector.splitOn "."
  let name := parts.getLastD ""
  let owner := ".".intercalate parts.dropLast
  (List.range p.methods.size).filter fun m =>
    let d := p.method m
    d.name == name && (owner == "" || p.className d.cls == owner)

/-- The program with other entry methods. -/
def withEntries (p : Program) (entries : List MethodId) : Program := { p with entries }

end Program

end WholeProgram
