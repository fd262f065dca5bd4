import WholeProgram.Text.Digits
import WholeProgram.Program.Builder

/-!
# Named descriptions of programs

A description names its classes, methods, variables and labels by text, the way a test or an
assembler source does; `Spec.assemble` gives the program it stands for. Classes come first, then
their relations and fields, then the methods, then the bodies.
-/

namespace WholeProgram

/-- The lines of a source file, for positions. -/
structure SourceFile where
  name : String
  size : Int
  /-- The offset at which each line starts. -/
  lines : List Int

namespace SourceFile

/-- Every line starts after the one before it, and in the file. -/
def isTable (size : Int) : List Int → Bool
  | [] => true
  | [start] => start < size
  | start :: next :: rest => start < size && start < next && isTable size (next :: rest)

/-- The line starts that count: a list that is no table counts for nothing, and all is one line. -/
def table (f : SourceFile) : List Int := if isTable f.size f.lines then f.lines else [0]

/-- What is wrong with the size of the file: it is negative, or the offsets do not fit into a word. -/
def fault? (f : SourceFile) : Option String :=
  if f.size < 0 then some ("invalid size " ++ toString f.size ++ " (should be >= 0)")
  else if Word.maxSigned < f.size + 2 then
    some "token.Pos offset overflow (> 2G of source code in file set)"
  else none

/-- The printed position of an offset; an offset past the end counts as the end. Before the first line
there is the file only, and a dash stands for nothing at all. -/
def position (f : SourceFile) (offset : Nat) : String :=
  let offset : Int := min offset f.size
  let before := f.table.takeWhile (· ≤ offset)
  match before.getLast? with
  | some start =>
    (if f.name.isEmpty then "" else f.name ++ ":") ++ toString before.length ++ ":" ++ toString (offset - start + 1)
  | none => if f.name.isEmpty then "-" else f.name

end SourceFile

namespace Spec

/-- A field of a described class. -/
structure FieldSpec where
  name : String
  ty : String
  isStatic : Bool
  /-- Declared only if the class has no field of this name yet. -/
  ensure : Bool

structure ClassSpec where
  name : String
  form : Builder.ClassForm
  super : Option String
  interfaces : List String
  fields : List FieldSpec

/-- A line of a body: a statement, a label or a position. -/
inductive Line where
  | nop
  | literal (x : String) (value : Int64)
  | copy (x y : String)
  | binary (x y : String) (op : BinaryOp) (z : String)
  | new (x ty : String)
  | load (x : String) (base : Option String) (cls field : String)
  | store (base : Option String) (cls field y : String)
  | loadArray (x a i : String)
  | storeArray (a i y : String)
  | call (result : Option String) (kind : CallKind) (cls subsig : String) (base : Option String)
      (args : List String)
  | branch (x : String) (op : BinaryOp) (y label : String)
  | jump (label : String)
  | switch (v : String) (values : List Int64) (labels : List String) (default : String)
  | ret (x : Option String)
  | unknown (x : Option String) (desc : String) (args : List String)
  | label (name : String)
  | pos (offset : Int)

structure MethodSpec where
  cls : String
  name : String
  isStatic : Bool
  isAbstract : Bool
  params : List (String × String)
  returns : Option String
  locals : List (String × String)
  pos : Option Int
  body : List Line

end Spec

/-- A described program. -/
structure Spec where
  classes : List Spec.ClassSpec
  implements : List (String × String)
  methods : List Spec.MethodSpec
  entries : Option (List Nat)
  entrySelector : Option String
  file : Option SourceFile

namespace Spec

/-- Why a description stands for no program. -/
inductive Error where
  /-- A name that nothing has. -/
  | unknownName (name : String)
  /-- An operator that does not exist. -/
  | unknownOperator (code : Int)
  /-- A source file that cannot be one. -/
  | badFile (fault : String)
  | invalid (errors : Array BuildError)

/-- Labels of a body by name, in order of first mention. -/
abbrev Labels := List (String × Label)

/-- Building, with the labels of the current body. -/
abbrev Assembly := StateT Builder (Except Error)

def orUnknown {α : Type} (name : String) : Option α → Assembly α
  | some a => pure a
  | none => throw (.unknownName name)

def classOf (name : String) : Assembly ClassId := do orUnknown name ((← get).findClass? name)

/-- The type that a text stands for: a primitive type, an array type, or a class. -/
def tyOf (findClass? : String → Option ClassId) : Nat → String → Option Ty
  | 0, _ => none
  | fuel + 1, text =>
    match Prim.declared.find? (·.text == text) with
    | some p => some (.prim p)
    | none =>
      let numbered :=
        if text.startsWith "primitive(" && text.endsWith ")" then
          Text.integer? ((text.drop 10).dropEnd 1).toString
        else none
      match numbered with
      | some n => some (.prim (Prim.ofCode n))
      | none =>
        if text.endsWith "[]" then (tyOf findClass? fuel (text.dropEnd 2).toString).map .array
        else (findClass? text).map .ref

def typeOf (text : String) : Assembly Ty := do
  orUnknown text (tyOf (← get).findClass? (text.length + 1) text)

/-- The variable of a method that a text names: the first of that name, or by its number after `#`. -/
def varOf (m : MethodId) (name : String) : Assembly VarId := do
  let b ← get
  let vars := (b.header m).vars
  match vars.find? fun v => (b.vars[v]?.map (·.name)) == some name with
  | some v => pure v
  | none =>
    if name.startsWith "#" then
      orUnknown name ((Text.integer? (name.drop 1).toString).bind fun i =>
        if 0 ≤ i then vars[i.toNat]? else none)
    else throw (.unknownName name)

def varOf? (m : MethodId) : Option String → Assembly (Option VarId)
  | none => pure none
  | some name => do return some (← varOf m name)

def fieldOf (cls field : String) : Assembly FieldId := do
  let c ← classOf cls
  orUnknown field ((← get).findField? c field)

/-- The label of a name, made when it is first mentioned. -/
def labelOf (m : MethodId) (labels : Labels) (name : String) : Assembly (Label × Labels) := do
  match labels.lookup name with
  | some l => return (l, labels)
  | none =>
    let (b, l) := (← get).newLabel m
    set b
    return (l, labels ++ [(name, l)])

def add (m : MethodId) (s : Stmt Label) : Assembly Unit := modify (·.add m s)

/-- The printed position of an offset of the description. -/
def positionOf (file : Option SourceFile) (offset : Option Int) : Option String :=
  match file, offset with
  | some f, some (.ofNat n) => some (f.position n)
  | _, _ => none

/-- Adds one line of a body. -/
def addLine (file : Option SourceFile) (m : MethodId) (labels : Labels) : Line → Assembly Labels
  | .nop => do add m .nop; return labels
  | .literal x v => do add m (.literal (← varOf m x) v); return labels
  | .copy x y => do add m (.copy (← varOf m x) (← varOf m y)); return labels
  | .binary x y op z => do
    let x ← varOf m x
    let y ← varOf m y
    add m (.binary x op y (← varOf m z))
    return labels
  | .new x t => do add m (.new (← varOf m x) (← typeOf t)); return labels
  | .load x base c f => do
    let x ← varOf m x
    let base ← varOf? m base
    add m (.loadField x base (← fieldOf c f))
    return labels
  | .store base c f y => do
    let base ← varOf? m base
    let f ← fieldOf c f
    add m (.storeField base f (← varOf m y))
    return labels
  | .loadArray x a i => do add m (.loadArray (← varOf m x) (← varOf m a) (← varOf m i)); return labels
  | .storeArray a i y => do add m (.storeArray (← varOf m a) (← varOf m i) (← varOf m y)); return labels
  | .call r kind c subsig base args => do
    let r ← varOf? m r
    let cls ← classOf c
    let base ← varOf? m base
    let args ← args.mapM (varOf m)
    let name := ((subsig.splitOn "(").head?).getD subsig
    add m (.invoke r { kind, ref := { cls, name, subsig }, base, args })
    return labels
  | .branch x op y l => do
    let x ← varOf m x
    let y ← varOf m y
    let (l, labels) ← labelOf m labels l
    match (← get).addBranch m op x y l with
    | .ok b => set b; return labels
    | .error n => throw (.unknownOperator n)
  | .jump l => do
    let (l, labels) ← labelOf m labels l
    add m (.jump l)
    return labels
  | .switch v values ls d => do
    let v ← varOf m v
    let (targets, labels) ← ls.foldlM
      (fun (acc : List Label × Labels) name => do
        let (l, labels) ← labelOf m acc.2 name
        return (acc.1 ++ [l], labels)) ([], labels)
    let (d, labels) ← labelOf m labels d
    modify (·.addSwitch m v values targets d)
    return labels
  | .ret x => do add m (.ret (← varOf? m x)); return labels
  | .unknown x desc args => do
    let x ← varOf? m x
    add m (.unknown x desc (← args.mapM (varOf m)))
    return labels
  | .label name => do
    let (l, labels) ← labelOf m labels name
    modify (·.bind m l)
    return labels
  | .pos offset => do
    modify (·.setPos m (positionOf file (some offset)))
    return labels

def addClass (c : ClassSpec) : Assembly Unit := do
  let super ← match c.super, c.form with
    | some s, .concrete | some s, .abstract => do pure (some (← classOf s))
    | _, _ => pure none
  let interfaces ← c.interfaces.mapM classOf
  modify fun b => (b.addClass c.name c.form super interfaces).1

def addField (cls : String) (f : FieldSpec) : Assembly Unit := do
  let c ← classOf cls
  let t ← typeOf f.ty
  modify fun b => if f.ensure then (b.ensureField c f.name t).1 else (b.addField c f.name t f.isStatic).1

def addMethod (file : Option SourceFile) (d : MethodSpec) : Assembly Unit := do
  let c ← classOf d.cls
  let params ← d.params.mapM fun p => do return (p.1, ← typeOf p.2)
  let returns ← match d.returns with
    | some t => do pure (some (← typeOf t))
    | none => pure none
  modify fun b => (b.addMethod c
    { name := d.name, isStatic := d.isStatic, isAbstract := d.isAbstract, params, returns
      pos := positionOf file d.pos }).1

def addBody (file : Option SourceFile) (m : MethodId) (d : MethodSpec) : Assembly Unit := do
  for l in d.locals do
    let t ← typeOf l.2
    modify fun b => (b.addVar m l.1 t).1
  let _ ← d.body.foldlM (addLine file m) []

/-- Everything but the final check. -/
def assembly (s : Spec) : Assembly Unit := do
  match s.file.bind SourceFile.fault? with
  | some fault => throw (.badFile fault)
  | none => pure ()
  for c in s.classes do
    addClass c
  for (c, i) in s.implements do
    let c ← classOf c
    let i ← classOf i
    modify (·.implement c i)
  for c in s.classes do
    for f in c.fields do
      addField c.name f
  for d in s.methods do
    addMethod s.file d
  for (d, m) in s.methods.zipIdx do
    addBody s.file m d
  match s.entries with
  | some es =>
    for e in es do
      if s.methods.length ≤ e then throw (.unknownName (toString e))
    modify fun b => { b with entries := es }
  | none => pure ()

/-- The program that a description stands for. -/
def assemble (s : Spec) : Except Error Program := do
  let ((), b) ← (assembly s).run {}
  match b.build with
  | .error errors => throw (.invalid errors)
  | .ok p =>
    match s.entrySelector with
    | some selector => return p.withEntries (p.lookup selector)
    | none => return p

end Spec

end WholeProgram
