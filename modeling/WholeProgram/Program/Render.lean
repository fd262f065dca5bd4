import WholeProgram.Program.Basic

/-!
# Texts of programs

How types, expressions, statements and methods are printed in reports, messages and dumps.
-/

namespace WholeProgram.Program

def tyText (p : Program) (t : Ty) : String := t.text p.className

/-- A field with its class. -/
def fieldText (p : Program) (f : FieldId) : String :=
  match p.fields[f]? with
  | some d => p.className d.cls ++ "." ++ d.name
  | none => ""

def fieldName (p : Program) (f : FieldId) : String := (p.fields[f]?.map (·.name)).getD ""

/-- The class and the name of a method. -/
def methodText (p : Program) (m : MethodId) : String :=
  let d := p.method m
  p.className d.cls ++ "." ++ d.name

/-- The full signature of a method. -/
def signature (p : Program) (m : MethodId) : String :=
  let d := p.method m
  "<" ++ p.className d.cls ++ ": " ++ d.subsig ++ ">"

def refText (p : Program) (r : MethodRef) : String := "<" ++ p.className r.cls ++ ": " ++ r.subsig ++ ">"

def binaryText (p : Program) (op : BinaryOp) (x y : VarId) : String :=
  p.varName x ++ " " ++ op.text ++ " " ++ p.varName y

def callText (p : Program) (c : Call) : String :=
  let base := match c.base with | some b => p.varName b ++ "." | none => ""
  c.kind.word ++ " " ++ base ++ p.refText c.ref ++ "(" ++ ", ".intercalate (c.args.map p.varName) ++ ")"

def accessText (p : Program) (base : Option VarId) (f : FieldId) : String :=
  match base with
  | none => p.fieldText f
  | some b => p.varName b ++ "." ++ p.fieldName f

def arrayText (p : Program) (base index : VarId) : String := p.varName base ++ "[" ++ p.varName index ++ "]"

/-- The right-hand side of a statement that defines a variable. -/
def rvalueText? (p : Program) : Stmt Nat → Option String
  | .literal _ v => some (toString v.toInt)
  | .copy _ y => some (p.varName y)
  | .binary _ op x y => some (p.binaryText op x y)
  | .new _ t => some ("new " ++ p.tyText t)
  | .loadField _ b f => some (p.accessText b f)
  | .loadArray _ a i => some (p.arrayText a i)
  | .invoke _ c => some (p.callText c)
  | .unknown _ d _ => some ("opaque(" ++ d ++ ")")
  | .nop | .storeField _ _ _ | .storeArray _ _ _ | .branch _ _ _ _ | .jump _ | .switch _ _ _ | .ret _ => none

/-- The text of a statement. -/
def stmtText (p : Program) (s : Stmt Nat) : String :=
  let assigned (lhs : Option VarId) (rhs : String) : String :=
    match lhs with
    | some x => p.varName x ++ " = " ++ rhs
    | none => rhs
  match s with
  | .nop => "nop"
  | .literal _ _ | .copy _ _ | .binary _ _ _ _ | .new _ _ | .loadField _ _ _ | .loadArray _ _ _
  | .invoke _ _ | .unknown _ _ _ => assigned s.defined? ((p.rvalueText? s).getD "")
  | .storeField b f y => p.accessText b f ++ " = " ++ p.varName y
  | .storeArray a i y => p.arrayText a i ++ " = " ++ p.varName y
  | .branch op x y t => "if (" ++ p.binaryText op x y ++ ") goto " ++ toString t
  | .jump t => "goto " ++ toString t
  | .switch v cs d =>
    "switch (" ++ p.varName v ++ ") \x7b"
      ++ String.join (cs.map fun c => toString c.1.toInt ++ "->" ++ toString c.2 ++ ", ")
      ++ "default->" ++ toString d ++ "\x7d"
  | .ret none => "return"
  | .ret (some v) => "return " ++ p.varName v

/-- The text of a node. -/
def nodeText (p : Program) (n : Node) : String :=
  let m := p.method n.method
  if n.node = 0 then "[entry]"
  else if n.node = m.exit then "[exit]"
  else p.stmtText (m.stmtAt n.node)


/-- The index of a node as printed: statements count from zero, and the entry comes before them. -/
def nodeIndex (n : Nat) : Int := (n : Int) - 1

/-- The text of a node after its index. -/
def nodeLine (p : Program) (n : Node) : String := toString (nodeIndex n.node) ++ ": " ++ p.nodeText n

/-- The position of a node in the source, or its method and index when it has none. -/
def position (p : Program) (n : Node) : String :=
  let m := p.method n.method
  let pos :=
    if n.node = 0 ∨ n.node = m.exit then m.pos
    else (m.body[n.node - 1]?).bind (·.pos)
  match pos with
  | some text => text
  | none => p.methodText n.method ++ "[" ++ toString (nodeIndex n.node) ++ "]"

/-- A variable with its method. -/
def varText (p : Program) (v : VarId) : String :=
  match p.vars[v]? with
  | some d => p.methodText d.method ++ "/" ++ d.name
  | none => ""

/-- The text of a call site. -/
def siteText (p : Program) (s : Site) : String := p.nodeText s.node

end WholeProgram.Program
