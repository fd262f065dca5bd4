import WholeProgram.PointsTo.Plugin

/-!
# Texts of contexts, objects and pointers
-/

namespace WholeProgram.PointsTo.Core

/-- A place in a method. -/
def placeText (p : Program) (s : Site) : String := p.methodText s.method ++ "[" ++ toString s.index ++ "]"

def objText (p : Program) (o : Obj) : String :=
  match o.key with
  | .alloc site =>
    let rhs := ((p.method site.method).stmt? site.index).bind p.rvalueText?
    "NewObj\x7b" ++ placeText p site ++ ":" ++ rhs.getD "" ++ "\x7d"
  | .mock desc source ty =>
    let source := match source with
      | .text s => s
      | .call s => placeText p s
    let ty := match ty with
      | some t => p.tyText t
      | none => "%!s(<nil>)"
    desc ++ "\x7b" ++ source ++ ":" ++ ty ++ "\x7d"

def elemText (p : Program) : Elem → String
  | .site c => placeText p c
  | .obj o => objText p o
  | .ty (some t) => p.tyText t
  | .ty none => "<nil>"

def contextText (p : Program) (c : Context) : String :=
  "[" ++ ", ".intercalate (c.map (elemText p)) ++ "]"

def heapObjText (p : Program) (o : HeapObj) : String := contextText p o.ctx ++ ":" ++ objText p o.obj

def csObjText (p : Program) (s : Core) (o : CSObjId) : String := heapObjText p (s.heapObj o)

def csMethodText (p : Program) (_ : Core) (m : CSMethod) : String :=
  contextText p m.ctx ++ ":" ++ p.methodText m.method

def csSiteText (p : Program) (_ : Core) (c : CSSite) : String :=
  contextText p c.ctx ++ ":" ++ placeText p c.site

def varText (p : Program) (_ : Core) (ctx : Context) (v : VarId) : String :=
  contextText p ctx ++ ":" ++ p.varText v

def pointerText (p : Program) (s : Core) : Pointer → String
  | .var ctx v => varText p s ctx v
  | .field o f => heapObjText p o ++ "." ++ p.fieldName f
  | .static f => p.fieldText f
  | .array o => heapObjText p o ++ "[*]"

def setText (p : Program) (s : Core) (objs : IdSet) : String :=
  "\x7b" ++ ", ".intercalate (objs.toList.map (csObjText p s)) ++ "\x7d"

def edgeText (p : Program) (s : Core) (e : CSEdge) : String :=
  "[" ++ e.kind.text ++ "] " ++ csSiteText p s e.site ++ " -> " ++ csMethodText p s e.callee

def eventText (p : Program) (s : Core) : Event → String
  | .start => "start"
  | .finish => "finish"
  | .newMethod m => "method " ++ p.methodText m
  | .newCSMethod m => "csmethod " ++ csMethodText p s m
  | .newPointsTo ctx v delta => "pts " ++ varText p s ctx v ++ " += " ++ setText p s delta
  | .newCallEdge e => "edge " ++ edgeText p s e

/-- The messages about a run. -/
def noteMessage (p : Program) (s : Core) : Note → Message
  | .grew q delta => { level := .trace, text := pointerText p s q ++ " += " ++ setText p s delta }
  | .unresolved e => { level := .warn, text := "ignoring unresolved call: " ++ e.message p }

end WholeProgram.PointsTo.Core
