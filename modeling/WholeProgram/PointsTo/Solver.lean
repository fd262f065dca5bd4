import WholeProgram.CallGraph.Hierarchy
import WholeProgram.PointsTo.Plugin

/-!
# The solver of the pointer analysis

The solver is a machine that takes one small step after another. Its agenda holds what has to be done
before the next entry of the worklist: methods that became reachable, the rest of a method body, the
callees of a call, the objects that are new to a variable. With an empty agenda it takes the next entry
of the worklist; with an empty worklist it is done.

`Machine.step` is one step, `Machine.run` takes steps until the machine stops.
-/

namespace WholeProgram.PointsTo

structure Options where
  selector : Selector := {}
  /-- Bound on the number of worklist entries; not positive for none. -/
  limit : Int := 0
  /-- Skip calls that cannot be resolved. -/
  ignoreUnresolved : Bool := false

/-- What is left to do. -/
inductive Task where
  /-- A method shall be reachable. -/
  | reach (m : CSMethod)
  /-- The body of a reachable method from a statement on. -/
  | body (m : CSMethod) (index : Nat)
  /-- Callees of a call without receiver. -/
  | callees (site : CSSite) (call : Call) (rest : List MethodId)
  /-- A new edge whose callee is reachable by now. -/
  | connect (e : CSEdge)
  /-- Objects that are new to a variable. -/
  | objects (ctx : Context) (v : VarId) (rest : List CSObjId)
  /-- Calls on a variable, for one new receiver object. -/
  | calls (ctx : Context) (recv : CSObjId) (rest : List Site)

/-- The state of the machine. -/
structure Machine (π : Type) where
  core : Core := {}
  plugin : π
  agenda : List Task := []
  iterations : Nat := 0

/-- Why the machine stopped. -/
inductive Halt where
  | done
  | failed (e : AnalysisError)

/-- A machine after a step, and the error if the step failed. -/
abbrev Stepped (π : Type) := Machine π × Option AnalysisError

namespace Machine

variable {π : Type}

/-- A step that went well. -/
def fine (s : Machine π) : Stepped π := (s, none)

/-- What a run is about. -/
structure Setting (π : Type) where
  program : Program
  options : Options
  plugin : Plugin π

/-- Tells the plugin of an event and carries out what it asks for. -/
def notify (S : Setting π) (e : Event) (s : Machine π) : Machine π :=
  let (plugin, requests) := S.plugin.handle e s.core s.plugin
  { s with plugin, core := s.core.carryOutAll requests }

/-- Carries out requests of a rule. -/
def request (requests : List Request) (s : Machine π) : Machine π :=
  { s with core := s.core.carryOutAll requests }

/-- Puts tasks before all others. -/
def push (tasks : List Task) (s : Machine π) : Machine π := { s with agenda := tasks ++ s.agenda }

/-- Adds a call edge; a new one makes its callee reachable and is connected after that. -/
def addCallEdge (kind : CallKind) (site : CSSite) (callee : CSMethod) (s : Machine π) : Machine π :=
  match s.core.graph.addEdge kind site callee with
  | (_, false) => s
  | (graph, true) =>
    -- The callee is reachable before anything flows along the edge.
    { s with core := { s.core with graph } }.push [.reach callee, .connect { kind, site, callee }]

/-- Makes a method reachable. -/
def reach (S : Setting π) (m : CSMethod) (s : Machine π) : Machine π :=
  match s.core.graph.addReachable m with
  | (_, false) => s
  | (graph, true) =>
    let s := { s with core := { s.core with graph } }
    let s :=
      if s.core.methods.contains m.method then s
      else
        { s with core := { s.core with methods := s.core.methods.insert m.method } }.notify S
          (.newMethod m.method)
    (s.notify S (.newCSMethod m)).push [.body m 0]

/-- A call that cannot be resolved: an error, or a note if such calls are skipped. -/
def unresolved (S : Setting π) (e : DispatchError) (s : Machine π) : Stepped π :=
  if S.options.ignoreUnresolved then
    fine { s with core := s.core.note (.unresolved e) }
  else
    (s, some (.dispatch e))

/-- What a statement of a reachable method asks for by itself. -/
def stmtRequests (sel : Selector) (m : CSMethod) (index : Nat) : Stmt Nat → List Request
  | .new x t => [.pointTo m.ctx x [(sel.heapContext m.ctx, Obj.ofAlloc { method := m.method, index } t)]]
  | .copy x y => [.flow (.var m.ctx y) (.var m.ctx x)]
  | .loadField x none f => [.flow (.static f) (.var m.ctx x)]
  | .storeField none f y => [.flow (.var m.ctx y) (.static f)]
  | _ => []

/-- The rule of a statement that does not depend on what its variables point to. -/
def processStmt (S : Setting π) (m : CSMethod) (index : Nat) (stmt : Stmt Nat) (s : Machine π) :
    Stepped π :=
  match stmt with
  | .invoke _ call =>
    match call.base with
    | some _ => fine s
    | none =>
      let site : Site := { method := m.method, index }
      match S.program.resolve site call with
      | .error code => (s, some (.unknownCallKind code))
      | .ok r =>
        -- The callees found before an error count when the error is skipped.
        let s := s.push [.callees { ctx := m.ctx, site } call r.callees]
        match r.error with
        | some e => s.unresolved S e
        | none => fine s
  | _ => fine (s.request (stmtRequests S.options.selector m index stmt))

/-- The flow of a field or array access, for an object of its base. -/
def accessFlow? (ctx : Context) (o : HeapObj) : Stmt Nat → Option Request
  | .storeField (some _) f y => some (.flow (.var ctx y) (.field o f))
  | .loadField x (some _) f => some (.flow (.field o f) (.var ctx x))
  | .storeArray _ _ y => some (.flow (.var ctx y) (.array o))
  | .loadArray x _ _ => some (.flow (.array o) (.var ctx x))
  | _ => none

/-- The forms of accesses, in the order in which they are looked at. -/
def accessForms : List String := ["StoreField", "LoadField", "StoreArray", "LoadArray"]

/-- What the field and array accesses through a variable ask for, for an object that is new to it. -/
def accessRequests (p : Program) (ctx : Context) (v : VarId) (o : HeapObj) : List Request :=
  let accesses := (p.sitesThrough v).filterMap p.stmt?
  accessForms.flatMap fun form => (accesses.filter (·.form == form)).filterMap (accessFlow? ctx o)

/-- The method that a call runs on a receiver object. Special calls start from the class they name,
all others from the class of the object; an object that is of no class runs none, and neither does an
object of a client whose class has no such method. -/
def calleeOn (p : Program) (recv : Obj) (site : Site) (call : Call) : Except DispatchError (Option MethodId) :=
  let start : Option ClassId :=
    if call.kind = .special then some call.ref.cls
    else match recv.ty with
      | some (.ref c) => some c
      | _ => none
  match start with
  | none => .ok none
  | some c =>
    match p.dispatch c call.ref.subsig with
    | some m => .ok (some m)
    | none =>
      if recv.isMock then .ok none
      else .error { kind := call.kind, cls := c, subsig := call.ref.subsig, site := some site }

/-- The method that a call on an object runs, in the context that the object gives it. -/
def calleeIn (p : Program) (sel : Selector) (ctx : Context) (site : Site) (o : HeapObj) (m : MethodId) :
    CSMethod :=
  { ctx := sel.instanceContext ctx site o.ctx o.obj (o.obj.containerType p), method := m }

/-- The receiver of a method points to the object that it is called on. -/
def receiverRequests (p : Program) (m : CSMethod) (o : HeapObj) : List Request :=
  match (p.method m.method).receiver with
  | some r => [.pointTo m.ctx r [(o.ctx, o.obj)]]
  | none => []

/-- One call on a variable, for a new receiver object. -/
def processCall (S : Setting π) (ctx : Context) (site : Site) (recv : CSObjId) (s : Machine π) :
    Stepped π :=
  match S.program.callAt? site with
  | none => fine s
  | some call =>
    let o := s.core.heapObj recv
    match calleeOn S.program o.obj site call with
    | .error e => s.unresolved S e
    | .ok none => fine s
    | .ok (some m) =>
      let callee := calleeIn S.program S.options.selector ctx site o m
      -- The object flows into the receiver even if the edge is there already.
      let s := s.request (receiverRequests S.program callee o)
      fine (s.addCallEdge call.kind { ctx, site } callee)

/-- The flows of a call edge: arguments into parameters, returned variables into the result. -/
def linkRequests (p : Program) (e : CSEdge) : List Request :=
  match p.stmt? e.site.site with
  | some (.invoke result call) =>
    let callee := p.method e.callee.method
    ((call.args.zip callee.params.toList).map fun b => .flow (.var e.site.ctx b.1) (.var e.callee.ctx b.2))
      ++ result.toList.flatMap fun x =>
        callee.returnVars.map fun r => .flow (.var e.callee.ctx r) (.var e.site.ctx x)
  | _ => []

/-- Connects a call edge. -/
def connect (S : Setting π) (e : CSEdge) (s : Machine π) : Machine π :=
  (s.request (linkRequests S.program e)).notify S (.newCallEdge e)

/-- Carries out the first task of the agenda, which is already taken off. -/
def perform (S : Setting π) (s : Machine π) : Task → Stepped π
  | .reach m => fine (s.reach S m)
  | .body m i =>
    match (S.program.method m.method).stmt? i with
    | none => fine s
    | some stmt => (s.push [.body m (i + 1)]).processStmt S m i stmt
  | .callees _ _ [] => fine s
  | .callees site call (m :: rest) =>
    let ctx := S.options.selector.staticContext site.ctx site.site
    fine ((s.push [.callees site call rest]).addCallEdge call.kind site { ctx, method := m })
  | .connect e => fine (s.connect S e)
  | .objects _ _ [] => fine s
  | .objects ctx v (o :: rest) =>
    let s := s.request (accessRequests S.program ctx v (s.core.heapObj o))
    fine (s.push [.calls ctx o (S.program.sitesThrough v), .objects ctx v rest])
  | .calls _ _ [] => fine s
  | .calls ctx o (site :: rest) => (s.push [.calls ctx o rest]).processCall S ctx site o

/-- Takes the next entry of the worklist. -/
def takeEntry (S : Setting π) (p : Pointer) (objs : IdSet) (s : Machine π) : Machine π :=
  let (core, delta) := s.core.propagate p objs
  let s := { s with core }
  if delta.isEmpty then s
  else
    match p with
    | .var ctx v => (s.notify S (.newPointsTo ctx v delta)).push [.objects ctx v delta.toList]
    | _ => s

/-- One step of the machine. -/
def step (S : Setting π) (s : Machine π) : Machine π × Option Halt :=
  match s.agenda with
  | task :: rest =>
    match perform S { s with agenda := rest } task with
    | (s, none) => (s, none)
    | (s, some e) => (s, some (.failed e))
  | [] =>
    match s.core.waiting.pop? with
    | none => (s, some .done)
    | some ((p, objs), waiting) =>
      let s := { s with iterations := s.iterations + 1 }
      if 0 < S.options.limit ∧ S.options.limit < s.iterations then
        (s, some (.failed (.iterationLimit S.options.limit "worklist entries")))
      else
        ({ s with core := { s.core with waiting } }.takeEntry S p objs, none)

/-- Steps until the machine stops. A machine that never stops has no outcome. -/
def run (S : Setting π) (s : Machine π) : Option (Machine π × Halt) :=
  match s.step S with
  | (t, some h) => some (t, h)
  | (t, none) => by
    apply run
    · exact S
    · exact t
partial_fixpoint

/-- The machine before its first step: the plugin was told of the start, and the entry methods are to
become reachable in the empty context. -/
def begin (S : Setting π) : Machine π :=
  let entry (m : MethodId) : CSMethod := { ctx := [], method := m }
  let s : Machine π := { plugin := S.plugin.initial }
  let s := s.notify S .start
  let graph := S.program.entries.foldl (fun g m => g.addEntry (entry m)) s.core.graph
  { s with core := { s.core with graph }, agenda := S.program.entries.map fun m => .reach (entry m) }

end Machine

end WholeProgram.PointsTo
