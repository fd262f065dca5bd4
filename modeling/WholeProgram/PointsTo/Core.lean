import WholeProgram.Data.Queue
import WholeProgram.Dataflow.Error
import WholeProgram.PointsTo.Heap

/-!
# The state of the pointer analysis

The core holds the objects, the pointers with their points-to sets, the flow graph, the call graph, and
the worklist of objects that still have to flow into a pointer. Everything is made on demand and kept
in the order in which it was made. `addFlow` and `addPointsTo` are the two ways in which objects are
made to flow.
-/

namespace WholeProgram.PointsTo

/-- Things worth reporting, in order. -/
inductive Note where
  | grew (p : Pointer) (delta : IdSet)
  | unresolved (e : DispatchError)

/-- What the analysis knows. -/
structure Core where
  objs : Array Obj := #[]
  objIndex : Std.HashMap ObjKey ObjId := {}
  csObjs : Array CSObj := #[]
  csObjIndex : Std.HashMap CSObj CSObjId := {}
  /-- All pointers in the order in which they were made. -/
  pointers : Array Pointer := #[]
  sets : Std.HashMap Pointer IdSet := {}
  succs : Std.HashMap Pointer (Array Pointer) := {}
  numFlows : Nat := 0
  /-- The pointers with a flow edge, in the order of their first one. -/
  flowPointers : Array Pointer := #[]
  flowKnown : Std.HashSet Pointer := {}
  graph : CSCallGraph := {}
  /-- Methods that are reachable in some context. -/
  methods : Std.HashSet MethodId := {}
  /-- Objects that have to flow into a pointer. -/
  waiting : Queue (Pointer × IdSet) := .empty
  notes : Array Note := #[]

namespace Core

instance : Inhabited Core := ⟨{}⟩

def obj (s : Core) (o : ObjId) : Obj := s.objs.getD o default

def csObj (s : Core) (o : CSObjId) : CSObj := s.csObjs.getD o default

/-- The object of an object in a context. -/
def objOf (s : Core) (o : CSObjId) : Obj := s.obj (s.csObj o).obj

/-- The object in a context with this number. -/
def heapObj (s : Core) (o : CSObjId) : HeapObj := { ctx := (s.csObj o).ctx, obj := s.objOf o }

/-- The points-to set of a pointer. -/
def pointsTo (s : Core) (p : Pointer) : IdSet := (s.sets[p]?).getD ∅

def succsOf (s : Core) (p : Pointer) : Array Pointer := (s.succs[p]?).getD #[]

/-- The number of an object, which is made if it is new. -/
def internObj (s : Core) (o : Obj) : Core × ObjId :=
  match s.objIndex[o.key]? with
  | some i => (s, i)
  | none =>
    let i := s.objs.size
    ({ s with objs := s.objs.push o, objIndex := s.objIndex.insert o.key i }, i)

/-- The number of an object in a context, which is made if it is new. -/
def internCSObj (s : Core) (o : CSObj) : Core × CSObjId :=
  match s.csObjIndex[o]? with
  | some i => (s, i)
  | none =>
    let i := s.csObjs.size
    ({ s with csObjs := s.csObjs.push o, csObjIndex := s.csObjIndex.insert o i }, i)

/-- The number of an object in a heap context, which is made if it is new. -/
def internHeapObj (s : Core) (o : HeapObj) : Core × CSObjId :=
  let (s, i) := s.internObj o.obj
  s.internCSObj { ctx := o.ctx, obj := i }

/-- Makes a pointer if it is new. -/
def touch (s : Core) (p : Pointer) : Core :=
  if s.sets.contains p then s
  else { s with pointers := s.pointers.push p, sets := s.sets.insert p ∅ }

/-- Makes objects wait for a pointer. -/
def addPointsTo (s : Core) (p : Pointer) (objs : IdSet) : Core :=
  { s with waiting := s.waiting.push (p, objs) }

/-- Lists a pointer as one of the flow graph. -/
def listFlowPointer (s : Core) (p : Pointer) : Core :=
  if s.flowKnown.contains p then s
  else { s with flowPointers := s.flowPointers.push p, flowKnown := s.flowKnown.insert p }

/-- Adds an inclusion between two pointers. The objects that the source has already wait for the
target. -/
def addFlow (s : Core) (source target : Pointer) : Core :=
  let s := (s.touch source).touch target
  if (s.succsOf source).contains target then s
  else
    let s := { s with
      succs := s.succs.alter source fun ts => some ((ts.getD #[]).push target)
      numFlows := s.numFlows + 1 }
    let s := (s.listFlowPointer source).listFlowPointer target
    let held := s.pointsTo source
    if held.isEmpty then s else s.addPointsTo target held

def note (s : Core) (n : Note) : Core := { s with notes := s.notes.push n }

/-- Adds objects to a pointer; those that are new to it flow on, and are returned. -/
def propagate (s : Core) (p : Pointer) (objs : IdSet) : Core × IdSet :=
  let delta := objs.diff (s.pointsTo p)
  if delta.isEmpty then (s, delta)
  else
    let s := s.touch p
    let s := { s with sets := s.sets.insert p ((s.pointsTo p).union delta) }
    let s := s.note (.grew p delta)
    ((s.succsOf p).foldl (fun s t => s.addPointsTo t delta) s, delta)

end Core

end WholeProgram.PointsTo
