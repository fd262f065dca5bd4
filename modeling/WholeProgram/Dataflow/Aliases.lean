import WholeProgram.Dataflow.Interprocedural
import WholeProgram.PointsTo.Analysis

/-!
# Constants through the heap

Interprocedural constant propagation in which a load from a field or an array has the join of the values
stored into its aliases. Two accesses are aliases when they are to the same static field, to the same
field of a common object, or to a common array at indexes that may be equal.
-/

namespace WholeProgram.Aliases

/-- Two index values may be the same index. An undefined one is no index. -/
def indexMayAlias : Value → Value → Bool
  | .undefined, _ | _, .undefined => false
  | .nac, _ | _, .nac => true
  | .const a, .const b => a == b

/-- What a statement does to the heap: the place it accesses, if it is a load or a store. -/
inductive Place where
  | static (f : FieldId)
  | field (base : VarId) (f : FieldId)
  | array (base : VarId)

/-- The place that a statement loads from. -/
def loadPlace? : Stmt Nat → Option Place
  | .loadField _ none f => some (.static f)
  | .loadField _ (some b) f => some (.field b f)
  | .loadArray _ b _ => some (.array b)
  | _ => none

/-- The place that a statement stores to. -/
def storePlace? : Stmt Nat → Option Place
  | .storeField none f _ => some (.static f)
  | .storeField (some b) f _ => some (.field b f)
  | .storeArray b _ _ => some (.array b)
  | _ => none

/-- The number of ways in which two places are one: the common objects, each once; a static field is one
with itself in one way. -/
def overlap (pointsTo : VarId → IdSet) : Place → Place → List Nat
  | .static f, .static g => if f = g then [0] else []
  | .field b f, .field c g => if f = g then ((pointsTo b).inter (pointsTo c)).toList else []
  | .array b, .array c => ((pointsTo b).inter (pointsTo c)).toList
  | _, _ => []

/-- An access of the heap: the number of its node, its statement and its place. -/
structure Access where
  node : Nat
  stmt : Stmt Nat
  place : Place

/-- The loads and the stores of a supergraph, by node. -/
structure Accesses where
  loads : List Access
  stores : List Access
  pointsTo : VarId → IdSet

/-- The accesses of the methods of a supergraph. -/
def accesses (p : Program) (g : Supergraph) (pointsTo : VarId → IdSet) : Accesses :=
  let all := (List.range g.nodes.size).map fun i => (i, p.stmtAt (g.nodeAt i))
  { loads := all.filterMap fun a => (loadPlace? a.2).map fun place => { node := a.1, stmt := a.2, place }
    stores := all.filterMap fun a => (storePlace? a.2).map fun place => { node := a.1, stmt := a.2, place }
    pointsTo }

/-- The stores into aliases of a place. -/
def Accesses.storesInto (a : Accesses) (place : Place) : List Access :=
  a.stores.filter fun s => !(overlap a.pointsTo place s.place).isEmpty

/-- The nodes of the loads from aliases of a place, once per common object, by object. -/
def Accesses.loadsFrom (a : Accesses) (place : Place) : List Nat :=
  let found := a.loads.map fun l => (l.node, overlap a.pointsTo place l.place)
  let objects := (IdSet.ofList (found.flatMap (·.2))).toList
  objects.flatMap fun o => (found.filter fun l => l.2.contains o).map (·.1)

/-- The value that a load finds, from the facts before the stores into its aliases. -/
def loadedValue (facts : Facts Fact) (stores : List Access) (load : Stmt Nat) (f : Fact) : Value :=
  stores.foldl
    (fun v s =>
      let before := facts.input s.node
      match s.stmt, load with
      | .storeField _ _ y, _ => v.join (before.get y)
      | .storeArray _ j y, .loadArray _ _ i =>
        if indexMayAlias (f.get i) (before.get j) then v.join (before.get y) else v
      | _, _ => v)
    .undefined

/-- The equations of alias-aware constant propagation: as without aliases, but loads into variables that
hold integers find what was stored, and a store whose facts changed wakes the loads of its aliases. -/
def system (p : Program) (g : Supergraph) (pointsTo : VarId → IdSet) : System Fact BinaryOp :=
  let plain := Interprocedural.system p g
  let a := accesses p g pointsTo
  let stores : Array (List Access) := (Array.range g.nodes.size).map fun i =>
    match loadPlace? (p.stmtAt (g.nodeAt i)) with
    | some place => a.storesInto place
    | none => []
  let loads : Array (List Nat) := (Array.range g.nodes.size).map fun i =>
    match storePlace? (p.stmtAt (g.nodeAt i)) with
    | some place => a.loadsFrom place
    | none => []
  { plain with
    transfer := fun facts i f =>
      let s := p.stmtAt (g.nodeAt i)
      match loadPlace? s, s.defined? with
      | some _, some x =>
        if p.holdsInt x then f.update x (loadedValue facts (stores.getD i []) s f)
        else plain.transfer facts i f
      | _, _ => plain.transfer facts i f
    dependents := fun i => loads.getD i [] ++ plain.dependents i
    visits := plain.visits + (2 * p.vars.size + 1) * loads.foldl (fun n ls => n + ls.length) 0 }

/-- Constants over a supergraph, with the aliases of a pointer analysis. -/
def analyze (p : Program) (g : Supergraph) (pointers : PointsTo.Result) (limit : Int) :
    Logged AnalysisError (Solution Fact) := do
  let table : Array IdSet := (Array.range p.vars.size).map pointers.pointsTo
  Interprocedural.solve p g (system p g fun v => table.getD v ∅) limit

end WholeProgram.Aliases
