import Std.Data.HashMap
import Std.Data.HashSet
import WholeProgram.Graph.Cycles
import WholeProgram.Program.Render

/-!
# Call graphs

A call graph has methods that are entries, methods that are reachable, and edges from call sites to
the methods they may call. It is built by adding these one by one; everything is listed in the order
in which it was added, a method or an edge only once. Call sites and methods may be qualified by
contexts, so their types are parameters.
-/

namespace WholeProgram

/-- A call site and a method that it may call. -/
structure CallEdge (σ μ : Type) where
  kind : CallKind
  site : σ
  callee : μ
deriving Repr

/-- A call graph over call sites `σ` and methods `μ`. -/
structure CallGraph (σ μ : Type) [BEq σ] [Hashable σ] [BEq μ] [Hashable μ] where
  entries : Array μ := #[]
  reachable : Array μ := #[]
  /-- The methods of `reachable`, for look-up. -/
  reached : Std.HashSet μ := {}
  edges : Array (CallEdge σ μ) := #[]
  /-- The call sites and callees that edges join, for look-up. -/
  joined : Std.HashSet (σ × μ) := {}
  /-- The edges of each call site. -/
  outs : Std.HashMap σ (Array (CallEdge σ μ)) := {}
  /-- The edges to each method. -/
  ins : Std.HashMap μ (Array (CallEdge σ μ)) := {}

namespace CallGraph

variable {σ μ : Type} [BEq σ] [Hashable σ] [BEq μ] [Hashable μ]

instance : Inhabited (CallGraph σ μ) := ⟨{}⟩

/-- Adds an entry method. -/
def addEntry (g : CallGraph σ μ) (m : μ) : CallGraph σ μ :=
  if g.entries.contains m then g else { g with entries := g.entries.push m }

def isReachable (g : CallGraph σ μ) (m : μ) : Bool := g.reached.contains m

/-- Adds a reachable method, and says whether it is new. -/
def addReachable (g : CallGraph σ μ) (m : μ) : CallGraph σ μ × Bool :=
  if g.isReachable m then (g, false)
  else ({ g with reachable := g.reachable.push m, reached := g.reached.insert m }, true)

/-- The edges of a call site. -/
def edgesOutOf (g : CallGraph σ μ) (site : σ) : Array (CallEdge σ μ) := (g.outs[site]?).getD #[]

/-- Adds an edge, and says whether it is new. The kind of the first addition stays. -/
def addEdge (g : CallGraph σ μ) (kind : CallKind) (site : σ) (callee : μ) : CallGraph σ μ × Bool :=
  if g.joined.contains (site, callee) then (g, false)
  else
    let e : CallEdge σ μ := { kind, site, callee }
    ({ g with
        edges := g.edges.push e
        joined := g.joined.insert (site, callee)
        outs := g.outs.alter site fun es => some ((es.getD #[]).push e)
        ins := g.ins.alter callee fun es => some ((es.getD #[]).push e) }, true)

/-- The edges to a method. -/
def edgesInto (g : CallGraph σ μ) (m : μ) : Array (CallEdge σ μ) := (g.ins[m]?).getD #[]

def calleesOf (g : CallGraph σ μ) (site : σ) : List μ := (g.edgesOutOf site).toList.map (·.callee)

def callersOf (g : CallGraph σ μ) (m : μ) : List σ := (g.edgesInto m).toList.map (·.site)

/-- The call sites of a method, if it is reachable; `sites` lists those of each method. -/
def sitesOf (g : CallGraph σ μ) (sites : μ → List σ) (m : μ) : List σ :=
  if g.isReachable m then sites m else []

/-- The methods that the call sites of a reachable method may call, each once. -/
def calleesThrough (g : CallGraph σ μ) (sites : μ → List σ) (m : μ) : List μ :=
  ((g.sitesOf sites m).flatMap g.calleesOf).eraseDups

/-- Adds an edge of the call graph to a graph whose nodes are indices of methods. -/
def addCall (index : Std.HashMap μ Nat) (containerOf : σ → μ) (graph : Graph) (e : CallEdge σ μ) : Graph :=
  match index[containerOf e.site]?, index[e.callee]? with
  | some i, some j => graph.addEdge i j
  | _, _ => graph

/-- The graph of the reachable methods: node `i` is the `i`-th of them, and there is an edge where a
call site contained in one may call the other. -/
def toGraph (g : CallGraph σ μ) (containerOf : σ → μ) (label : μ → String) : Graph :=
  let index : Std.HashMap μ Nat :=
    g.reachable.zipIdx.foldl (fun acc m => acc.insert m.1 m.2) {}
  g.edges.foldl (addCall index containerOf) (Graph.ofLabels (g.reachable.map label))

/-- Replaces node numbers of `toGraph` by methods. -/
def methodsAt (g : CallGraph σ μ) (nodes : List Nat) : List μ := nodes.filterMap fun i => g.reachable[i]?

/-- The strongly connected components of the graph of methods, by a search for components. -/
def componentsBy (search : Graph.ComponentSearch) (g : CallGraph σ μ) (containerOf : σ → μ)
    (label : μ → String) : List (List μ) :=
  ((g.toGraph containerOf label).componentsBy search).map g.methodsAt

/-- The elementary cycles of the graph of methods, by a search for components. -/
def cyclesBy? (search : Graph.ComponentSearch) (g : CallGraph σ μ) (containerOf : σ → μ)
    (label : μ → String) : Option (List (List μ)) :=
  ((g.toGraph containerOf label).cyclesBy? search).map fun cycles => cycles.map g.methodsAt

end CallGraph

/-- Call graphs over the methods of a program. -/
abbrev MethodCallGraph := CallGraph Site MethodId

namespace MethodCallGraph

/-- The call sites of a method, if it is reachable. -/
def sitesIn (g : MethodCallGraph) (p : Program) (m : MethodId) : List Site := g.sitesOf p.sitesIn m

/-- The methods that the call sites of a reachable method may call. -/
def calleesOfMethod (g : MethodCallGraph) (p : Program) (m : MethodId) : List MethodId :=
  g.calleesThrough p.sitesIn m

def edgeText (p : Program) (e : CallEdge Site MethodId) : String :=
  "[" ++ e.kind.text ++ "] " ++ p.siteText e.site ++ " -> " ++ p.methodText e.callee

def graph (g : MethodCallGraph) (p : Program) : Graph := g.toGraph (·.method) p.methodText

/-- The strongly connected components of the graph of methods. -/
def components (g : MethodCallGraph) (p : Program) : List (List MethodId) :=
  g.componentsBy Graph.searchNodes (·.method) p.methodText

/-- The elementary cycles of the graph of methods. -/
def cycles (g : MethodCallGraph) (p : Program) : List (List MethodId) :=
  (g.cyclesBy? Graph.searchNumbers (·.method) p.methodText).getD []

end MethodCallGraph

end WholeProgram
