import WholeProgram.CallGraph.Basic
import WholeProgram.ControlFlow.Graph

/-!
# Interprocedural control-flow graphs

The supergraph of a call graph joins the control-flow graphs of its reachable methods: a call site has
an edge to the entry of each callee, the exit of a callee has an edge to the statements after the call,
and the edges of the call site itself lead there too, past the call.
-/

namespace WholeProgram

/-- What an edge of a supergraph stands for. -/
inductive Link where
  /-- An edge of a control-flow graph whose source is no call. -/
  | normal (e : Edge)
  /-- An edge of a control-flow graph that passes by a call. -/
  | callToReturn (site : Site) (e : Edge)
  | call (site : Site) (callee : MethodId)
  /-- From the exit of the callee back to the caller. -/
  | ret (site : Site) (callee : MethodId)
deriving DecidableEq, Repr

namespace Link

def name : Link → String
  | normal _ => "NORMAL"
  | callToReturn _ _ => "CALL_TO_RETURN"
  | call _ _ => "CALL"
  | ret _ _ => "RETURN"

/-- The names of the kinds, by number. -/
def names : List String := ["NORMAL", "CALL_TO_RETURN", "CALL", "RETURN"]

def nameOfCode (n : Int) : Except String String :=
  match n with
  | .ofNat k => match names[k]? with
    | some s => .ok s
    | none => .error ("unknown ICFG edge kind " ++ toString n)
  | .negSucc _ => .error ("unknown ICFG edge kind " ++ toString n)

def site? : Link → Option Site
  | normal _ => none
  | callToReturn s _ | call s _ | ret s _ => some s

def callee? : Link → Option MethodId
  | normal _ | callToReturn _ _ => none
  | call _ m | ret _ m => some m

def edge? : Link → Option Edge
  | normal e | callToReturn _ e => some e
  | call _ _ | ret _ _ => none

end Link

/-- An edge of a supergraph. -/
structure SuperEdge where
  source : Node
  target : Node
  link : Link
deriving DecidableEq, Repr

namespace SuperEdge

def text (p : Program) (e : SuperEdge) : String :=
  let place (n : Node) : String := p.methodText n.method ++ "[" ++ toString (Program.nodeIndex n.node) ++ "]"
  place e.source ++ " -[" ++ e.link.name ++ "]-> " ++ place e.target

end SuperEdge

/-- The supergraph of the reachable methods of a call graph. -/
structure Supergraph where
  methods : List MethodId
  entries : List MethodId
  /-- The nodes of the methods one after the other. -/
  nodes : Array Node
  /-- The number of the first node of each method. -/
  offsets : Std.HashMap MethodId Nat
  /-- The edges that leave each node, by number. -/
  outs : Array (List SuperEdge)
  ins : Array (List SuperEdge)
  /-- The reachable callees of each call site. -/
  callees : Std.HashMap Site (List MethodId)

namespace Supergraph

/-- The edges for one node of a method, in the order in which they are added. -/
def edgesAt (p : Program) (cg : MethodCallGraph) (m : MethodId) (n : Nat) : List SuperEdge :=
  let d := p.method m
  let here : Node := { method := m, node := n }
  let out := d.outEdges n
  match (d.stmtAt n).call? with
  | none => out.map fun e => { source := here, target := { method := m, node := e.target }, link := .normal e }
  | some _ =>
    let site : Site := { method := m, index := n - 1 }
    (out.map fun e => { source := here, target := { method := m, node := e.target }, link := .callToReturn site e })
      ++ ((cg.calleesOf site).filter cg.isReachable).flatMap fun callee =>
        { source := here, target := { method := callee, node := 0 }, link := .call site callee }
          :: out.map fun e =>
            { source := { method := callee, node := (p.method callee).exit }
              target := { method := m, node := e.target }
              link := .ret site callee }

/-- All edges in the order in which they are added. -/
def edges (p : Program) (cg : MethodCallGraph) : List SuperEdge :=
  cg.reachable.toList.flatMap fun m => (List.range (p.method m).numNodes).flatMap (edgesAt p cg m)

def ofCallGraph (p : Program) (cg : MethodCallGraph) : Supergraph :=
  let methods := cg.reachable.toList
  let nodes := methods.foldl
    (fun acc m => (List.range (p.method m).numNodes).foldl (fun acc n => acc.push { method := m, node := n }) acc)
    (#[] : Array Node)
  let offsets := (methods.foldl
    (fun (acc : Std.HashMap MethodId Nat × Nat) m => (acc.1.insert m acc.2, acc.2 + (p.method m).numNodes))
    ({}, 0)).1
  let number (n : Node) : Nat := ((offsets[n.method]?).map (· + n.node)).getD nodes.size
  let all := edges p cg
  let table (key : SuperEdge → Node) : Array (List SuperEdge) :=
    all.foldr (fun e t => t.modify (number (key e)) (e :: ·)) (Array.replicate nodes.size [])
  let callees := methods.foldl
    (fun (acc : Std.HashMap Site (List MethodId)) m =>
      (p.sitesIn m).foldl (fun acc s => acc.insert s ((cg.calleesOf s).filter cg.isReachable)) acc) {}
  { methods, entries := cg.entries.toList, nodes, offsets
    outs := table (·.source), ins := table (·.target), callees }

/-- The number of a node; a node of a method outside the graph gets a number that no node has. -/
def number (g : Supergraph) (n : Node) : Nat := ((g.offsets[n.method]?).map (· + n.node)).getD g.nodes.size

def nodeAt (g : Supergraph) (i : Nat) : Node := g.nodes.getD i default

def outEdges (g : Supergraph) (n : Node) : List SuperEdge := g.outs.getD (g.number n) []

def inEdges (g : Supergraph) (n : Node) : List SuperEdge := g.ins.getD (g.number n) []

def succs (g : Supergraph) (n : Node) : List Node := ((g.outEdges n).map (·.target)).eraseDups

def preds (g : Supergraph) (n : Node) : List Node := ((g.inEdges n).map (·.source)).eraseDups

/-- The callees of a call site that are in the graph. -/
def calleesOf (g : Supergraph) (s : Site) : List MethodId := (g.callees[s]?).getD []

/-- The statements after a call site. -/
def returnSitesOf (g : Supergraph) (s : Site) : List Node :=
  ((g.outEdges s.node).filterMap fun e =>
    match e.link with
    | .callToReturn _ _ => some e.target
    | _ => none).eraseDups

/-- The call sites that call a method. -/
def callersOf (g : Supergraph) (m : MethodId) : List Site :=
  (g.inEdges { method := m, node := 0 }).filterMap fun e =>
    match e.link with
    | .call s _ => some s
    | _ => none

end Supergraph

end WholeProgram
