import WholeProgram.ControlFlow.Supergraph
import WholeProgram.Dataflow.Constants

/-!
# Interprocedural constant propagation

Constants over a supergraph: arguments flow into parameters along call edges, returned values flow to
the result along return edges, and what the caller knows passes by the call. The entries of the entry
methods are the boundary.
-/

namespace WholeProgram.Interprocedural

/-- What passes by a call: all but the result, which comes back from the callees. The result of a call
without callees is unknown. -/
def passCall (p : Program) (g : Supergraph) (site : Site) (out : Fact) : Fact :=
  match p.resultOf? site with
  | none => out
  | some x => if (g.calleesOf site).isEmpty && p.holdsInt x then out.update x .nac else out.remove x

/-- What flows into a callee: the receiver, and the arguments for parameters that hold integers. -/
def enterCallee (p : Program) (site : Site) (callee : MethodId) (out : Fact) : Fact :=
  match p.callAt? site with
  | none => Fact.empty
  | some call =>
    let m := p.method callee
    let f := match m.receiver, call.base with
      | some r, some b => Fact.empty.update r (out.get b)
      | _, _ => Fact.empty
    (call.args.zip m.params.toList).foldl
      (fun f b => if p.holdsInt b.2 then f.update b.2 (out.get b.1) else f) f

/-- What flows back to a caller: the join of the returned variables as the value of the result. A callee
that returns no variable returns an unknown value. -/
def leaveCallee (p : Program) (site : Site) (callee : MethodId) (out : Fact) : Fact :=
  match p.resultOf? site with
  | none => Fact.empty
  | some x =>
    if p.holdsInt x then
      match (p.method callee).returnVars with
      | [] => Fact.empty.update x .nac
      | rs => Fact.empty.update x (rs.foldl (fun v r => v.join (out.get r)) .undefined)
    else
      Fact.empty

/-- What flows along an edge of the supergraph. -/
def flow (p : Program) (g : Supergraph) (link : Link) (out : Fact) : Fact :=
  match link with
  | .normal _ => out
  | .callToReturn site _ => passCall p g site out
  | .call site callee => enterCallee p site callee out
  | .ret site callee => leaveCallee p site callee out

/-- The effect of a node: calls leave everything to their edges. -/
def transfer (p : Program) (s : Stmt Nat) (f : Fact) : Fact :=
  match s.call? with
  | some _ => f
  | none => Constants.transfer p s f

def fault (p : Program) (s : Stmt Nat) (f : Fact) : Option BinaryOp :=
  match s.call? with
  | some _ => none
  | none => Constants.fault p s f

/-- The entry of an entry method. -/
def isBoundary (g : Supergraph) (n : Node) : Bool := n.node == 0 && g.entries.contains n.method

/-- The equations of interprocedural constant propagation. -/
def system (p : Program) (g : Supergraph) : System Fact BinaryOp where
  size := g.nodes.size
  isBoundary i := isBoundary g (g.nodeAt i)
  initial := Fact.empty
  start i :=
    let n := g.nodeAt i
    if isBoundary g n then Constants.entryFact (p.method n.method) else Fact.empty
  input s i :=
    (g.inEdges (g.nodeAt i)).foldl
      (fun acc e => (flow p g e.link (s.output (g.number e.source))).join acc) Fact.empty
  fault i f := fault p (p.stmtAt (g.nodeAt i)) f
  transfer _ i f := transfer p (p.stmtAt (g.nodeAt i)) f
  dependents i := (g.succs (g.nodeAt i)).map g.number
  visits := g.nodes.size + (2 * p.vars.size + 1) * g.outs.foldl (fun n es => n + es.length) 0 + 1

/-- The facts of all nodes of a supergraph, by node number. -/
def solve (p : Program) (g : Supergraph) (S : System Fact BinaryOp) (limit : Int) :
    Logged AnalysisError (Solution Fact) := do
  if g.entries.isEmpty then
    throw .noEntryMethod
  let place (i : Nat) : String :=
    let n := g.nodeAt i
    p.methodText n.method ++ "[" ++ toString (Program.nodeIndex n.node) ++ "]"
  let s ← S.report limit place fun iterations =>
    "interprocedural fixpoint reached after " ++ toString iterations ++ " iterations over "
      ++ toString g.nodes.size ++ " nodes in " ++ toString g.methods.length ++ " methods"
  return { before := s.facts.ins, after := s.facts.outs, iterations := s.iterations }

/-- Constants over a supergraph. -/
def analyze (p : Program) (g : Supergraph) (limit : Int) : Logged AnalysisError (Solution Fact) :=
  solve p g (system p g) limit

end WholeProgram.Interprocedural
