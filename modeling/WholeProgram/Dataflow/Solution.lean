import WholeProgram.ControlFlow.Graph
import WholeProgram.Dataflow.Error
import WholeProgram.Dataflow.System
import WholeProgram.Log

/-!
# Analyses of one method

A forward analysis flows from the entry along the edges of the control-flow graph, a backward one from
the exit against them. Both are equation systems in which the input of a node is the join of the
outputs of its neighbours; a solution lists the facts before and after every node.
-/

namespace WholeProgram

/-- The facts before and after each node, and the number of visits it took to find them. -/
structure Solution (F : Type) where
  before : Array F
  after : Array F
  iterations : Nat

namespace Solution

variable {F : Type} [Inhabited F]

/-- The fact before a node. -/
def inFact (s : Solution F) (n : Nat) : F := s.before.getD n default

/-- The fact after a node. -/
def outFact (s : Solution F) (n : Nat) : F := s.after.getD n default

end Solution

/-- The error of a stopped solver. -/
def Stop.toError : Stop BinaryOp → AnalysisError
  | .limit bound => .iterationLimit bound "iterations"
  | .fault op => .unknownOperator op
  | .unfinished => .unfinished

/-- The messages about the visits of a solver. -/
def visitLog (place : Nat → String) (visited : Array (Nat × Bool)) : Log :=
  visited.map fun v => { level := .trace, text := place v.1 ++ ": changed=" ++ toString v.2 }

variable {F : Type} [Inhabited F] [DecidableEq F]

/-- Solves the system of a method's graph and reports on it. -/
def System.report (S : System F BinaryOp) (limit : Int) (place : Nat → String) (summary : Nat → String) :
    Logged AnalysisError (SolverState F) := do
  let (s, stop) := S.solve limit
  Logged.sayAll (visitLog place s.visited)
  match stop with
  | some e => throw e.toError
  | none =>
    Logged.say .debug (summary s.iterations)
    return s

/-- Solves a system over the nodes of a method. -/
def Cfg.solve (p : Program) (m : MethodId) (g : Cfg) (S : System F BinaryOp) (limit : Int) :
    Logged AnalysisError (SolverState F) :=
  S.report limit (fun n => "node " ++ p.nodeText { method := m, node := n })
    fun iterations => "dataflow fixpoint reached after " ++ toString iterations ++ " iterations over "
      ++ toString g.size ++ " nodes"

end WholeProgram
