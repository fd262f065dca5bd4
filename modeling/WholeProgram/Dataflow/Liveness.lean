import WholeProgram.Data.IdSet
import WholeProgram.Dataflow.Solution

/-!
# Live variables

The backward analysis that finds, before and after each statement of a method, which variables are
read on some path before they are written.
-/

namespace WholeProgram.Liveness

/-- The variables live before a statement, from those live after it. -/
def transfer (s : Stmt Nat) (live : IdSet) : IdSet :=
  let rest := match s.defined? with
    | some x => live.erase x
    | none => live
  s.uses.foldl IdSet.insert rest

/-- The equations of liveness over the graph of a method. -/
def system (m : Method) (g : Cfg) : System IdSet BinaryOp where
  size := g.size
  isBoundary n := n == m.exit
  initial := ∅
  start _ := ∅
  input s n := (g.succs n).foldl (fun acc k => acc.union (s.output k)) ∅
  fault _ _ := none
  transfer _ n live := transfer (m.stmtAt n) live
  dependents := g.preds
  visits := g.size + m.mentioned.length * m.edges.length

/-- The live variables of a method. -/
def analyze (p : Program) (m : MethodId) (limit : Int) : Logged AnalysisError (Solution IdSet) := do
  let g := Cfg.ofMethod (p.method m)
  let s ← g.solve p m (system (p.method m) g) limit
  return { before := s.facts.outs, after := s.facts.ins, iterations := s.iterations }

/-- The names of a set of variables. -/
def text (name : VarId → String) (live : IdSet) : String :=
  "\x7b" ++ ", ".intercalate (live.toList.map name) ++ "\x7d"

end WholeProgram.Liveness
