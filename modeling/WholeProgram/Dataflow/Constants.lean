import WholeProgram.Dataflow.Fact
import WholeProgram.Dataflow.Solution

/-!
# Constant propagation

The forward analysis that finds, before and after each statement of a method, which variables hold one
known integer. The receiver and the parameters are unknown at the entry.
-/

namespace WholeProgram.Constants

/-- The fact at the entry of a method: its receiver and its parameters are no constants. -/
def entryFact (m : Method) : Fact :=
  (m.receiver.toList ++ m.params.toList).foldl (fun f v => f.update v .nac) Fact.empty

/-- The value of the right-hand side of a definition. -/
def rhsValue (s : Stmt Nat) (f : Fact) : Value :=
  match s with
  | .literal _ c => .const c
  | .copy _ y => f.get y
  | .binary _ op x y => Value.binary op (f.get x) (f.get y)
  | _ => .nac

/-- The fact after a statement: a defined variable that holds integers gets the value of the
right-hand side. -/
def transfer (p : Program) (s : Stmt Nat) (f : Fact) : Fact :=
  match s.defined? with
  | none => f
  | some x => if p.holdsInt x then f.update x (rhsValue s f) else f

/-- The operator that a statement would apply to constants although it does not exist. -/
def fault (p : Program) (s : Stmt Nat) (f : Fact) : Option BinaryOp :=
  match s with
  | .binary x op y z =>
    if p.holdsInt x && Value.faulty op (f.get y) (f.get z) then some op else none
  | _ => none

/-- The equations of constant propagation over the graph of a method. -/
def system (p : Program) (m : Method) (g : Cfg) : System Fact BinaryOp where
  size := g.size
  isBoundary n := n == 0
  initial := Fact.empty
  start n := if n = 0 then entryFact m else Fact.empty
  input s n := (g.preds n).foldl (fun acc k => (s.output k).join acc) Fact.empty
  fault n f := fault p (m.stmtAt n) f
  transfer _ n f := transfer p (m.stmtAt n) f
  dependents := g.succs
  visits := g.size + 2 * m.mentioned.length * m.edges.length

/-- The constants of a method. -/
def analyze (p : Program) (m : MethodId) (limit : Int) : Logged AnalysisError (Solution Fact) := do
  let g := Cfg.ofMethod (p.method m)
  let s ← g.solve p m (system p (p.method m) g) limit
  return { before := s.facts.ins, after := s.facts.outs, iterations := s.iterations }

end WholeProgram.Constants
