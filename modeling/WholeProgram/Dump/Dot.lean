import WholeProgram.Config.Basic
import WholeProgram.ControlFlow.Graph
import WholeProgram.PointsTo.Analysis

/-!
# Graphs in the DOT language
-/

namespace WholeProgram.Dump

/-- Methods whose calls are left out of drawings. -/
def hiddenMethods : List String := ["String", "GoString", "Error"]

/-- The drawing of a call graph: the edges between methods whose classes pass the package filter. Calls
that are dispatched on their receiver are blue. -/
def callGraph (c : Config) (p : Program) (g : MethodCallGraph) : String :=
  let shown (m : MethodId) : Bool :=
    c.admitsPackage (p.className (p.method m).cls) && !hiddenMethods.contains (p.method m).name
  let edge (e : CallEdge Site MethodId) : String :=
    if shown e.site.method && shown e.callee then
      "  " ++ Text.quote (p.methodText e.site.method) ++ " -> " ++ Text.quote (p.methodText e.callee)
        ++ (if e.kind = .virtual ∨ e.kind = .interface then " [color=blue]" else "") ++ ";\n"
    else ""
  "digraph callgraph \x7b\n" ++ String.join (g.edges.toList.map edge) ++ "\x7d\n"

/-- The drawing of a control-flow graph; the given statements are filled in red. -/
def controlFlow (p : Program) (m : MethodId) (highlighted : List Nat) : String :=
  let g := Cfg.ofMethod (p.method m)
  let nodes := List.range g.size
  let label (n : Nat) : String :=
    if n = 0 then "ENTRY" else if n = g.method.exit then "EXIT" else p.nodeLine { method := m, node := n }
  let node (n : Nat) : String :=
    let red := n != 0 && highlighted.contains (n - 1)
    "  n" ++ toString n ++ " [label=" ++ Text.quote (label n)
      ++ (if red then ", style=filled, fillcolor=red" else "") ++ "];\n"
  let edge (e : Edge) : String :=
    "  n" ++ toString e.source ++ " -> n" ++ toString e.target ++ " [label=" ++ Text.quote e.kind.name ++ "];\n"
  "digraph " ++ Text.quote (p.methodText m) ++ " \x7b\n  node [shape=box];\n"
    ++ String.join (nodes.map node) ++ String.join ((nodes.flatMap g.outEdges).map edge) ++ "\x7d\n"

/-- The drawing of the flow graph of pointers, each with its points-to set. -/
def pointerFlow (p : Program) (r : PointsTo.Result) : String :=
  let core := r.core
  let pointers := core.flowPointers.toList.zipIdx
  let index : Std.HashMap PointsTo.Pointer Nat := pointers.foldl (fun acc q => acc.insert q.1 q.2) {}
  let node (q : PointsTo.Pointer × Nat) : String :=
    "  p" ++ toString q.2 ++ " [label="
      ++ Text.quote (core.pointerText p q.1 ++ "\n" ++ core.setText p (core.pointsTo q.1)) ++ "];\n"
  let edges (q : PointsTo.Pointer × Nat) : String :=
    String.join ((core.succsOf q.1).toList.filterMap fun t =>
      (index[t]?).map fun j => "  p" ++ toString q.2 ++ " -> p" ++ toString j ++ ";\n")
  "digraph pfg \x7b\n" ++ String.join (pointers.map node) ++ String.join (pointers.map edges) ++ "\x7d\n"

end WholeProgram.Dump
