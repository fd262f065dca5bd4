import WholeProgram.ControlFlow.Supergraph
import WholeProgram.Dataflow.Solution
import WholeProgram.Dataflow.Fact
import WholeProgram.PointsTo.Analysis
import WholeProgram.Program.Statistics
import WholeProgram.Text.Quoted

/-!
# Reports

The lines that the tools print about methods, statements and objects.
-/

namespace WholeProgram.Report

/-- The text with blanks after it up to a width. -/
def padded (width : Nat) (s : String) : String := s ++ String.ofList (List.replicate (width - s.length) ' ')

/-- A statement on one line. -/
def stmtText (p : Program) (n : Node) : String := Text.escape (p.nodeLine n)

/-- A statement with something about it. -/
def stmtLine (p : Program) (n : Node) (about : String) : String := padded 40 (stmtText p n) ++ " " ++ about

/-- The nodes of the statements of a method. -/
def stmtNodes (p : Program) (m : MethodId) : List Node :=
  (List.range (p.method m).body.size).map fun i => { method := m, node := i + 1 }

/-- The constants after every statement of a method. -/
def constants (p : Program) (m : MethodId) (after : Node → Fact) : List String :=
  (stmtNodes p m).map fun n => stmtLine p n ((after n).text p.varName)

/-- Dead statements with their positions. -/
def deadStmts (p : Program) (m : MethodId) (dead : List Nat) : List String :=
  dead.map fun i => let n : Node := { method := m, node := i + 1 }; stmtLine p n (p.position n)

/-- The calls in a method with their callees. -/
def calls (p : Program) (g : MethodCallGraph) (m : MethodId) : List String :=
  (MethodCallGraph.sitesIn g p m).flatMap fun s =>
    (g.edgesOutOf s).toList.map fun e =>
      e.kind.text ++ " " ++ stmtText p s.node ++ " -> " ++ p.methodText e.callee

/-- Methods, each calling the next. -/
def chain (p : Program) (ms : List MethodId) : String := " -> ".intercalate (ms.map p.methodText)

/-- The components of a call graph whose methods call themselves, maybe through others. -/
def recursion (p : Program) (g : MethodCallGraph) : List String :=
  ((MethodCallGraph.components g p).filter fun ms =>
    match ms with
    | [m] => (MethodCallGraph.calleesOfMethod g p m).contains m
    | _ => true).map (chain p)

/-- The variables of a method that point to objects, with these. -/
def pointsTo (p : Program) (r : PointsTo.Result) (m : MethodId) : List String :=
  (p.method m).vars.toList.filterMap fun v =>
    match (r.pointsTo v).toList with
    | [] => none
    | objs =>
      some (p.varName v ++ " -> \x7b"
        ++ ", ".intercalate (objs.map fun o => Text.escape (PointsTo.Core.objText p (r.core.obj o))) ++ "\x7d")

/-- The sizes of a program. -/
def statistics (p : Program) : List String :=
  let s := p.statistics
  let count (what : String) (n : Nat) : String := padded 24 what ++ " " ++ toString n
  [ count "classes" s.classes, count "interfaces" s.interfaces, count "methods" s.methods,
    count "methods with a body" s.nonempty, count "statements" s.statements,
    count "allocations" s.allocations, count "opaque statements" s.unknown,
    count "call sites" s.callSites ]
  ++ [CallKind.static, .special, .virtual, .interface].map fun k => count ("  " ++ k.text) (p.callSitesOfKind k)

end WholeProgram.Report
