import WholeProgram.CallGraph.Basic
import WholeProgram.CallGraph.Hierarchy
import WholeProgram.Data.Queue

/-!
# Call graphs by the class hierarchy

Starting from the entry methods, every call site of a reachable method is resolved by the class it
names, and the callees become reachable. A call that cannot be resolved ends the analysis, or is
skipped with a warning if the options say so.
-/

namespace WholeProgram.ClassHierarchyAnalysis

structure State where
  graph : MethodCallGraph := {}
  waiting : Queue MethodId := .empty

/-- Adds the edges of a call site, and makes its callees wait. -/
def addCallees (site : Site) (kind : CallKind) (callees : List MethodId) (s : State) : State :=
  callees.foldl
    (fun s callee =>
      let graph := (s.graph.addEdge kind site callee).1
      { graph, waiting := if graph.isReachable callee then s.waiting else s.waiting.push callee })
    s

/-- Resolves one call site. -/
def processSite (p : Program) (ignoreUnresolved : Bool) (site : Site) (s : State) :
    Logged AnalysisError State := do
  match p.callAt? site with
  | none => return s
  | some call =>
    match p.resolve site call with
    | .error code => throw (.unknownCallKind code)
    | .ok r =>
      match r.error with
      | some e =>
        if ignoreUnresolved then
          Logged.say .warn ("ignoring unresolved call: " ++ e.message p)
        else
          throw (.dispatch e)
      | none => pure ()
      return addCallees site call.kind r.callees s

/-- Processes waiting methods until none is left. -/
def loop (p : Program) (ignoreUnresolved : Bool) : Nat → State → Logged AnalysisError State
  | 0, s => return s
  | fuel + 1, s =>
    match s.waiting.pop? with
    | none => return s
    | some (m, waiting) =>
      match s.graph.addReachable m with
      | (graph, false) => loop p ignoreUnresolved fuel { graph, waiting }
      | (graph, true) => do
        Logged.say .trace ("CHA: new reachable method " ++ p.methodText m)
        let s ← (p.sitesIn m).foldlM (fun s site => processSite p ignoreUnresolved site s) { graph, waiting }
        loop p ignoreUnresolved fuel s

/-- The number of call sites of a program. -/
def numSites (p : Program) : Nat := p.methods.foldl (fun n m => n + m.callSites.length) 0

/-- The call graph of a program by its class hierarchy. A call site has at most one callee for each
class, and makes it wait at most once, which bounds the number of rounds. -/
def analyze (p : Program) (ignoreUnresolved : Bool) : Logged AnalysisError MethodCallGraph := do
  if p.entries.isEmpty then
    throw .noEntryMethod
  let start : State := p.entries.foldl
    (fun s e => { graph := s.graph.addEntry e, waiting := s.waiting.push e }) {}
  let s ← loop p ignoreUnresolved (p.entries.length + numSites p * p.classes.size + 1) start
  Logged.say .debug ("CHA: " ++ toString s.graph.reachable.size ++ " reachable methods, "
    ++ toString s.graph.edges.size ++ " call edges")
  return s.graph

end WholeProgram.ClassHierarchyAnalysis
