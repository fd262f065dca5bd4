import WholeProgram.CallGraph.ClassHierarchyAnalysis
import WholeProgram.Command.Console
import WholeProgram.Dataflow.Aliases
import WholeProgram.Dump.ClassFile
import WholeProgram.Dump.Dot
import WholeProgram.Report
import WholeProgram.Taint.Analysis

/-!
# What the tools do
-/

namespace WholeProgram.Command

open Session

/-- The error of an analysis of a program. -/
def Error.ofAnalysis (p : Program) (what : String) (e : AnalysisError) : Error := .step what (e.message p)

/-- The call graph of an algorithm. -/
def buildCallGraph (c : Config) (p : Program) : Algorithm → Logged AnalysisError MethodCallGraph
  | .classHierarchy => ClassHierarchyAnalysis.analyze p c.ignoreUnresolvedCalls
  | .pointsTo => do
    let opts ← (MonadExcept.ofExcept c.pointsTo : Logged AnalysisError PointsTo.Options)
    return (← PointsTo.analyze p opts).callGraph

/-- Constants over the calls of a program; fields and arrays are followed if aliases are asked for. -/
def interConstants (c : Config) (p : Program) (aliases : Bool) :
    Logged AnalysisError (Supergraph × Solution Fact) := do
  if aliases then
    let opts ← (MonadExcept.ofExcept c.pointsTo : Logged AnalysisError PointsTo.Options)
    let pointers ← PointsTo.analyze p opts
    let g := Supergraph.ofCallGraph p pointers.callGraph
    return (g, ← Aliases.analyze p g pointers c.maxIterations)
  else
    let g := Supergraph.ofCallGraph p (← buildCallGraph c p .classHierarchy)
    return (g, ← Interprocedural.analyze p g c.maxIterations)

/-- The end of a message about the time that an analysis took. -/
def took : String := "took " ++ Log.duration ++ " s"

def runConstants (c : Config) (p : Program) (inter aliases : Bool) : Session Unit := do
  let failure := Error.ofAnalysis p "constant propagation failed"
  if inter then
    let (g, s) ← logged c failure (interConstants c p aliases)
    for m in g.methods do
      printTitled (p.methodText m) (Report.constants p m fun n => s.outFact (g.number n))
    say c .info ("Analysis " ++ took ++ " (" ++ toString s.iterations ++ " iterations)")
  else
    for m in List.range p.methods.size do
      if !(p.method m).body.isEmpty then
        let s ← logged c failure (Constants.analyze p m c.maxIterations)
        printTitled (p.methodText m) (Report.constants p m fun n => s.outFact n.node)
    say c .info ("Analysis " ++ took)

/-- How the result of a tool is announced. -/
def result (text : String) : String := "RESULT:\n\t\t" ++ text

def runDeadCode (c : Config) (p : Program) : Session Unit := do
  let dead ← logged c (Error.ofAnalysis p "dead code detection failed") (DeadCode.analyzeProgram p c.deadCode)
  say c .info ("Analysis " ++ took)
  for (m, stmts) in dead do
    printTitled (p.methodText m) (Report.deadStmts p m stmts)
  match dead.foldl (fun n d => n + d.2.length) 0 with
  | 0 => say c .info (result (← painted .green "No dead code detected ✓"))
  | total =>
    say c .warn (result (← painted .red
      (toString total ++ " dead statements in " ++ toString dead.length ++ " functions")))

def runCallGraph (c : Config) (p : Program) (algorithm : Algorithm) (cycles components : Bool) : Session Unit := do
  let g ← logged c (Error.ofAnalysis p "call graph construction failed") (buildCallGraph c p algorithm)
  say c .info ("Built " ++ algorithm.name.toUpper ++ " call graph in " ++ Log.duration ++ " s: "
    ++ toString g.reachable.size ++ " reachable functions, " ++ toString g.edges.size ++ " edges")
  for m in g.reachable do
    printTitled (p.methodText m) (Report.calls p g m)
  if components then
    printTitled "Recursive components" (Report.recursion p g)
  if cycles then
    printTitled "Cycles" ((MethodCallGraph.cycles g p).map (Report.chain p))

/-- The options of the pointer analysis, before any program is read. -/
def pointsToOptions (c : Config) : Session PointsTo.Options :=
  match c.pointsTo with
  | .ok opts => return opts
  | .error e => throw (.options (e.message {}))

def runPointsTo (c : Config) (p : Program) (opts : PointsTo.Options) : Session Unit := do
  let r ← logged c (Error.ofAnalysis p "pointer analysis failed") (PointsTo.analyze p opts)
  say c .info ("Pointer analysis (" ++ c.contextSensitivity.shown ++ ") " ++ took ++ ": " ++ toString r.iterations
    ++ " iterations, " ++ toString r.core.objs.size ++ " objects, " ++ toString r.core.graph.edges.size
    ++ " call edges")
  for m in r.callGraph.reachable do
    printTitled (p.methodText m) (Report.pointsTo p r m)

/-- The configuration with what the flags say about contexts. -/
def withContexts (c : Config) (sensitivity : String) (depth : Int) : Config :=
  let c := if sensitivity.isEmpty then c else { c with contextSensitivity := sensitivity }
  if depth > 0 then { c with contextDepth := depth, heapContextDepth := depth - 1 } else c

/-- Draws the control-flow graphs of the methods that pass the package filter. -/
def drawControlFlow (c : Config) (p : Program) (dir : String) : Session Unit := do
  announce c ("Writing control-flow graphs in " ++ dir)
  changeFiles ("could not create directory " ++ dir) fun t => (t.makeDir dir).mapError (·.message)
  for m in List.range p.methods.size do
    let d := p.method m
    if !d.body.isEmpty && c.admitsPackage (p.className d.cls) then
      changeFiles ("could not print control-flow graph of " ++ p.methodText m) fun t =>
        Dump.writeFile t (joinPath [dir, toString m ++ "_" ++ d.name ++ ".dot"]) (Dump.controlFlow p m [])

/-- Writes the classes into files. -/
def dumpClasses (c : Config) (p : Program) (dir : String) : Session Unit := do
  announce c ("Generating IR in " ++ dir)
  if p.classes.isEmpty then
    print "No class found."
  else
    let (files, failure) := Dump.writeProgram p dir (← get).files
    putFiles files
    if let some reason := failure then
      throw (.step "could not print IR" reason)

/-- Draws the graphs and writes the classes for which a place is given. -/
def runRender (c : Config) (p : Program) (algorithm : Algorithm)
    (callGraph controlFlow pointerFlow classes : String) : Session Unit := do
  let byPointers := !callGraph.isEmpty && algorithm == .pointsTo
  let pointers? ←
    if !pointerFlow.isEmpty || byPointers then do
      announce c "Running pointer analysis"
      let opts ← pointsToOptions c
      some <$> logged c (Error.ofAnalysis p "could not run pointer analysis") (PointsTo.analyze p opts)
    else pure none
  if !callGraph.isEmpty then
    let g ← match pointers?, byPointers with
      | some r, true => pure r.callGraph
      | _, _ =>
        logged c (Error.ofAnalysis p "could not compute callgraph") (buildCallGraph c p .classHierarchy)
    announce c ("Computed in " ++ Log.duration ++ " s")
    announce c ("Writing call graph in " ++ callGraph)
    changeFiles "could not print callgraph" (Dump.writeFile · callGraph (Dump.callGraph c p g))
  if let some r := pointers? then
    if !pointerFlow.isEmpty then
      announce c ("Writing pointer flow graph in " ++ pointerFlow)
      changeFiles "could not print pointer flow graph" (Dump.writeFile · pointerFlow (Dump.pointerFlow p r))
  if !controlFlow.isEmpty then
    drawControlFlow c p controlFlow
  if !classes.isEmpty then
    dumpClasses c p classes

def runTaint (c : Config) (p : Program) : Session Unit := do
  let outcomes ← logged c (Error.ofAnalysis p "taint analysis failed") (Taint.analyze c p)
  say c .info ""
  say c .info (String.ofList (List.replicate 80 '*'))
  say c .info ("Analysis " ++ took)
  say c .info ""
  if outcomes.all (·.flows.isEmpty) then
    say c .info (result (← painted .green "No taint flows detected ✓"))
  else
    say c .error (result (← painted .red "Taint flows detected!"))
    for o in outcomes do
      showLog c (Taint.warnings p (← read).colours o.flows)
      print (Taint.report p o.flows)

namespace Invocation

/-- The tool that is asked for. -/
def tool (i : Invocation) : Tool :=
  match i.request with
  | .constants .. => .constants
  | .deadCode => .deadCode
  | .callGraph .. => .callGraph
  | .pointsTo .. => .pointsTo
  | .render .. => .render
  | .statistics => .statistics
  | .taint => .taint

/-- Does what is asked for. -/
def run (i : Invocation) : Session Unit := do
  if i.tool = .taint ∧ i.common.config.isEmpty then
    throw .noConfig
  let c ← configure i.common i.tool
  match i.request with
  | .constants inter aliases => do runConstants c (← readSources c) inter aliases
  | .deadCode => do runDeadCode c (← readSources c)
  | .callGraph algorithm cycles components => do runCallGraph c (← readSources c) algorithm cycles components
  | .pointsTo sensitivity depth =>
    -- A sensitivity that does not exist is reported before the sources are read.
    let c := withContexts c sensitivity depth
    let opts ← pointsToOptions c
    runPointsTo c (← readSources c) opts
  | .render algorithm callGraph controlFlow pointerFlow classes =>
    runRender c (← readSources c) algorithm callGraph controlFlow pointerFlow classes
  | .statistics => do printTitled "IR statistics" (Report.statistics (← readSources c))
  | .taint =>
    if c.problems.isEmpty then
      throw (.noProblems i.common.config)
    runTaint c (← readSources c)

end Invocation

end WholeProgram.Command
