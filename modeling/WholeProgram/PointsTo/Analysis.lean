import WholeProgram.PointsTo.Render
import WholeProgram.PointsTo.Solver

/-!
# Pointer analysis

`analyze` runs the solver on a program and reports on it; a `Result` answers what variables point to,
which methods are reachable and which call edges there are, with the contexts dropped.
-/

namespace WholeProgram.PointsTo

/-- The result of a run. -/
structure Result where
  core : Core
  iterations : Nat

namespace Result

/-- The pointers of a variable, one per context, in the order in which they were made. -/
def contextsOf (r : Result) (v : VarId) : List Pointer :=
  r.core.pointers.toList.filter fun p => match p with | .var _ w => w == v | _ => false

/-- The objects that a variable may point to in any context. -/
def pointsTo (r : Result) (v : VarId) : IdSet :=
  (r.contextsOf v).foldl
    (fun acc p => (r.core.pointsTo p).toList.foldl (fun acc o => acc.insert (r.core.csObj o).obj) acc) ∅

/-- The variables that have a pointer in some context. -/
def vars (r : Result) : IdSet :=
  r.core.pointers.foldl (fun acc p => match p with | .var _ v => acc.insert v | _ => acc) ∅

/-- Two variables may point to one object. -/
def mayAlias (r : Result) (x y : VarId) : Bool := !((r.pointsTo x).inter (r.pointsTo y)).isEmpty

/-- The call graph without contexts. -/
def callGraph (r : Result) : MethodCallGraph :=
  let g : MethodCallGraph := r.core.graph.entries.foldl (fun g m => g.addEntry m.method) {}
  let g := r.core.graph.reachable.foldl (fun g m => (g.addReachable m.method).1) g
  r.core.graph.edges.foldl (fun g e => (g.addEdge e.kind e.site.site e.callee.method).1) g

end Result

/-- Runs the pointer analysis with a plugin; the final state of the plugin comes with the result. -/
def analyzeWith {π : Type} (p : Program) (opts : Options) (plugin : Plugin π) :
    Logged AnalysisError (Result × π) := do
  if p.entries.isEmpty then
    throw .noEntryMethod
  Logged.say .info ("Starting pointer analysis (" ++ opts.selector.title ++ ")...")
  let setting : Machine.Setting π := { program := p, options := opts, plugin }
  match Machine.run setting (Machine.begin setting) with
  | none => throw .unfinished
  | some (s, halt) =>
    Logged.sayAll (s.core.notes.map (s.core.noteMessage p))
    match halt with
    | .failed e => throw e
    | .done =>
      let s := s.notify setting .finish
      Logged.say .info ("Pointer analysis done after " ++ toString s.iterations ++ " iterations")
      Logged.say .debug (toString s.core.graph.reachable.size ++ " reachable methods, "
        ++ toString s.core.graph.edges.size ++ " call edges, " ++ toString s.core.numFlows
        ++ " pointer flow edges, " ++ toString s.core.csObjs.size ++ " objects")
      return ({ core := s.core, iterations := s.iterations }, s.plugin)

/-- Runs the pointer analysis without a plugin. -/
def analyze (p : Program) (opts : Options) : Logged AnalysisError Result := do
  return (← analyzeWith p opts Plugin.none).1

end WholeProgram.PointsTo
