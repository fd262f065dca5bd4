import WholeProgram.Config.Settings
import WholeProgram.Data.Ordered
import WholeProgram.PointsTo.Analysis
import WholeProgram.Taint.Plugin
import WholeProgram.Taint.Summaries
import WholeProgram.Text.Colour

/-!
# Taint analysis

A flow leads from a source call to a sensitive argument of a sink call. `Flow.collect` reads the flows
off a result of the pointer analysis, sorted by source, sink and argument. Every taint tracking problem of
a configuration is a run of the pointer analysis of its own.
-/

namespace WholeProgram.Taint

/-! ## Flows -/

open PointsTo (Result)

/-- The taint of a source call reaches an argument of a sink call. -/
structure Flow where
  source : Site
  sink : Site
  index : Nat
deriving DecidableEq, Repr

namespace Flow

/-- The numbers by which flows are ordered. -/
def key (f : Flow) : List Nat := [f.source.method, f.source.index, f.sink.method, f.sink.index, f.index]

/-- Flows by source call, then sink call, then argument. -/
def le (f g : Flow) : Bool := Ordered.lexLe f.key g.key

/-- The source calls whose taint a variable may point to. -/
def taintsOf (r : Result) (v : VarId) : List Site :=
  (r.pointsTo v).toList.filterMap fun o => sourceCall? (r.core.obj o)

/-- The flows into one call of a sink. -/
def intoSink (p : Program) (r : Result) (site : Site) (s : Sink) : List Flow :=
  match varAt? p site (.arg s.index) with
  | none => []
  | some v => (taintsOf r v).map fun source => { source, sink := site, index := s.index }

/-- All flows of a result, each once. -/
def collect (p : Program) (r : Result) (rules : Rules) : List Flow :=
  let found := r.callGraph.edges.toList.flatMap fun e =>
    (rules.sinksOf e.callee).flatMap (intoSink p r e.site)
  found.eraseDups.mergeSort le

/-- A call site by its method and index. -/
def siteText (p : Program) (s : Site) : String := p.methodText s.method ++ "[" ++ toString s.index ++ "]"

def text (p : Program) (f : Flow) : String :=
  "TaintFlow\x7b" ++ siteText p f.source ++ " -> " ++ siteText p f.sink ++ "/" ++ toString f.index ++ "\x7d"

/-- The warnings about a flow. -/
def warnings (p : Program) (colours : Bool) (f : Flow) : List Message :=
  let red := Text.Colour.red.paint colours
  let green := Text.Colour.green.paint colours
  [ { level := .warn, text := " 💀 Sink reached at " ++ red (p.position f.sink.node) ++ "\n" },
    { level := .warn
      text := " Add new path from " ++ green (p.nodeLine f.source.node) ++ " to " ++ red (p.nodeLine f.sink.node)
        ++ " (argument " ++ toString f.index ++ ") <== \n" } ]

/-- The entry of a flow in a report. -/
def report (p : Program) (f : Flow) : String :=
  "Source: " ++ p.nodeLine f.source.node ++ "\nAt: " ++ p.position f.source.node
    ++ "\nSink: " ++ p.nodeLine f.sink.node ++ "\nAt: " ++ p.position f.sink.node
    ++ "\nArgument: " ++ toString f.index ++ "\n\n"

end Flow

/-! ## Problems -/

/-- The outcome of one problem. -/
structure Outcome where
  flows : List Flow
  pointers : PointsTo.Result

/-- Solves one problem. -/
def analyzeProblem (p : Program) (spec : TaintSpec) (opts : PointsTo.Options) :
    Logged AnalysisError Outcome := do
  match Rules.resolve p spec with
  | .error e => throw (.failed e)
  | .ok rules =>
    let (pointers, _) ← PointsTo.analyzeWith p opts (plugin p rules)
    return { flows := Flow.collect p pointers rules, pointers }

/-- The problem with the transfers of the known functions after its own, if they are asked for. -/
def withSummaries (c : Config) (spec : TaintSpec) : TaintSpec :=
  if c.useSummaries then { spec with transfers := spec.transfers ++ summaries } else spec

/-- Solves the problems of a configuration in order. -/
def analyze (c : Config) (p : Program) : Logged AnalysisError (List Outcome) := do
  let mut outcomes := #[]
  for (spec, i) in c.problems.zipIdx do
    let opts ← (MonadExcept.ofExcept c.pointsTo : Logged AnalysisError PointsTo.Options)
    let outcome ← AnalysisError.inPart ("taint tracking problem " ++ toString i)
      (analyzeProblem p (withSummaries c spec) opts)
    Logged.say .info ("Taint tracking problem " ++ toString i ++ " done (" ++ Log.duration ++ " s): "
      ++ toString outcome.flows.length ++ " flows")
    outcomes := outcomes.push outcome
  return outcomes.toList

/-- The warnings about the flows of one problem. -/
def warnings (p : Program) (colours : Bool) (flows : List Flow) : Log :=
  (flows.flatMap (Flow.warnings p colours)).toArray

/-- The report on the flows of one problem. -/
def report (p : Program) (flows : List Flow) : String := String.join (flows.map (Flow.report p))

end WholeProgram.Taint
