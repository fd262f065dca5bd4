import WholeProgram.Config.Loader
import WholeProgram.DeadCode
import WholeProgram.PointsTo.Solver

/-!
# The options of the analyses

What a configuration says to each analysis.
-/

namespace WholeProgram.Config

/-- The context selector that the configuration names. -/
def selector (c : Config) : Except AnalysisError PointsTo.Selector :=
  let named := c.contextSensitivity.text?.bind fun name =>
    PointsTo.Selector.ofName? name c.contextDepth c.heapContextDepth
  match named with
  | some s => .ok s
  | none => .error (.failed ("unknown context sensitivity " ++ c.contextSensitivity.quoted))

/-- The options of the pointer analysis. -/
def pointsTo (c : Config) : Except AnalysisError PointsTo.Options := do
  return { selector := ← c.selector, limit := c.maxIterations, ignoreUnresolved := c.ignoreUnresolvedCalls }

/-- The options of the search for dead code. -/
def deadCode (c : Config) : DeadCode.Options where
  limit := c.maxIterations
  ignoreAssignments := c.ignoreDeadAssignments
  skipSideEffects := c.skipSideEffects

end WholeProgram.Config
