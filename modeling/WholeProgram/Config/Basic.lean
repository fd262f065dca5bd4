import WholeProgram.Config.CodeIdentifier
import WholeProgram.Files.Path

/-!
# Configurations

The options of the analyses and the taint tracking problems.
-/

namespace WholeProgram

/-- A configuration. -/
structure Config where
  logLevel : Int := 3
  /-- Bound on the iterations of every solver; none when it is not positive. -/
  maxIterations : Int := 0
  /-- Selector of the entry methods; empty for the static methods named `main`. -/
  entryMethod : Text.ByteText := ""
  pkgFilter : Text.ByteText := ""
  contextSensitivity : Text.ByteText := "ci"
  contextDepth : Int := 1
  heapContextDepth : Int := 0
  ignoreUnresolvedCalls : Bool := false
  ignoreDeadAssignments : Bool := false
  skipSideEffects : Bool := false
  useSummaries : Bool := false
  problems : List TaintSpec := []
  /-- The compiled package filter, if it is an expression. -/
  pkgRegex : Option Text.Pattern := none
  /-- The file that the configuration was read from. -/
  file : String := ""

namespace Config

/-- The context sensitivities by name. -/
def sensitivities : List String := ["ci", "k-call", "k-obj", "k-type"]

/-- The package passes the filter: the filter is an expression that matches it, or no expression but a
beginning of it. -/
def admitsPackage (c : Config) (pkg : String) : Bool :=
  match c.pkgRegex with
  | some r => r.isMatch pkg
  | none => c.pkgFilter.isEmpty || c.pkgFilter.begins pkg

def isSomeSource (c : Config) (cls method : String) : Bool :=
  c.problems.any fun t => !(t.sourcesOf cls method).isEmpty

def isSomeSink (c : Config) (cls method : String) : Bool :=
  c.problems.any fun t => !(t.sinkIndices cls method).isEmpty

/-- A path relative to the file of the configuration. -/
def relativePath (c : Config) (path : String) : String := joinPath [dirName c.file, path]

end Config

end WholeProgram
