import WholeProgram.Config.Basic
import WholeProgram.Text.Json.Value

/-!
# Configurations as documents

A JSON document can hold some options and the problems of taint tracking in place of those of a
configuration.
-/

namespace WholeProgram

open Text (Json)

/-- The identifier that a document holds. -/
def CodeIdentifier.ofDocument (j : Json) : CodeIdentifier where
  cls := (j.get "class").text
  method := (j.get "method").text
  ty := (j.get "type").text
  index := (j.get "index").int
  source := (j.get "from").text
  target := (j.get "to").text

/-- The problem that a document holds; its identifiers are compiled if that is said. -/
def TaintSpec.ofDocument (compiled : Bool) (j : Json) : TaintSpec :=
  let identifiers (key : String) : List CodeIdentifier := (j.get key).list fun i =>
    let c := CodeIdentifier.ofDocument i
    if compiled then c.compile else c
  { sources := identifiers "sources", sinks := identifiers "sinks", transfers := identifiers "transfers" }

namespace Config

/-- The configuration with the options that a document holds in place of its own. -/
def withOptions (c : Config) (j : Json) : Config :=
  let pick {α : Type} (key : String) (read : Json → α) (default : α) : α := ((j.get key).option read).getD default
  { c with
    contextSensitivity := pick "cs" (fun v => v.text) c.contextSensitivity
    contextDepth := pick "k" Json.int c.contextDepth
    heapContextDepth := pick "hk" Json.int c.heapContextDepth
    maxIterations := pick "max_iterations" Json.int c.maxIterations
    ignoreUnresolvedCalls := pick "ignore_unresolved" Json.isTrue c.ignoreUnresolvedCalls
    ignoreDeadAssignments := pick "ignore_dead_assignments" Json.isTrue c.ignoreDeadAssignments
    skipSideEffects := pick "skip_side_effects" Json.isTrue c.skipSideEffects
    logLevel := pick "log_level" Json.int c.logLevel }

/-- The configuration with the problems that a document holds, if it holds any, in place of its own. -/
def withProblems (c : Config) (compiled : Bool) : Json → Config
  | .arr ts => { c with problems := ts.map (TaintSpec.ofDocument compiled) }
  | _ => c

end Config

end WholeProgram
