import WholeProgram.Command.Flag

/-!
# The tools

Every tool has a name, a description and flags; `Tool.parse` reads its arguments into an `Invocation`.
-/

namespace WholeProgram.Command

/-- The version of the tools. -/
def version : String := "v0.1.0"

inductive Tool where
  | constants | deadCode | callGraph | pointsTo | render | statistics | taint
deriving DecidableEq, Repr

/-- How a call graph is made. -/
inductive Algorithm where
  | classHierarchy | pointsTo
deriving DecidableEq, Repr

namespace Algorithm

def name : Algorithm → String
  | classHierarchy => "cha"
  | pointsTo => "pta"

def ofName? (s : String) : Option Algorithm := [classHierarchy, pointsTo].find? (·.name == s)

end Algorithm

/-- What all tools are told. -/
structure Common where
  config : String := ""
  verbose : Bool := false
  withTest : Bool := false
  /-- The arguments after the flags. -/
  args : List String := []
deriving Repr

/-- A tool with what it is asked for. -/
inductive Request where
  | constants (inter aliases : Bool)
  | deadCode
  | callGraph (algorithm : Algorithm) (cycles components : Bool)
  | pointsTo (sensitivity : String) (depth : Int)
  | render (algorithm : Algorithm) (callGraph controlFlow pointerFlow classes : String)
  | statistics
  | taint
deriving Repr

/-- The arguments of a tool, read. -/
structure Invocation where
  common : Common
  request : Request
deriving Repr

namespace Tool

def all : List Tool := [constants, deadCode, callGraph, pointsTo, render, statistics, taint]

def name : Tool → String
  | constants => "constprop"
  | deadCode => "deadcode"
  | callGraph => "callgraph"
  | pointsTo => "pta"
  | render => "render"
  | statistics => "statistics"
  | taint => "taint"

def ofName? (s : String) : Option Tool := all.find? (·.name == s)

/-- The description of a tool. -/
def description : Tool → String
  | constants => " Print the integer constants holding after every statement.
Usage:
  fixpoint constprop [options] <package path(s)>
Examples:
  % fixpoint constprop main.go
  % fixpoint constprop -inter -alias -config config.yaml package...
"
  | deadCode => " Print the dead statements of every function: the statements that are unreachable and the
 assignments to variables that are never used.
Usage:
  fixpoint deadcode [options] <package path(s)>
Examples:
  % fixpoint deadcode main.go
"
  | callGraph => " Build the call graph of the program and print the callees of every reachable function.
Usage:
  fixpoint callgraph [options] <package path(s)>
Examples:
  % fixpoint callgraph -algo cha main.go
  % fixpoint callgraph -algo pta -cycles -config config.yaml package...
"
  | pointsTo => " Run a pointer analysis and print the objects each variable may point to.
Usage:
  fixpoint pta [options] <package path(s)>
Examples:
  % fixpoint pta main.go
  % fixpoint pta -cs k-obj -k 2 package...
"
  | render => "Render call graphs, control-flow graphs, pointer flow graphs or the IR of your packages.
Usage:
  fixpoint render [options] <package path(s)>
Examples:
Render a call graph computed using pointer analysis
  % fixpoint render -algo pta -cgout example.dot package...
Print out all the classes in IR form
  % fixpoint render -irout tmpIR package...
"
  | statistics => " Print statistics about the IR of your packages.
Usage:
  fixpoint statistics [options] <package path(s)>
Examples:
  % fixpoint statistics package...
"
  | taint => " Perform taint analysis on your packages.
Usage:
  fixpoint taint [options] <package path(s)>
Examples:
  % fixpoint taint -config config.yaml package...
"

/-- The flags of every tool. -/
def commonFlags : List Flag :=
  [ { name := "config", kind := .text, help := "config file path for analysis (optional)", default := "" },
    { name := "verbose", kind := .switch, help := "verbose printing on standard output", default := "false" },
    { name := "with-test", kind := .switch, help := "load tests during analysis", default := "false" },
    { name := "build-tags", kind := .words
      help := "a list of \x60build tags\x60 to consider satisfied during the build. For more information about "
        ++ "build tags, see the description of build constraints in the documentation for the go/build package"
      default := "<tagsFlag>" } ]

def algorithmFlag : Flag :=
  { name := "algo", kind := .text, help := "call graph algorithm: cha or pta", default := "cha" }

/-- The flags of a tool besides those of every tool. -/
def ownFlags : Tool → List Flag
  | constants =>
    [ { name := "inter", kind := .switch, help := "propagate constants over the ICFG of the CHA call graph"
        default := "false" },
      { name := "alias", kind := .switch
        help := "propagate constants through fields and arrays, using a pointer analysis (implies -inter)"
        default := "false" } ]
  | callGraph =>
    [ algorithmFlag,
      { name := "cycles", kind := .switch, help := "print the elementary cycles of the call graph"
        default := "false" },
      { name := "scc", kind := .switch
        help := "print the recursive strongly connected components of the call graph", default := "false" } ]
  | pointsTo =>
    [ { name := "cs", kind := .text
        help := "override the context sensitivity of the config: ci, k-call, k-obj or k-type", default := "" },
      { name := "k", kind := .int
        help := "override the context depth of the config; heap contexts have depth k-1", default := "0" } ]
  | render =>
    [ algorithmFlag,
      { name := "cgout", kind := .text, help := "output file for call graph (no output if not specified)"
        default := "" },
      { name := "cfgout", kind := .text
        help := "output folder for control-flow graphs (no output if not specified)", default := "" },
      { name := "pfgout", kind := .text, help := "output file for pointer flow graph (no output if not specified)"
        default := "" },
      { name := "irout", kind := .text, help := "output folder for IR (no output if not specified)"
        default := "" } ]
  | deadCode | statistics | taint => []

def flags (t : Tool) : List Flag := commonFlags ++ t.ownFlags

def usage (t : Tool) : String := usageText t.description t.flags

/-- Why the arguments of a tool are no invocation. -/
inductive Error where
  | flags (tool : Tool) (args : List String) (e : FlagError)
  /-- The value of a flag means nothing to the tool. -/
  | unknownAlgorithm (tool : Tool) (name : String)

namespace Error

def message : Error → String
  | flags tool args e =>
    "failed to parse command " ++ tool.name ++ " with args [" ++ " ".intercalate args ++ "]: " ++ e.message
  | unknownAlgorithm render name => "analysis " ++ Text.quote name ++ " not recognized"
  | unknownAlgorithm _ name =>
    "unknown call graph algorithm " ++ Text.quote name ++ " (expected cha or pta)"

end Error

/-- Reads the arguments of a tool. -/
def parse (t : Tool) (args : List String) : Except Error Invocation := do
  let (v, rest) ← (parseFlags t.flags args []).mapError (.flags t args)
  let text := v.text t.flags
  let algorithm : Except Error Algorithm :=
    match Algorithm.ofName? (text "algo") with
    | some a => .ok a
    | none => .error (.unknownAlgorithm t (text "algo"))
  let request ← match t with
    | constants => pure (Request.constants (v.isOn "inter" || v.isOn "alias") (v.isOn "alias"))
    | deadCode => pure .deadCode
    | callGraph => do pure (.callGraph (← algorithm) (v.isOn "cycles") (v.isOn "scc"))
    | pointsTo => pure (.pointsTo (text "cs") (v.int "k"))
    | render => do
      pure (.render (← algorithm) (text "cgout") (text "cfgout") (text "pfgout") (text "irout"))
    | statistics => pure .statistics
    | taint => pure .taint
  let common : Common :=
    { config := text "config", verbose := v.isOn "verbose", withTest := v.isOn "with-test", args := rest }
  return { common, request }

end Tool

end WholeProgram.Command
