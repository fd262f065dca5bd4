import WholeProgram.Command.Run
import WholeProgram.Text.Regex.Match
import WholeProgram.Text.Regex.Parser

/-!
# The command line

The first argument names a tool, the others are given to it. `commandLine` says what is printed and
written and with which code the command ends. After an error comes advice on what to do about it, found by
the words of its message.
-/

namespace WholeProgram.Command

/-! ## Hints -/

/-- A pattern of messages and what to do about them; with a second pattern, what to do about those
messages that match it too. -/
structure Hint where
  pattern : String
  advice : String
  special : Option (String × String) := none

namespace Hint

def all : List Hint :=
  [ { pattern := "could not load program"
      advice := "make sure you have provided the right arguments for an analyzer to load a Go program"
      special := some ("-: named files must be .go files: -(\\w)",
        "all command line flags should be before the path to the Go files to analyze") },
    { pattern := "no entry method"
      advice := "this analysis starts from the entry methods; the path should lead to a main package, "
        ++ "or the config should set entry-method" },
    { pattern := "no concrete method .* or its super classes"
      advice := "set unsafe-ignore-unresolved-calls in the config to skip unresolved calls "
        ++ "(the results may be unsound)" },
    { pattern := "iteration limit exceeded"
      advice := "increase max-iterations in the config, or set it to 0 to remove the bound" } ]

/-- The pattern occurs in the message. -/
def occurs (pattern message : String) : Bool :=
  ((Text.Pattern.parse? pattern).map (·.isMatch message)).getD false

/-- The advice on an error message; empty when there is none. -/
def forMessage (message : String) : String :=
  match all.find? fun h => occurs h.pattern message with
  | none => ""
  | some h => match h.special with
    | some (pattern, advice) => if occurs pattern message then advice else h.advice
    | none => h.advice

end Hint

/-! ## The command -/

def usage : String := "Fixpoint: dataflow and pointer analyses of Go programs
Usage:
  fixpoint [tool] [options] <package path(s)>
Tools:
  - constprop: prints the integer constants of every statement, intraprocedurally or over the ICFG
  - deadcode: prints the unreachable statements and the dead assignments of every function
  - callgraph: builds the call graph by class hierarchy analysis or pointer analysis
  - pta: runs a pointer analysis and prints the points-to sets of the variables
  - taint: runs the taint analysis of the config and prints the flows from sources to sinks
  - statistics: prints statistics about the IR of the program
  - render: writes GraphViz files of the call graph, the control-flow graphs or the pointer flow graph, or dumps the IR
Examples:
  Print the constants over the ICFG: fixpoint constprop -inter main.go
  Run the taint analysis: fixpoint taint -config config.yaml main.go"

/-- How a command ended. -/
structure Outcome where
  exit : Nat := 0
  console : Console
  /-- Why the command itself failed, if it did. -/
  fault : Option String := none

/-- The code of a command that failed. -/
def failureCode : Nat := 2

/-- What is said about an error that ends a command. -/
def Error.farewell (e : Error) : String :=
  let hint := Hint.forMessage e.message
  "error: " ++ e.message ++ "\n" ++ (if hint.isEmpty then "" else "Hint: " ++ hint ++ "\n")

/-- Runs a tool with its arguments. -/
def runTool (tool : Tool) (args : List String) : Session Unit := do
  match tool.parse args with
  | .error e => throw (.arguments e)
  | .ok i => i.run

/-- A tool on the command line: arguments that cannot be read are answered with the usage. -/
def toolLine (tool : Tool) (args : List String) (s : Surroundings) (c : Console) : Outcome :=
  match (runTool tool args).start s c with
  | (.ok (), c) => { console := c }
  | (.error (.arguments (.flags _ _ .help)), c) => { console := { c with err := c.err ++ tool.usage } }
  | (.error (.arguments (.flags _ _ e)), c) =>
    { exit := failureCode, console := { c with err := c.err ++ e.message ++ "\n" ++ tool.usage } }
  | (.error e, c) =>
    { exit := failureCode, console := { c with err := c.err ++ e.farewell }, fault := e.fault? }

/-- Runs the command with its arguments. -/
def commandLine (args : List String) (s : Surroundings) (c : Console) : Outcome :=
  match args with
  | [] =>
    { exit := failureCode, console := { c with err := c.err ++ "error: expected subcommand\n" ++ usage ++ "\n" } }
  | first :: rest =>
    if first == "-help" || first == "--help" then { console := { c with out := c.out ++ usage ++ "\n" } }
    else if first == "-version" || first == "--version" then
      { console := { c with out := c.out ++ version ++ "\n" } }
    else match Tool.ofName? first with
      | some tool => toolLine tool rest s c
      | none =>
        { exit := failureCode
          console := { c with
            err := c.err ++ "error: unexpected command: " ++ first ++ "\nusage:\n" ++ usage ++ "\n" } }

end WholeProgram.Command
