import WholeProgram.Command.Tool
import WholeProgram.Config.Settings
import WholeProgram.Lowering.Basic
import WholeProgram.Sources.Document
import WholeProgram.Files.Tree
import WholeProgram.Text.Colour

/-!
# What a command sees and does

A command prints on two streams and writes files. It is given the packages that were found and is an
`Session`: its effects are a value, the `Console`, and what it did before an error stays done.
-/

namespace WholeProgram.Command

/-- What was printed, and the files as they are now. -/
structure Console where
  out : String := ""
  err : String := ""
  files : FileTree := {}

/-- What is given to a command. -/
structure Surroundings where
  colours : Bool := false
  listing : Sources.Listing := {}

/-- Why a command failed. -/
inductive Error where
  | arguments (e : Tool.Error)
  | config (path : String) (e : Config.LoadError)
  /-- The taint analysis was given no configuration. -/
  | noConfig
  | noProblems (path : String)
  | load (reason : String)
  | lowering (e : Lowering.Error)
  /-- The options of an analysis mean nothing. -/
  | options (reason : String)
  /-- Something that the command was doing went wrong. -/
  | step (what reason : String)
  /-- The command itself failed, whatever it was doing. -/
  | fault (reason : String)

namespace Error

def message : Error → String
  | arguments e => e.message
  | config path e => "failed to load config file " ++ path ++ ": " ++ e.message
  | noConfig => "the taint analysis needs a config file with taint-tracking-problems"
  | noProblems path => "config file " ++ path ++ " has no taint-tracking-problems"
  | load reason => "could not load program: " ++ reason
  | lowering e => e.message
  | options reason => reason
  | step what reason => what ++ ": " ++ reason
  | fault reason => reason

/-- Why the command itself failed, if it did. -/
def fault? : Error → Option String
  | fault reason => some reason
  | _ => none

end Error

abbrev Session := ReaderT Surroundings (ExceptT Error (StateM Console))

namespace Session

/-- The outcome of an action and what it left behind. -/
def start {α : Type} (a : Session α) (s : Surroundings) (c : Console) : Except Error α × Console :=
  (ExceptT.run (a.run s)).run c

def print (text : String) : Session Unit := modify fun c => { c with out := c.out ++ text }

def printError (text : String) : Session Unit := modify fun c => { c with err := c.err ++ text }

/-- Shows the messages that the configuration lets through. -/
def showLog (c : Config) (log : Log) : Session Unit := printError (log.shown c.logLevel)

def say (c : Config) (level : LogLevel) (text : String) : Session Unit := showLog c #[{ level, text }]

def painted (colour : Text.Colour) (text : String) : Session String :=
  return colour.paint (← read).colours text

/-- Says what the command is about to do. -/
def announce (c : Config) (text : String) : Session Unit := do say c .info (← painted .faint text)

def printTitled (title : String) (items : List String) : Session Unit := do
  print (Text.titled (← read).colours title items)

/-- Runs an analysis and shows its messages, also those before an error. -/
def logged {ε α : Type} (c : Config) (failure : ε → Error) (x : Logged ε α) : Session α := do
  let (result, log) := x.start
  showLog c log
  match result with
  | .ok a => return a
  | .error e => throw (failure e)

/-- Replaces the files. -/
def putFiles (files : FileTree) : Session Unit := modify fun c => { c with files }

/-- Changes the files, or fails doing so. -/
def changeFiles (what : String) (change : FileTree → Except String FileTree) : Session Unit := do
  match change (← get).files with
  | .ok files => putFiles files
  | .error reason => throw (.step what reason)

/-- The configuration in a file. -/
def loadConfig (path : String) (failure : Config.LoadError → Error) : Session Config := do
  match Config.loadFile path (((← get).files.read path).mapError (·.message)) with
  | .ok c => return c
  | .error e => throw (if e.isFault then .fault e.message else failure e)

/-- The configuration that the flags name; without a name, the one that holds by default. -/
def configure (flags : Common) (tool : Tool) : Session Config := do
  let c ← if flags.config.isEmpty then pure {} else loadConfig flags.config (.config flags.config)
  let c := if flags.verbose then { c with logLevel := LogLevel.debug.rank } else c
  announce c ("fixpoint " ++ tool.name ++ " - " ++ version)
  return c

/-- The program of the packages that were found. -/
def readSources (c : Config) : Session Program := do
  announce c "Reading sources"
  let (printed, result) := (← read).listing.load
  printError printed
  match result with
  | .error reason => throw (.load reason)
  | .ok source => logged c .lowering (Lowering.buildProgram c source)

end Session

end WholeProgram.Command
