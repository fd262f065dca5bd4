/-!
# Log messages

Analyses describe their progress in messages of five levels. A log of level `n` shows the messages of
the levels up to `n`, each on a line of its own under the tag of its level.
-/

namespace WholeProgram

/-- Levels, the most urgent first. -/
inductive LogLevel where
  | error | warn | info | debug | trace
deriving DecidableEq, Repr

namespace LogLevel

def rank : LogLevel → Int
  | error => 1
  | warn => 2
  | info => 3
  | debug => 4
  | trace => 5

def tag : LogLevel → String
  | error => "[ERROR] "
  | warn => "[WARN] "
  | info => "[INFO] "
  | debug => "[DEBUG] "
  | trace => "[TRACE] "

def ofName? : String → Option LogLevel
  | "error" => some error
  | "warn" => some warn
  | "info" => some info
  | "debug" => some debug
  | "trace" => some trace
  | _ => none

/-- A log of level `shown` prints messages of level `l`. -/
def shownAt (l : LogLevel) (shown : Int) : Bool := decide (l.rank ≤ shown)

end LogLevel

/-- One message. -/
structure Message where
  level : LogLevel
  text : String
deriving Repr

namespace Message

/-- The printed message: it ends a line. -/
def line (m : Message) : String :=
  m.level.tag ++ m.text ++ (if m.text.endsWith "\n" then "" else "\n")

end Message

/-- The messages of a computation, oldest first. -/
abbrev Log := Array Message

namespace Log

/-- What a log of level `level` prints. -/
def shown (log : Log) (level : Int) : String :=
  log.foldl (fun acc m => if m.level.shownAt level then acc ++ m.line else acc) ""

/-- How messages show the time that something took. Runs are reproducible: what they print depends on
their input alone. -/
def duration : String := "T"

/-- The printed lines, without the end of the last one. -/
def lines (log : Log) (level : Int) : List String :=
  let text := log.shown level
  if text.isEmpty then [] else
    let text := if text.endsWith "\n" then (text.dropEnd 1).toString else text
    (text.splitOn "\n")

end Log

/-- A computation that writes messages and may fail. -/
abbrev Logged (ε α : Type) := ExceptT ε (StateM Log) α

namespace Logged

variable {ε α : Type}

/-- Adds one message. -/
def say (level : LogLevel) (text : String) : Logged ε Unit :=
  modifyThe Log (·.push { level, text })

/-- Adds all messages of another computation. -/
def sayAll (log : Log) : Logged ε Unit := modifyThe Log (· ++ log)

/-- The outcome and the messages. -/
def start (c : Logged ε α) : Except ε α × Log := (ExceptT.run c).run #[]

end Logged

end WholeProgram
