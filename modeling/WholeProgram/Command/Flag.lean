import WholeProgram.Text.Digits
import WholeProgram.Text.Quoted

/-!
# Command-line flags

A flag is written `-name`, `--name`, `-name=value` or `-name value`. Flags come before the other
arguments, and `--` ends them.
-/

namespace WholeProgram.Command

/-- What the value of a flag is. -/
inductive FlagKind where
  | text
  /-- A truth value that is true when no value is given. -/
  | switch
  | int
  /-- A list of words that may stand in quotes. -/
  | words
deriving DecidableEq, Repr

/-- A flag of a command. -/
structure Flag where
  name : String
  kind : FlagKind
  help : String
  /-- The text of its value when it is not given. -/
  default : String
deriving Repr

/-- The values given to flags, the last one first. -/
abbrev FlagValues := List (String × String)

/-- Why the arguments could not be read. -/
inductive FlagError where
  /-- Not an error: the usage was asked for. -/
  | help
  | badSyntax (arg : String)
  | undefined (name : String)
  | missingValue (name : String)
  | badSwitch (name value reason : String)
  | badValue (name value reason : String)
deriving Repr

namespace FlagError

def message : FlagError → String
  | help => "flag: help requested"
  | badSyntax arg => "bad flag syntax: " ++ arg
  | undefined name => "flag provided but not defined: -" ++ name
  | missingValue name => "flag needs an argument: -" ++ name
  | badSwitch name value reason =>
    "invalid boolean value " ++ Text.quote value ++ " for -" ++ name ++ ": " ++ reason
  | badValue name value reason =>
    "invalid value " ++ Text.quote value ++ " for flag -" ++ name ++ ": " ++ reason

end FlagError

/-! ## Values -/

/-- The truth value that a text spells. -/
def switch? (s : String) : Option Bool :=
  if ["1", "t", "T", "true", "TRUE", "True"].contains s then some true
  else if ["0", "f", "F", "false", "FALSE", "False"].contains s then some false
  else none

/-- The base that the beginning of a number announces, and the digits. -/
def baseOf : List Char → Nat × List Char
  | '0' :: x :: d :: rest =>
    if x == 'b' || x == 'B' then (2, d :: rest)
    else if x == 'o' || x == 'O' then (8, d :: rest)
    else if x == 'x' || x == 'X' then (16, d :: rest)
    else (8, x :: d :: rest)
  | '0' :: rest => (8, rest)
  | cs => (10, cs)

/-- Underscores stand between digits, or between the announcement of a base and a digit. -/
def underscoresFit (cs : List Char) : Bool :=
  let (isDigit, cs) : (Bool × List Char) := match cs with
    | '0' :: x :: rest => if "bBoOxX".toList.contains x then (true, rest) else (false, cs)
    | _ => (false, cs)
  let rec go : Bool → Bool → List Char → Bool
    | _, under, [] => !under
    | digit, under, c :: rest =>
      if c == '_' then digit && !under && go false true rest
      else go true false rest
  go isDigit false cs

/-- What is said of a text that spells no number. -/
def parseError : String := "parse error"

/-- What is said of a number that does not fit into its type. -/
def rangeError : String := "value out of range"

/-- The number that digits stand for in a base; underscores do not count. A number that leaves 64 bits is
refused at the digit where it does. -/
def natural (base : Nat) (cs : List Char) : Except String Nat :=
  (cs.filter (· != '_')).foldlM (fun n c =>
    match Text.digit? 16 c with
    | some d =>
      if base ≤ d then .error parseError
      else if Word.maxUnsigned < n * base + d then .error rangeError
      else .ok (n * base + d)
    | none => .error parseError) 0

/-- The 64-bit integer that a text spells, or what is wrong with it. -/
def int (s : String) : Except String Int := do
  let (negative, digits) := match s.toList with
    | '+' :: r => (false, r)
    | '-' :: r => (true, r)
    | r => (false, r)
  if digits.isEmpty then
    throw parseError
  let (base, ds) := baseOf digits
  let n ← natural base ds
  if digits.contains '_' && !underscoresFit digits then
    throw parseError
  if negative then
    if Word.minSigned ≤ -(n : Int) then return -(n : Int) else throw rangeError
  else
    if n ≤ Word.maxSigned then return n else throw rangeError

/-- The quote of a list of words that is not closed. -/
def openQuote? : Nat → List Char → Option Char
  | 0, _ => none
  | fuel + 1, cs =>
    match cs.dropWhile isSpace with
    | [] => none
    | c :: rest =>
      if c == '"' || c == Char.ofNat 0x27 then
        if rest.contains c then openQuote? fuel ((rest.dropWhile (· != c)).drop 1) else some c
      else openQuote? fuel (rest.dropWhile (!isSpace ·))
where
  isSpace (c : Char) : Bool := c == ' ' || c == '\t' || c == '\n' || c == '\r'

namespace Flag

/-- The value can be given to the flag. -/
def check (f : Flag) (value : String) : Except FlagError Unit :=
  match f.kind with
  | .text => .ok ()
  | .switch =>
    match switch? value with
    | some _ => .ok ()
    | none => .error (.badSwitch f.name value parseError)
  | .int => match int value with
    | .ok _ => .ok ()
    | .error reason => .error (.badValue f.name value reason)
  | .words =>
    match openQuote? (value.length + 1) value.toList with
    | some q => .error (.badValue f.name value ("unterminated " ++ q.toString ++ " string"))
    | none => .ok ()

end Flag

/-! ## Arguments -/

/-- The name and the value of a flag in an argument; `none` when it is no flag. -/
def splitFlag (arg : String) : Option (Except FlagError (String × Option String)) :=
  match arg.toList with
  | '-' :: c :: rest =>
    let name := if c == '-' then rest else c :: rest
    match name with
    | [] => none
    | n :: _ =>
      if n == '-' || n == '=' then some (.error (.badSyntax arg))
      else
        let value := (name.dropWhile (· != '=')).drop 1
        some (.ok (String.ofList (name.takeWhile (· != '=')),
          if name.contains '=' then some (String.ofList value) else none))
  | _ => none

/-- Reads flags up to the first argument that is none. -/
def parseFlags (flags : List Flag) : List String → FlagValues → Except FlagError (FlagValues × List String)
  | [], values => .ok (values, [])
  | arg :: rest, values =>
    if arg == "--" then .ok (values, rest)
    else match splitFlag arg with
      | none => .ok (values, arg :: rest)
      | some (.error e) => .error e
      | some (.ok (name, given)) =>
        match flags.find? (·.name == name) with
        | none => .error (if name == "help" || name == "h" then .help else .undefined name)
        | some f =>
          -- A switch never takes its value from the next argument.
          match (if f.kind = .switch then some (given.getD "true") else given), rest with
          | some value, rest =>
            match f.check value with
            | .error e => .error e
            | .ok () => parseFlags flags rest ((name, value) :: values)
          | none, value :: rest =>
            match f.check value with
            | .error e => .error e
            | .ok () => parseFlags flags rest ((name, value) :: values)
          | none, [] => .error (.missingValue name)

/-- The text given to a flag. -/
def FlagValues.text (v : FlagValues) (flags : List Flag) (name : String) : String :=
  (v.lookup name).getD (((flags.find? (·.name == name)).map (·.default)).getD "")

def FlagValues.isOn (v : FlagValues) (name : String) : Bool := ((v.lookup name).bind switch?).getD false

def FlagValues.int (v : FlagValues) (name : String) : Int :=
  match (v.lookup name).map Command.int with
  | some (.ok n) => n
  | _ => 0

/-- How a command is used: its description, and its flags by name. -/
def usageText (description : String) (flags : List Flag) : String :=
  let sorted := flags.mergeSort fun a b => decide (a.name ≤ b.name)
  description ++ "\nOptions:\n"
    ++ String.join (sorted.map fun f =>
      "  " ++ f.name ++ ": " ++ f.help ++ " (default: " ++ Text.quote f.default ++ ")\n")

end WholeProgram.Command
