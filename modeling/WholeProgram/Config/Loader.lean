import WholeProgram.Config.Basic
import WholeProgram.Config.Decode

/-!
# Loading configurations

A configuration file is a mapping with the keys `options` and `taint-tracking-problems`. Keys that are
not known are ignored, a key that stands twice is an error, and an absent or null value leaves the
default. After decoding, missing options get values that depend on others, and the whole is checked.

Documents are decoded elsewhere: the loader is given a `Decoder`, and what it checks does not depend on
which. `Decoder.yaml` is the one that the commands use.
-/

namespace WholeProgram.Config

/-- Why a configuration could not be loaded. -/
inductive LoadError where
  /-- The file could not be read; the text says why. -/
  | unreadable (reason : String)
  /-- The text is no document, or a value has the wrong type. -/
  | malformed
  /-- The text has keys that cannot be compared. -/
  | incomparableKeys
  | unknownSensitivity (name : Text.ByteText)
  | heapDepth (contextDepth heapDepth : Int)
  | problem (index : Nat) (message : String)
  /-- The error of a file. -/
  | inFile (file : String) (e : LoadError)

namespace LoadError

def message : LoadError → String
  | unreadable reason => "could not read config file: " ++ reason
  | malformed => "could not unmarshal config file"
  | incomparableKeys => "runtime error"
  | unknownSensitivity name =>
    "unknown context-sensitivity " ++ name.quoted ++ " (expected ci, k-call, k-obj or k-type)"
  | heapDepth k hk =>
    "heap-context-depth must be between 0 and context-depth (" ++ toString k ++ "), got " ++ toString hk
  | problem i m => "taint tracking problem " ++ toString i ++ ": " ++ m
  | inFile file e => file ++ ": " ++ e.message

/-- The loader itself failed: such an error is never put into the words of a command. -/
def isFault : LoadError → Bool
  | incomparableKeys => true
  | _ => false

def ofFault : Fault → LoadError
  | .malformed => malformed
  | .incomparable => incomparableKeys

end LoadError

/-- The code that an identifier of a problem describes. -/
def identifier (fuel : Nat) (e : Text.Yaml.Element) : Decode (Option CodeIdentifier) :=
  Decode.record fuel
    [ Decode.field "class" Decode.text fun (c : CodeIdentifier) cls => { c with cls },
      Decode.field "method" Decode.text fun c method => { c with method },
      Decode.field "type" Decode.text fun c ty => { c with ty },
      Decode.field "index" Decode.int fun c index => { c with index },
      Decode.field "from" Decode.text fun c source => { c with source },
      Decode.field "to" Decode.text fun c target => { c with target } ]
    e {}

/-- A problem of taint tracking. -/
def problem (fuel : Nat) (e : Text.Yaml.Element) : Decode (Option TaintSpec) :=
  let identifiers := Decode.list (identifier fuel)
  Decode.record fuel
    [ Decode.field "sources" identifiers fun (t : TaintSpec) sources => { t with sources },
      Decode.field "sinks" identifiers fun t sinks => { t with sinks },
      Decode.field "transfers" identifiers fun t transfers => { t with transfers } ]
    e {}

/-- The options over those of a configuration. -/
def options (fuel : Nat) (e : Text.Yaml.Element) (c : Config) : Decode Config :=
  Decode.visit
    (fun e => do
      let decoded ← Decode.record fuel
        [ Decode.field "log-level" Decode.int fun (c : Config) logLevel => { c with logLevel },
          Decode.field "max-iterations" Decode.int fun c maxIterations => { c with maxIterations },
          Decode.field "entry-method" Decode.text fun c entryMethod => { c with entryMethod },
          Decode.field "pkg-filter" Decode.text fun c pkgFilter => { c with pkgFilter },
          Decode.field "context-sensitivity" Decode.text fun c contextSensitivity => { c with contextSensitivity },
          Decode.field "context-depth" Decode.int fun c contextDepth => { c with contextDepth },
          Decode.field "heap-context-depth" Decode.int fun c heapContextDepth => { c with heapContextDepth },
          Decode.field "unsafe-ignore-unresolved-calls" Decode.bool
            fun c ignoreUnresolvedCalls => { c with ignoreUnresolvedCalls },
          Decode.field "ignore-dead-assignments" Decode.bool
            fun c ignoreDeadAssignments => { c with ignoreDeadAssignments },
          Decode.field "skip-side-effecting-assignments" Decode.bool fun c skipSideEffects => { c with skipSideEffects },
          Decode.field "use-stdlib-summaries" Decode.bool fun c useSummaries => { c with useSummaries } ]
        e c
      return decoded.getD c)
    e

/-- What the loader asks of a decoder of documents. -/
structure Decoder where
  /-- The names of the options that a text gives. -/
  optionNames : String → Except Fault (List Text.ByteText)
  /-- The configuration that a text describes, over the one that is given. -/
  config : Config → String → Except Fault Config

/-- The decoder of documents with options and problems. The names of the options are not known when an
option of any name has a value that cannot be decoded, also one that does not matter otherwise. -/
def Decoder.yaml : Decoder where
  optionNames text := do
    let some d := Text.Yaml.Document.read? text | throw .malformed
    let names ← Decode.document d fun e =>
      Decode.record d.bound
        [Decode.field "options" (Decode.keys d.bound) fun (_ : List Text.ByteText) names => names]
        e []
    return names.getD []
  config c text := do
    let some d := Text.Yaml.Document.read? text | throw .malformed
    let decoded ← Decode.document d fun e =>
      Decode.record d.bound
        [ ("options", options d.bound),
          Decode.field "taint-tracking-problems" (Decode.list (problem d.bound))
            fun (c : Config) problems => { c with problems } ]
        e c
    return decoded.getD c

/-- The text gives the depth of heap contexts. It counts as not given when its names cannot be decoded. -/
def givesHeapDepth (d : Decoder) (text : String) : Except Fault Bool :=
  match d.optionNames text with
  | .ok names => .ok (names.any (·.isText "heap-context-depth"))
  | .error .malformed => .ok false
  | .error .incomparable => .error .incomparable

/-- Compiles the problems in order. -/
def compileProblems (ts : List TaintSpec) : Except LoadError (List TaintSpec) :=
  ts.zipIdx.mapM fun (t, i) =>
    match t.compile with
    | .ok t => .ok t
    | .error e => .error (.problem i e)

/-- Fills in what depends on other options. -/
def withDefaults (c : Config) (heapDepthGiven : Bool) : Config :=
  let depth := if c.contextDepth ≤ 0 then 1 else c.contextDepth
  { c with
    logLevel := if c.logLevel = 0 then 3 else c.logLevel
    contextSensitivity := if c.contextSensitivity.isEmpty then "ci" else c.contextSensitivity
    contextDepth := depth
    -- A depth of heap contexts that is not given follows the depth of contexts, whatever the default.
    heapContextDepth := if heapDepthGiven then c.heapContextDepth else depth - 1 }

/-- Fills in what depends on other options, and checks the whole. -/
def complete (c : Config) (heapDepthGiven : Bool) : Except LoadError Config := do
  let c := c.withDefaults heapDepthGiven
  if !sensitivities.any c.contextSensitivity.isText then
    throw (.unknownSensitivity c.contextSensitivity)
  if c.heapContextDepth < 0 ∨ c.contextDepth < c.heapContextDepth then
    throw (.heapDepth c.contextDepth c.heapContextDepth)
  let pkgRegex := if c.pkgFilter.isEmpty then none else c.pkgFilter.text?.bind Text.Pattern.parse?
  let problems ← compileProblems c.problems
  return { c with pkgRegex, problems }

/-- The configuration that a text describes, by a decoder. -/
def loadWith (d : Decoder) (text : String) : Except LoadError Config := do
  let heapDepthGiven ← (givesHeapDepth d text).mapError .ofFault
  let c ← (d.config {} text).mapError .ofFault
  complete c heapDepthGiven

/-- The configuration that a text describes. -/
def load (text : String) : Except LoadError Config := loadWith .yaml text

/-- The configuration in a file, given its content or why it has none. -/
def loadFile (file : String) (content : Except String String) : Except LoadError Config :=
  match content with
  | .error reason => .error (.unreadable reason)
  | .ok text =>
    match load text with
    | .ok c => .ok { c with file }
    | .error e => .error (if e.isFault then e else .inFile file e)

end WholeProgram.Config
