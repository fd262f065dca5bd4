import WholeProgram.Config.Basic
import WholeProgram.Dataflow.Error
import WholeProgram.Lowering.Body

/-!
# From static single assignment form to programs

`lower` declares the packages to be lowered, lowers the bodies of their functions, and records the class
hierarchy. The entry methods are the initializers of the packages and then the main functions.
-/

namespace WholeProgram.Lowering

/-- What a lowering made. -/
structure Stats where
  packages : Nat
  functions : Nat
  /-- Methods without a body. -/
  stubs : Nat
  classes : Nat

/-- Lowers the bodies that wait; each function waits at most once. -/
def lowerWaiting : Nat → Lower Unit
  | 0 => return
  | fuel + 1 => do
    match (← get).waiting with
    | [] => return
    | (f, m) :: rest =>
      modify fun s => { s with waiting := rest }
      lowerFunction f m
      lowerWaiting fuel

/-- The packages to be lowered. -/
def Setting.packages (S : Setting) : List Ssa.Package := S.source.packages.filter fun p => S.lowers p.path

/-- Everything but the final check. -/
def lowerAll : Lower Unit := do
  let S ← read
  for pkg in S.packages do
    declarePackage pkg
  lowerWaiting (S.source.funcs.size + 1)
  declareAllocated
  recordImplementations
  modify fun s => { s with builder := { s.builder with entries := s.inits ++ s.mains } }

/-- The program of a setting, with what was made. -/
def lower (S : Setting) : Except (Array BuildError) Program × Stats :=
  let ((), s) := (lowerAll.run S).run {}
  (s.builder.build, { packages := S.packages.length, functions := s.functions, stubs := s.stubs
                      classes := s.classes.size })

/-- Why a source program has no program to analyse. -/
inductive Error where
  | rejected (errors : Array BuildError)
  /-- No method has the name that the configuration gives. -/
  | noEntry (selector : Text.ByteText)

namespace Error

def message : Error → String
  | rejected errors =>
    "failed to lower program: " ++ "\n".intercalate (errors.toList.map BuildError.message)
  | noEntry selector => "entry method " ++ selector.quoted ++ ": no entry method"

end Error

/-- The setting of a configuration. -/
def Setting.ofConfig (c : Config) (source : Ssa.Program) : Setting where
  source
  admits path := !c.pkgFilter.isEmpty && c.admitsPackage path

/-- The program to analyse under a configuration. The entry method of the configuration, if it has one,
replaces those of the program. -/
def buildProgram (c : Config) (source : Ssa.Program) : Logged Error Program := do
  let (result, stats) := lower (Setting.ofConfig c source)
  Logged.say .debug ("lowered " ++ toString stats.packages ++ " packages: " ++ toString stats.functions
    ++ " functions, " ++ toString stats.stubs ++ " stubs, " ++ toString stats.classes ++ " classes")
  match result with
  | .error errors => throw (.rejected errors)
  | .ok p =>
    Logged.say .info ("Lowered " ++ toString stats.packages ++ " packages (" ++ toString stats.functions
      ++ " functions, " ++ toString stats.stubs ++ " stubs)")
    if c.entryMethod.isEmpty then return p
    match (c.entryMethod.text?.map p.lookup).getD [] with
    | [] => throw (.noEntry c.entryMethod)
    | entries => return p.withEntries entries

end WholeProgram.Lowering
