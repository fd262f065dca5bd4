import WholeProgram.Command.Console

/-!
# Programs with expectations

A directory with a program to try an analysis on also has its configuration.
-/

namespace WholeProgram.Command

/-- The name of the configuration in a directory. -/
def configName : String := "config.yaml"

/-- Reads the program in a directory, then its configuration, and lowers the program. -/
def loadFixture (dir : String) : Session (Program × Config) := do
  let (printed, result) := (← read).listing.load
  Session.printError printed
  match result with
  | .error reason => throw (.step "error loading packages" reason)
  | .ok source =>
    let c ← Session.loadConfig (joinPath [dir, configName])
      fun e => .step "error loading global config" e.message
    let p ← Session.logged c (fun e => .step "error lowering program" e.message) (Lowering.buildProgram c source)
    return (p, c)

end WholeProgram.Command
