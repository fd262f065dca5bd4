import WholeProgram.Command.Line
import WholeProgram.Sources.Document
import WholeProgram.Text.Json.Reader

/-!
# The command

Standard input holds the document that describes the packages and the files of the working directory;
the arguments are those of `Command.commandLine`.
-/

open WholeProgram

/-- Carries out what a command did. -/
def carryOut (before : FileTree) (o : Command.Outcome) : IO UInt32 := do
  for (path, text) in o.console.files.newFiles before do
    IO.FS.createDirAll (dirName path)
    IO.FS.writeFile path text
  IO.print o.console.out
  IO.eprint o.console.err
  return UInt32.ofNat o.exit

def main (args : List String) : IO UInt32 := do
  let input ← (← IO.getStdin).readToEnd
  let document := (Text.Json.read? input).getD .null
  let files := Sources.Document.files document
  carryOut files (Command.commandLine args { listing := Sources.Listing.ofDocument document } { files })
