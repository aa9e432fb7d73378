import PropertyExpr.Cli.Run
/-!
# The command line program: `main`

Reads what the command on the command line needs, runs it and writes the report.
-/
namespace PropertyExpr.Cli

/-- The bytes of a file, if it can be read. -/
def readFile? (path : String) : IO (Option ByteArray) := do
  try return some (← IO.FS.readBinFile path)
  catch _ => return none

/-- Reads the sources of a command. -/
def Inputs.collect (command : Command) : IO Inputs := do
  let sources := command.sources
  let stdin ← if sources.any Source.isStdin then (← IO.getStdin).readBinToEnd else pure .empty
  let files ← (sources.filter (!·.isStdin)).filterMapM fun source => do
    return (← readFile? source.path).map (source.path, ·)
  return ⟨stdin, fun path => files.lookup path⟩

end PropertyExpr.Cli

open PropertyExpr.Cli in
/-- Runs the program. -/
def main (words : List String) : IO UInt32 := do
  let report ← match Invocation.ofArguments words with
    | .error ending => pure (Report.ofEnding ending)
    | .ok invocation =>
      (run · invocation.verbose invocation.command) <$> Inputs.collect invocation.command
  IO.eprint report.diagnostics
  IO.print report.output
  return report.status.exitCode.toUInt32
