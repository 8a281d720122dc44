import ExportSurface.CommandLine.Run
/-!
# The program

Connects the command line to files and streams. Messages and errors go to the
error stream, so that the output holds reports only.
-/

namespace ExportSurface

/-- Access to the files of the machine. -/
def machineFiles : Files IO where
  look path := do
    try
      return .file (← IO.FS.readFile path)
    catch
      | .noFileOrDirectory .. => return .missing
      | .inappropriateType .. => return .directory
      | e => throw e
  write path content := do
    try
      IO.FS.writeFile path content
      return none
    catch e => return some e.toString

end ExportSurface

open ExportSurface

/-- Runs the program on the words of the command line. -/
def main (words : List String) : IO UInt32 := do
  let directory ← IO.currentDir
  let env : Environment :=
    { workingDirectory := directory.toString, logFilter := ← IO.getEnv "RUST_LOG",
      engine := .byLength }
  let result ← Invocation.run machineFiles env words
  for entry in result.log do
    IO.eprintln (entry.diagnostic.severity.label ++ " " ++ entry.diagnostic.message)
  IO.print result.stdout
  match result.error with
  | some line => IO.eprintln line
  | none => pure ()
  return result.exitCode.toUInt32
