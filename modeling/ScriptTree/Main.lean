import ScriptTree.CommandLine

/-!
The program that is run: the command line over the files of the system.
-/

namespace ScriptTree.CommandLine

/-- The reason for a failure, as systems word it. -/
def failureReason (e : IO.Error) : String :=
  match e with
  | .noFileOrDirectory .. => "No such file or directory (os error 2)"
  | e => toString e

def systemHost : Host IO where
  read path := do
    try return .ok (← IO.FS.readBinFile path)
    catch e => return .error (failureReason e)
  write path text := do
    try return .ok (← IO.FS.writeFile path text)
    catch e => return .error (failureReason e)

end ScriptTree.CommandLine

open ScriptTree in
def main (arguments : List String) : IO UInt32 := do
  let report ← CommandLine.run CommandLine.systemHost arguments
  (← IO.getStdout).putStr report.output
  (← IO.getStderr).putStr report.errors
  return report.exitCode.toUInt32
