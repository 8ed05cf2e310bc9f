import DBusMarshal.CommandLine.Command

/-!
The program: reads its command line and one environment variable, and writes what the command puts
out.
-/

set_option autoImplicit false

open DBusMarshal

/-- Put out what a command has come to. -/
def putOut (ending : CommandLine.Ending) : IO Unit := do
  (← IO.getStderr).putStr ending.told
  (← IO.getStdout).write ending.printed.toByteArray
  match ending.written with
  | some (path, content) => IO.FS.writeBinFile path.text content.toByteArray
  | none => return

/-- Run the program; the answer is its exit status. -/
def main (line : List String) : IO UInt32 := do
  let outerStem ← IO.getEnv "SIGMARSHAL_STRUCT_PREFIX"
  match CommandLine.run outerStem line with
  | .ok ending =>
    putOut ending
    return ending.status
  | .error fault =>
    IO.eprintln (fault.message.getD "internal fault")
    return 1
