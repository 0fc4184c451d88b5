/-
The program itself: it reads the files named by its arguments and writes
what comes of the command.
-/
import ObjectMachine.CommandLine

namespace ObjectMachine.CommandLine

/-- The text of a file, or the reason why there is none. -/
def readFile (file : String) : IO (String × Except String String) := do
  try
    let text ← IO.FS.readFile file
    return (file, .ok text)
  catch error => return (file, .error (toString error))

/-- More steps than any run takes. -/
def unboundedSteps : Nat := Nat.pow 2 62

/-- Reads the files and writes the outcome, or says how to ask. -/
def run (args : List String) : IO UInt32 := do
  match arguments? args with
  | some ⟨file :: files, options⟩ =>
    let contents ← (file :: files).mapM readFile
    let outcome := outcome options unboundedSteps contents
    (← IO.getStdout).putStr outcome.stdout
    (← IO.getStderr).putStr outcome.stderr
    return outcome.exitCode.toUInt32
  | _ =>
    (← IO.getStderr).putStrLn usage
    return 2

end ObjectMachine.CommandLine

def main (args : List String) : IO UInt32 := ObjectMachine.CommandLine.run args
