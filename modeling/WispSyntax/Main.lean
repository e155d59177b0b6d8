import WispSyntax.CommandLine

/-!
The program itself: files, environment and streams around `CommandLine.run`.
-/

namespace WispSyntax.Main

-- The reason that the system gives for an error.
def reason : IO.Error → String
  | .noFileOrDirectory _ code details
  | .inappropriateType _ code details
  | .permissionDenied _ code details
  | .invalidArgument _ code details
  | .resourceExhausted _ code details
  | .otherError code details => s!"{details} (os error {code})"
  | e                        => toString e

-- All of an open file; a failing read is the last one.
def readHandle (handle : IO.FS.Handle) : IO (List Read) := do
  try
    let data ← handle.readBinToEnd
    return [.bytes data.toList]
  catch e =>
    return [.failed (reason e)]

def readFile (path : String) : IO (Except String (List Read)) := do
  try
    let handle ← IO.FS.Handle.mk path .read
    return .ok (← readHandle handle)
  catch e =>
    return .error (reason e)

-- Colours are for terminals, and for whoever asks for them.
def wantsColour : IO Bool := do
  match ← IO.getEnv "CLICOLOR_FORCE" with
  | some v => if v ≠ "0" then return true
  | none   => pure ()
  if (← IO.getEnv "NO_COLOR").isSome then
    return false
  return (← IO.getEnv "CLICOLOR") ≠ some "0" && (← (← IO.getStdout).isTty)

-- The characters of a screen, one row to a line.
def plainText (s : Screen) : String :=
  CommandLine.unlines (s.map fun row => String.ofList (row.map (·.char)))

def readWanted (args : List String) : IO CommandLine.Files := do
  match CommandLine.fileToRead args with
  | none      => return fun _ => .ok []
  | some path =>
    let content ← readFile path
    return fun _ => content

-- A viewer shows its first screen, for want of a terminal that sends keys.
def run (args : List String) : IO UInt32 := do
  let outcome := CommandLine.run (← wantsColour) (← readWanted args) args
  IO.eprint outcome.err
  IO.print outcome.out
  if let some viewer := outcome.viewer then
    IO.print (plainText (viewer.draw 80 24).2)
  return outcome.exitCode.toUInt32

end WispSyntax.Main

def main (args : List String) : IO UInt32 :=
  WispSyntax.Main.run args
