import WireTypes.Command

/-!
# The program

Runs the commands in the working directory.
-/

namespace WireTypes

def systemMessage : IO.Error → String
  | .noFileOrDirectory _ _ _ => FileFault.notFound.message
  | .noSuchThing _ _ _ => FileFault.notFound.message
  | .inappropriateType _ 21 _ => FileFault.isDirectory.message
  | .inappropriateType _ _ _ => FileFault.notDirectory.message
  | .permissionDenied _ _ _ => "Permission denied (os error 13)"
  | e => e.toString

/-- The files of the working directory. -/
def workingFiles : Files IO where
  read path := do
    match ← (IO.FS.readBinFile path).toBaseIO with
    | .error e => return .error (systemMessage e)
    | .ok bytes =>
      return ((FileContent.bytes bytes).text?.elim (.error FileFault.notText.message) .ok)
  write path text := do
    match ← (IO.FS.writeFile path text).toBaseIO with
    | .error e => return .error (systemMessage e)
    | .ok () => return .ok ()

end WireTypes

/-- Runs the program, prints what it says, and answers its exit status. -/
def main (arguments : List String) : IO UInt32 := do
  let stderr ← IO.getStderr
  let outcome ← WireTypes.Program.run WireTypes.workingFiles (← stderr.isTty) arguments
  stderr.putStr outcome.stderr
  IO.print outcome.stdout
  return UInt32.ofNat outcome.exit
