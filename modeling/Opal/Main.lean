import Opal.Command

/-!
# The program

Reads the file that the arguments name, and writes the outcome of the check.
-/

namespace Opal

def readSource (path : String) : IO (Except ReadError String) := do
  try
    return Command.decode (← IO.FS.readBinFile path)
  catch
    | .noFileOrDirectory .. => return .error .missing
    | .inappropriateType _ 20 _ => return .error .notDirectory
    | .inappropriateType .. => return .error .directory
    | .invalidArgument _ 36 _ => return .error .nameTooLong
    | e => return .error (.other (toString e))

end Opal

def main (args : List String) : IO UInt32 := do
  let outcome ← Opal.Command.run Opal.readSource (Opal.Request.ofArgs args)
  IO.print outcome.out
  IO.eprint outcome.err
  return outcome.exitCode.toUInt32
