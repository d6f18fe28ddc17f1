/-
The program. It reads the files that the command line asks for and
prints what the command line says.
-/
import HomeZ80.CommandLine

namespace HomeZ80

/-- Why the system did not let a file be read. One kind of failure
stands for a directory where a file is wanted and for the reverse; only
the former has the number 21. A name that is too long is an invalid
argument with the number -36. -/
def readError : IO.Error → ReadError
  | .noFileOrDirectory .. => .missing
  | .inappropriateType _ 21 _ => .directory
  | .inappropriateType .. => .notDirectory
  | .permissionDenied .. => .denied
  | .invalidArgument _ 4294967260 _ => .nameTooLong
  | e => .other (toString e)

/-- Read a file, or tell why it cannot be read. -/
def readImage (path : String) : IO (Except ReadError ByteArray) := do
  match ← (IO.FS.readBinFile path).toBaseIO with
  | .ok bytes => return .ok bytes
  | .error e => return .error (readError e)

end HomeZ80

open HomeZ80 in
/-- The entry point. -/
def main (args : List String) : IO UInt32 := do
  let result ← CommandLine.run readImage args
  (← IO.getStdout).putStr result.out
  (← IO.getStderr).putStr result.err
  return UInt32.ofNat result.code
