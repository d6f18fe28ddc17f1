/-
The command line: the name of a ROM image, then optionally a run time
and the name of a second image. The run time is read before any file is,
and the files in their order. A failure is told on the error stream,
with its cause below it, and ends with exit code 1.

How files are read is left open (`read`), so that the command line can
be run against any collection of files. A reader says why it failed in
the terms of `ReadError`.
-/
import HomeZ80.Machine.Headless
import HomeZ80.Time.RunTime

namespace HomeZ80

/-- How a command ends. -/
structure CommandResult where
  code : Nat := 0
  out : String := ""
  err : String := ""
  deriving DecidableEq, Repr, Inhabited

/-- Why a file cannot be read. -/
inductive ReadError where
  /-- There is no file of this name. -/
  | missing
  | directory
  /-- The name leads through something that is no directory. -/
  | notDirectory
  | denied
  | nameTooLong
  | other (reason : String)
  deriving DecidableEq, Repr, Inhabited

/-- The system's words for a failure to read a file, with its number. -/
def ReadError.message : ReadError → String
  | .missing => "No such file or directory (os error 2)"
  | .directory => "Is a directory (os error 21)"
  | .notDirectory => "Not a directory (os error 20)"
  | .denied => "Permission denied (os error 13)"
  | .nameTooLong => "File name too long (os error 36)"
  | .other reason => reason

namespace CommandLine

/-- How the command is used. -/
def usage : String :=
  "Usage: retro88 <n88.rom> [seconds] [n-basic.rom]\n"

/-- A failure with its cause. -/
def failure (message cause : String) : CommandResult where
  code := 1
  err := "Error: " ++ message ++ "\n\nCaused by:\n    " ++ cause ++ "\n"

/-- The failure to read a file. -/
def unreadable (path : String) (cause : ReadError) : CommandResult :=
  failure ("failed to read '" ++ path ++ "'") cause.message

/-- The run time given, one second if none is. -/
def runTime : Option String → Except CommandResult Duration
  | none => .ok (.ofSeconds 1)
  | some text =>
    match RunTime.read text with
    | .ok span => .ok span
    | .error e => .error (failure (RunTime.complaint text) e.message)

/-- Run a machine with the images read. -/
def execute (n88 : ByteArray) (nBasic : Option ByteArray)
    (span : Duration) : CommandResult :=
  match (Headless.run n88 nBasic span false {}).1 with
  | .ok _ => {}
  | .error fault => failure Headless.complaint fault.message

/-- Run a command. A file is read as its bytes, or as the reason why it
cannot be read. -/
def run {m : Type → Type} [Monad m]
    (read : String → m (Except ReadError ByteArray)) :
    List String → m CommandResult
  | [] => return { code := 1, err := usage }
  | n88Path :: rest => do
    match runTime rest.head? with
    | .error result => return result
    | .ok span =>
      match ← read n88Path with
      | .error cause => return unreadable n88Path cause
      | .ok n88 =>
        match rest.tail.head? with
        | none => return execute n88 none span
        | some nPath =>
          match ← read nPath with
          | .error cause => return unreadable nPath cause
          | .ok nBasic => return execute n88 (some nBasic) span

end CommandLine
end HomeZ80
