import Timeshare.CommandLine.Run

namespace Timeshare

/-!
# The program

Reads the files that a run needs, runs, and shows what the run shows.
-/

/-- The error with a number of the operating system, which may be given as a negative one. -/
def FileError.ofNumber (number : UInt32) (description : String) : FileError :=
  match (if number.toInt32 < 0 then -number else number).toNat with
  | 2 => .notFound
  | 20 => .notADirectory
  | 21 => .isADirectory
  | 36 => .nameTooLong
  | n => .other description.capitalize n

/-- The reason that the operating system gives. -/
def FileError.ofSystem : IO.Error → FileError
  | .noFileOrDirectory _ number description | .inappropriateType _ number description
  | .permissionDenied _ number description | .resourceExhausted _ number description
  | .alreadyExists _ number description | .invalidArgument _ number description
  | .noSuchThing _ number description | .interrupted _ number description
  | .otherError number description | .resourceBusy number description
  | .resourceVanished number description | .unsupportedOperation number description
  | .hardwareFault number description | .unsatisfiedConstraints number description
  | .illegalOperation number description | .protocolError number description
  | .timeExpired number description => ofNumber number description
  | .unexpectedEof => .other "Unexpected end of file" 0
  | .userError description => .other description 0

/-- Reads the text of a file. -/
def readText (path : String) : IO (Except FileError String) := do
  try
    match String.fromUTF8? (← IO.FS.readBinFile path) with
    | some text => return .ok text
    | none => return .error .notText
  catch error =>
    return .error (FileError.ofSystem error)

/-- Reads the files at some paths. -/
def readAll (paths : List String) : IO (List (String × Except FileError String)) :=
  paths.mapM fun path => do return (path, ← readText path)

end Timeshare

open Timeshare in
/-- Runs programs as the arguments say.  The files are read before the run; which programs there
    are to read is known only from the configuration and the script. -/
def main (arguments : List String) : IO UInt32 := do
  let settings ← readAll (CommandLine.paths (.ofList []) arguments)
  let programs ← readAll (CommandLine.paths (.ofList settings) arguments)
  let shown := CommandLine.run (.ofList (settings ++ programs)) arguments
  (← IO.getStdout).putStr shown.output
  (← IO.getStderr).putStr shown.messages
  return UInt32.ofNat shown.exitCode
