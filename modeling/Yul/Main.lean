import Yul.CommandLine.Execute

/-!
# The command

`main` reads the file that the arguments name and prints what `CommandLine.execute` makes of it.
-/

namespace Yul

namespace CommandLine

/-- The system's number of an error, which may come with its sign changed. -/
def errorNumber (code : UInt32) : UInt32 :=
  min code (0 - code)

/-- Why the system refused to read a file. -/
def ReadFailure.ofError : IO.Error → ReadFailure
  | .noFileOrDirectory _ _ _ => .notFound
  | .inappropriateType _ code _ => if errorNumber code = 20 then .notADirectory else .isDirectory
  | .invalidArgument _ code details =>
    if errorNumber code = 36 then .nameTooLong
    else .other s!"{details} (os error {errorNumber code})"
  | .permissionDenied _ code _ => .other s!"Permission denied (os error {errorNumber code})"
  | e => .other (toString e)

/-- Reads a file as text. -/
def readText (path : String) : IO (Except ReadFailure String) := do
  match ← (IO.FS.readBinFile path).toBaseIO with
  | .error e => return .error (.ofError e)
  | .ok bytes =>
    match String.fromUTF8? bytes with
    | some text => return .ok text
    | none => return .error .notUtf8

end CommandLine

end Yul

def main (args : List String) : IO UInt32 := do
  let contents ← match Yul.CommandLine.read args with
    | .run options => Yul.CommandLine.readText options.input
    | .help | .version | .refuse => pure (.error .notFound)
  let output := Yul.CommandLine.execute args fun _ => contents
  IO.print output.stdout
  IO.eprint output.stderr
  return output.code.toUInt32
