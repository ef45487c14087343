import SochoScript.CommandLine.Run

/-!
# The program

The program on the files of the machine: standard output gets the output,
standard error the log and the failure.
-/

namespace SochoScript

namespace Disk

/-- The number of an error, which some operations give with the sign changed. -/
def plainCode (code : UInt32) : UInt32 :=
  if code.toNat < 2147483648 then code else 0 - code

/-- Why an operation of the machine fails. -/
def errorOf (e : IO.Error) : FileError :=
  match e with
  | .noFileOrDirectory .. => .notFound
  | .alreadyExists .. => .alreadyExists
  | .inappropriateType _ code _ =>
    if plainCode code = 20 then .notADirectory
    else if plainCode code = 21 then .isADirectory
    else .other e.toString
  | .invalidArgument _ code _ =>
    if plainCode code = 36 then .nameTooLong else .other e.toString
  | _ => .other e.toString

/-- The outcome of an operation of the machine on a path. -/
def attempt {α : Type} (path : String) (action : IO α) : IO (Except FileError α) := do
  if Path.hasNull path then return .error .invalidPath
  try
    return .ok (← action)
  catch e => return .error (errorOf e)

/-- The text in a file. -/
def read (path : String) : IO (Except FileError String) := do
  match ← attempt path (IO.FS.readBinFile path) with
  | .error e => return .error e
  | .ok content =>
    match String.fromUTF8? content with
    | some text => return .ok text
    | none => return .error .invalidText

/-- Whether there is a directory. -/
def isDirectory (path : String) : IO Bool := do
  match ← attempt path (IO.FS.realPath path) with
  | .error _ => return false
  | .ok place => place.isDir

/-- The files of the machine. -/
def fileSystem : FileSystem IO where
  read := read
  makeDirectory path := attempt path (IO.FS.createDir path)
  isDirectory := isDirectory
  write path content := attempt path (IO.FS.writeFile path content)

end Disk

end SochoScript

/-- Runs the program on the files of the machine. -/
def main (arguments : List String) : IO UInt32 := do
  let outcome ← SochoScript.CommandLine.run SochoScript.Disk.fileSystem arguments
  for event in outcome.events do
    IO.eprintln (if outcome.logJson then event.toJson.compact else event.line)
  IO.print outcome.output
  match outcome.failure? with
  | some failure => IO.eprintln ("Error: " ++ failure.inspect)
  | none => pure ()
  return outcome.exitCode.toUInt32
