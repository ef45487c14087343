import SochoScript.Text.Quoted
import SochoScript.Files.Path

/-!
# File systems

What the program needs of a file system is small: to read a text, to make a
directory, to ask whether there is one, and to write a file.  `FileSystem m`
gives these four in some monad; they fail for the reasons of `FileError`.

Making a directory with all those above it is not one of the four, but is done
with them.  The innermost directory is tried first, and as long as the one above
is missing the next one above is tried; then those that were missing are made
from the outside in.  Hence whatever was made before a failure stays.
-/

namespace SochoScript

/-- Why an operation on files fails. -/
inductive FileError where
  | notFound
  | alreadyExists
  | notADirectory
  | isADirectory
  | nameTooLong
  /-- The content of a file is no text. -/
  | invalidText
  /-- A path has the null character in it. -/
  | invalidPath
  /-- Any other reason, in the words of the system. -/
  | other (description : String)
deriving DecidableEq, Repr

namespace FileError

/-- What is known of an error. -/
inductive Facts where
  /-- The operating system refuses, with a code. -/
  | system (code : Nat) (kind words : String)
  /-- What was read or given is refused before or after the system is asked. -/
  | refused (kind words : String)
  /-- Nothing but a description. -/
  | described (description : String)

/-- The facts of an error. -/
def facts : FileError → Facts
  | notFound => .system 2 "NotFound" "No such file or directory"
  | alreadyExists => .system 17 "AlreadyExists" "File exists"
  | notADirectory => .system 20 "NotADirectory" "Not a directory"
  | isADirectory => .system 21 "IsADirectory" "Is a directory"
  | nameTooLong => .system 36 "InvalidFilename" "File name too long"
  | invalidText => .refused "InvalidData" "stream did not contain valid UTF-8"
  | invalidPath => .refused "InvalidInput" "file name contained an unexpected NUL byte"
  | other description => .described description

/-- The wording of an error. -/
def message (e : FileError) : String :=
  match e.facts with
  | .system code _ words => words ++ " (os error " ++ toString code ++ ")"
  | .refused _ words => words
  | .described description => description

/-- An error with all of its facts. -/
def inspect (e : FileError) : String :=
  match e.facts with
  | .system code kind words =>
    Text.record "Os"
      [("code", toString code), ("kind", kind), ("message", Text.quote words)]
  | .refused kind words =>
    Text.record "Error" [("kind", kind), ("message", Text.quote words)]
  | .described description => Text.quote description

end FileError

/-- The operations on files that the program needs. -/
structure FileSystem (m : Type → Type) where
  /-- The text in a file. -/
  read : String → m (Except FileError String)
  /-- Makes one directory. -/
  makeDirectory : String → m (Except FileError Unit)
  /-- Whether there is a directory. -/
  isDirectory : String → m Bool
  /-- Replaces the content of a file, which is made if there is none. -/
  write : String → String → m (Except FileError Unit)

namespace FileSystem

variable {m : Type → Type} [Monad m]

/-- Makes a directory, which may exist. -/
def ensureDirectory (files : FileSystem m) (path : String) : m (Except FileError Unit) := do
  match ← files.makeDirectory path with
  | .error .alreadyExists =>
    if ← files.isDirectory path then return .ok ()
    else return .error .alreadyExists
  | result => return result

/-- Tries the directories of a path, the innermost first, until one is there;
gives those that are missing, the outermost first, after `missing`. -/
def climb (files : FileSystem m) (missing : List String) :
    List String → m (Except FileError (List String))
  | [] => return .ok missing
  | path :: above => do
    match ← files.ensureDirectory path with
    | .ok () => return .ok missing
    | .error .notFound => climb files (path :: missing) above
    | .error e => return .error e

/-- Makes directories in order. -/
def ensureAll (files : FileSystem m) : List String → m (Except FileError Unit)
  | [] => return .ok ()
  | path :: rest => do
    match ← files.ensureDirectory path with
    | .ok () => ensureAll files rest
    | .error e => return .error e

/-- Makes a directory with all those above it. -/
def makeDirectories (files : FileSystem m) (path : String) : m (Except FileError Unit) := do
  match ← files.climb [] (Path.ancestors path) with
  | .ok missing => files.ensureAll missing
  | .error e => return .error e

end FileSystem

end SochoScript
