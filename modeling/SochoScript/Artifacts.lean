import SochoScript.Compilation
import SochoScript.Files.System

/-!
# Artifacts

What a compilation leaves behind: a directory with the dump of the tokens, the
dump of the program and the generated code.  The files are written in this
order, and the first failure ends it; what was written before stays.
-/

namespace SochoScript

namespace Artifacts

/-- The file with the dump of the tokens. -/
def tokensFile : String := "tokens.json"

/-- The file with the dump of the program. -/
def treeFile : String := "ast.json"

/-- The names and contents of the artifacts, in order. -/
def contents (compilation : Compilation) (target : Target) : List (String × String) :=
  [(tokensFile, Token.listJson compilation.tokens),
   (treeFile, compilation.program.treeJson),
   (target.outputFile, compilation.code)]

variable {m : Type → Type} [Monad m]

/-- Writes files into a directory; gives their paths. -/
def writeAll (files : FileSystem m) (directory : String) :
    List (String × String) → m (Logged FileError (List String))
  | [] => return ⟨[], .ok []⟩
  | (name, content) :: rest => do
    let path := Path.join directory name
    match ← files.write path content with
    | .error e => return .fail e
    | .ok () =>
      let later ← writeAll files directory rest
      return ⟨.wroteArtifact path :: later.events, later.outcome.map (path :: ·)⟩

/-- Writes the artifacts into a directory, which is made with all those above
it; gives their paths. -/
def write (files : FileSystem m) (directory : String) (compilation : Compilation)
    (target : Target) : m (Logged FileError (List String)) := do
  match ← files.makeDirectories directory with
  | .error e => return .fail e
  | .ok () => writeAll files directory (contents compilation target)

end Artifacts

/-- Why a task of the program fails. -/
inductive Failure where
  /-- The source cannot be compiled. -/
  | diagnostic (diagnostic : Diagnostic)
  /-- The source cannot be read. -/
  | reading (error : FileError)
  /-- The artifacts cannot be written. -/
  | writing (error : FileError)
deriving DecidableEq

namespace Failure

/-- The wording of a failure. -/
def message : Failure → String
  | diagnostic d => d.message
  | reading e => e.message
  | writing e => "IO error: " ++ e.message

/-- A failure with all of its facts. -/
def inspect : Failure → String
  | diagnostic d => d.inspect
  | reading e => e.inspect
  | writing e => Text.record "Io" [("source", e.inspect)]

end Failure

end SochoScript
