import SochoScript.Artifacts
import SochoScript.CommandLine.Arguments

/-!
# Running the program

A call of the program reads a source, does with it what the arguments ask for,
and ends with an exit code, a text for standard output, the failure if there was
one, and a log.  Files are reached through a `FileSystem` only, so the same
program runs on a disk and on a `FileTree`.

* `perform` carries out a command.
* `run` also reads the arguments and chooses the events that are told.

Exit code 2 is for arguments that cannot be read, 1 for a command that fails.
-/

namespace SochoScript

namespace CommandLine

/-- How a call of the program ends. -/
structure Outcome where
  exitCode : Nat
  output : String
  failure? : Option Failure
  /-- The events to be told, in order. -/
  events : List Event
  /-- Whether they are written as objects. -/
  logJson : Bool

/-- What the program calls itself. -/
def versionText : String := "weird-lang 0.1.0\n"

/-- The events that are told. -/
def logLevel (invocation : Invocation) : Level :=
  if invocation.quiet then .error
  else
    match invocation.verbosity with
    | 0 => .info
    | 1 => .debug
    | _ => .trace

/-- A text with spaces behind it up to the given length. -/
def padRight (width : Nat) (text : String) : String :=
  text ++ String.ofList (List.replicate (width - text.length) ' ')

/-- The list of targets. -/
def targetsText : String :=
  String.join ("Supported targets:\n" ::
    Target.all.map fun target =>
      "  " ++ padRight 8 target.name ++ " - " ++ target.description ++ "\n")

/-- Texts on lines of their own. -/
def lines (texts : List String) : String :=
  String.join (texts.map fun text => text ++ "\n")

/-- The directory for the artifacts of a source: the name of the source below
the chosen directory. -/
def artifactDirectory (directory source : String) : String :=
  match Path.fileName? source with
  | some name => Path.join directory name
  | none => directory

variable {m : Type → Type} [Monad m]

/-- Reads a source and gives what is made of it. -/
def withSource (files : FileSystem m) (path : String)
    (use : String → Logged Diagnostic String) : m (Logged Failure String) := do
  match ← files.read path with
  | .error e => return .fail (.reading e)
  | .ok source => return (use source).mapFailure .diagnostic

/-- Compiles a source under the settings and writes the artifacts. -/
def compileTo (files : FileSystem m) (path directory : String) (settings : Settings) :
    m (Logged Failure String) := do
  match ← files.read path with
  | .error e => return .fail (.reading e)
  | .ok source =>
    let compiled := compile settings source
    match compiled.outcome with
    | .error diagnostic => return ⟨compiled.events, .error (.diagnostic diagnostic)⟩
    | .ok compilation =>
      let written ←
        Artifacts.write files (artifactDirectory directory path) compilation settings.target
      return ⟨compiled.events ++ written.events,
        (written.outcome.mapError Failure.writing).map lines⟩

/-- Carries out a command; gives the text for standard output. -/
def perform (files : FileSystem m) : Command → m (Logged Failure String)
  | .compile source target directory asyncWrap strict =>
    match Target.named target with
    | .error diagnostic => return .fail (.diagnostic diagnostic)
    | .ok target =>
      compileTo files source directory { policy := .ofStrict strict, asyncWrap, target }
  | .tokens source strict =>
    withSource files source fun text => do
      let tokens ← tokenize (.ofStrict strict) text
      return Token.listJson tokens ++ "\n"
  | .parse source strict =>
    withSource files source fun text => do
      let program ← parseSource (.ofStrict strict) text
      return program.treeJson ++ "\n"
  | .targets => return pure targetsText

/-- Runs the program. -/
def run (files : FileSystem m) (arguments : List String) : m Outcome := do
  match read arguments with
  | .error .misuse => return ⟨2, "", none, [], false⟩
  | .error .help => return ⟨0, "", none, [], false⟩
  | .error .version => return ⟨0, versionText, none, [], false⟩
  | .ok invocation =>
    let done ← perform files invocation.command
    let events := Event.upTo (logLevel invocation) done.events
    match done.outcome with
    | .ok output => return ⟨0, output, none, events, invocation.logJson⟩
    | .error failure => return ⟨1, "", some failure, events, invocation.logJson⟩

end CommandLine

end SochoScript
