/-!
# Arguments

What a call of the program asks for.  The arguments are read from left to right,
on two levels: first the options of the program up to the name of a subcommand,
then the options and the path of that subcommand.

The rules of reading are the usual ones.

* `--name` and `-n` give an option; short ones may be run together.
* The value of an option follows it, in the same argument (`--name=value`,
  `-nvalue`, `-n=value`) or as the next one, which then must not look like an
  option itself; a single dash does not.
* After `--` nothing is an option any more.
* Every option but the verbose one may be given once on a level.
* Help and version end the reading at once; so does the first mistake.
* A path must not be empty, and there is exactly one where one is wanted.

The options about the log are known on both levels.  Given on both, the flags
add up, and the inner level says how verbose the log is.
-/

namespace SochoScript

namespace CommandLine

/-- What the program is asked to do. -/
inductive Command where
  /-- Compile a source and write the artifacts. -/
  | compile (source target directory : String) (asyncWrap strict : Bool)
  /-- Print the tokens of a source. -/
  | tokens (source : String) (strict : Bool)
  /-- Print the program of a source. -/
  | parse (source : String) (strict : Bool)
  /-- List the targets. -/
  | targets
deriving DecidableEq, Repr

/-- What the program is asked to do, and what it shall tell about it. -/
structure Invocation where
  verbosity : Nat
  quiet : Bool
  logJson : Bool
  command : Command
deriving DecidableEq, Repr

/-- Why the reading ends before the end of the arguments. -/
inductive Stop where
  | help
  | version
  | misuse
deriving DecidableEq, Repr

/-- The options. -/
inductive Flag where
  | verbose
  | quiet
  | logJson
  | help
  | version
  | strict
  | noAsync
  | target
  | directory
deriving DecidableEq, Repr

namespace Flag

/-- The name of an option after two dashes. -/
def long : Flag → String
  | verbose => "verbose"
  | quiet => "quiet"
  | logJson => "log-json"
  | help => "help"
  | version => "version"
  | strict => "strict"
  | noAsync => "no-async"
  | target => "target"
  | directory => "out-dir"

/-- The letter of an option after one dash. -/
def short? : Flag → Option Char
  | verbose => some 'v'
  | quiet => some 'q'
  | help => some 'h'
  | version => some 'V'
  | target => some 't'
  | directory => some 'o'
  | logJson => none
  | strict => none
  | noAsync => none

/-- Whether an option has a value. -/
def hasValue : Flag → Bool
  | target => true
  | directory => true
  | _ => false

end Flag

/-- The subcommands. -/
inductive Subcommand where
  | compile
  | tokens
  | parse
  | targets
  | help
deriving DecidableEq, Repr

namespace Subcommand

/-- The name of a subcommand. -/
def name : Subcommand → String
  | compile => "compile"
  | tokens => "tokens"
  | parse => "parse"
  | targets => "targets"
  | help => "help"

/-- All subcommands. -/
def all : List Subcommand := [compile, tokens, parse, targets, help]

/-- The subcommand with the given name. -/
def named? (name : String) : Option Subcommand :=
  all.find? fun subcommand => subcommand.name = name

/-- The options that a subcommand knows. -/
def flags : Subcommand → List Flag
  | compile => [.verbose, .quiet, .logJson, .help, .target, .directory, .noAsync, .strict]
  | tokens => [.verbose, .quiet, .logJson, .help, .strict]
  | parse => [.verbose, .quiet, .logJson, .help, .strict]
  | targets => [.verbose, .quiet, .logJson, .help]
  | help => []

/-- Whether a subcommand wants a path. -/
def wantsPath : Subcommand → Bool
  | compile => true
  | tokens => true
  | parse => true
  | targets => false
  | help => false

end Subcommand

/-- The options of the program itself. -/
def programFlags : List Flag := [.verbose, .quiet, .logJson, .help, .version]

/-- What was given on one level so far. -/
structure Given where
  verbosity : Nat := 0
  quiet : Bool := false
  logJson : Bool := false
  strict : Bool := false
  noAsync : Bool := false
  target? : Option String := none
  directory? : Option String := none
  path? : Option String := none
deriving DecidableEq, Repr

namespace Given

/-- What is given after one more option without a value. -/
def flag (given : Given) : Flag → Except Stop Given
  | .verbose => .ok { given with verbosity := given.verbosity + 1 }
  | .quiet => if given.quiet then .error .misuse else .ok { given with quiet := true }
  | .logJson => if given.logJson then .error .misuse else .ok { given with logJson := true }
  | .strict => if given.strict then .error .misuse else .ok { given with strict := true }
  | .noAsync => if given.noAsync then .error .misuse else .ok { given with noAsync := true }
  | .help => .error .help
  | .version => .error .version
  | .target => .error .misuse
  | .directory => .error .misuse

/-- What is given after one more option with a value. -/
def option (given : Given) (value : String) : Flag → Except Stop Given
  | .target =>
    if given.target?.isSome then .error .misuse else .ok { given with target? := some value }
  | .directory =>
    if given.directory?.isSome ∨ value = "" then .error .misuse
    else .ok { given with directory? := some value }
  | _ => .error .misuse

/-- What is given after a path. -/
def path (given : Given) (wanted : Bool) (value : String) : Except Stop Given :=
  if !wanted ∨ given.path?.isSome ∨ value = "" then .error .misuse
  else .ok { given with path? := some value }

end Given

/-- Whether an argument looks like an option. -/
def looksLikeOption (argument : String) : Bool :=
  argument.toList.head? = some '-' && argument ≠ "-"

/-- What was given so far, and the option that still waits for its value. -/
abbrev Progress := Given × Option Flag

/-- Reads options that are run together after one dash. -/
def readCluster (flags : List Flag) (given : Given) : List Char → Except Stop Progress
  | [] => .ok (given, none)
  | letter :: letters =>
    match flags.find? fun flag => flag.short? = some letter with
    | none => .error .misuse
    | some flag =>
      if flag.hasValue then
        match letters with
        | [] => .ok (given, some flag)
        | '=' :: value => do return (← given.option (String.ofList value) flag, none)
        | value => do return (← given.option (String.ofList value) flag, none)
      else do
        readCluster flags (← given.flag flag) letters

/-- Reads an option after two dashes. -/
def readLong (flags : List Flag) (given : Given) (text : List Char) : Except Stop Progress :=
  let name := String.ofList (text.takeWhile (· ≠ '='))
  match flags.find? fun flag => flag.long = name with
  | none => .error .misuse
  | some flag =>
    match text.dropWhile (· ≠ '='), flag.hasValue with
    | [], true => .ok (given, some flag)
    | [], false => do return (← given.flag flag, none)
    | _ :: value, true => do return (← given.option (String.ofList value) flag, none)
    | _ :: _, false => .error .misuse

/-- Reads one argument that looks like an option. -/
def readOption (flags : List Flag) (given : Given) (argument : String) : Except Stop Progress :=
  match argument.toList with
  | '-' :: '-' :: text => readLong flags given text
  | '-' :: letters => readCluster flags given letters
  | _ => .error .misuse

/-- Reads paths only. -/
def readPaths (wantsPath : Bool) (given : Given) : List String → Except Stop Given
  | [] => .ok given
  | argument :: rest => do readPaths wantsPath (← given.path wantsPath argument) rest

/-- Reads the arguments of a subcommand. -/
def readSubcommand (flags : List Flag) (wantsPath : Bool) :
    Progress → List String → Except Stop Given
  | (given, none), [] => .ok given
  | (_, some _), [] => .error .misuse
  | (given, some flag), argument :: rest =>
    if looksLikeOption argument then .error .misuse
    else do
      readSubcommand flags wantsPath (← given.option argument flag, none) rest
  | (given, none), argument :: rest =>
    if argument = "--" then readPaths wantsPath given rest
    else if looksLikeOption argument then do
      readSubcommand flags wantsPath (← readOption flags given argument) rest
    else do
      readSubcommand flags wantsPath (← given.path wantsPath argument, none) rest

/-- Reads the options of the program, none of which has a value, up to the name
of a subcommand. -/
def readProgram (given : Given) : List String → Except Stop (Given × Subcommand × List String)
  | [] => .error .misuse
  | argument :: rest =>
    if looksLikeOption argument then do
      let (given, _) ← readOption programFlags given argument
      readProgram given rest
    else
      match Subcommand.named? argument with
      | some subcommand => .ok (given, subcommand, rest)
      | none => .error .misuse

/-- The target that is compiled to if none is given. -/
def defaultTarget : String := "js"

/-- The directory that artifacts go to if none is given. -/
def defaultDirectory : String := "build"

/-- The command that a subcommand gives with its options. -/
def commandOf (subcommand : Subcommand) (given : Given) : Except Stop Command :=
  match subcommand, given.path? with
  | .compile, some source =>
    .ok (.compile source (given.target?.getD defaultTarget)
      (given.directory?.getD defaultDirectory) (!given.noAsync) given.strict)
  | .tokens, some source => .ok (.tokens source given.strict)
  | .parse, some source => .ok (.parse source given.strict)
  | .targets, none => .ok .targets
  | _, _ => .error .misuse

/-- What is asked for help: the program or one of its subcommands. -/
def readHelp : List String → Stop
  | [] => .help
  | [name] => if (Subcommand.named? name).isSome then .help else .misuse
  | _ => .misuse

/-- What a call of the program asks for. -/
def read (arguments : List String) : Except Stop Invocation := do
  let (outer, subcommand, rest) ← readProgram {} arguments
  if subcommand = .help then throw (readHelp rest)
  let inner ← readSubcommand subcommand.flags subcommand.wantsPath ({}, none) rest
  let command ← commandOf subcommand inner
  return {
    verbosity := if inner.verbosity = 0 then outer.verbosity else inner.verbosity
    quiet := outer.quiet || inner.quiet
    logJson := outer.logJson || inner.logJson
    command }

end CommandLine

end SochoScript
