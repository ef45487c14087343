import SochoScript.Token.Lexer
import SochoScript.Program.Parser
import SochoScript.JavaScript
import SochoScript.Target

/-!
# Compilation

From a source text to code, under given settings: the text is cut into tokens,
the tokens are parsed, and the program is emitted.  The first failure ends it.
All three results are kept.

* `outcome_compile`: emitting never fails, so a failure comes from the tokens or
  from the program.
-/

namespace SochoScript

/-- What a compilation hangs on besides the source. -/
structure Settings where
  /-- What is done with a character that begins no token. -/
  policy : Policy := .skip
  /-- Whether the program is put into an asynchronous function. -/
  asyncWrap : Bool := true
  /-- The language that is compiled to. -/
  target : Target := .javaScript
deriving DecidableEq, Repr

namespace Settings

/-- Characters that begin no token are faults, or are set aside. -/
def strict (settings : Settings) (strict : Bool) : Settings :=
  { settings with policy := .ofStrict strict }

end Settings

/-- The results of a compilation. -/
structure Compilation where
  tokens : List Token
  program : Program
  code : String

/-- The program of a source. -/
def parseSource (policy : Policy) (source : String) : Logged Diagnostic Program := do
  let tokens ← tokenize policy source
  parse tokens

/-- The code of a program for the target of the settings. -/
def generate (settings : Settings) (program : Program) : Logged Diagnostic String :=
  match settings.target with
  | .javaScript =>
    let emission := JavaScript.Emitter.emit { asyncWrap := settings.asyncWrap } program
    ⟨emission.events, .ok emission.code⟩

/-- Compiles a source. -/
def compile (settings : Settings) (source : String) : Logged Diagnostic Compilation := do
  let tokens ← tokenize settings.policy source
  let program ← parse tokens
  let code ← generate settings program
  return { tokens, program, code }

/-- Every program has a code. -/
theorem outcome_generate (settings : Settings) (program : Program) :
    (generate settings program).outcome =
      .ok (JavaScript.Emitter.emit { asyncWrap := settings.asyncWrap } program).code := by
  obtain ⟨policy, asyncWrap, target⟩ := settings
  cases target
  rfl

/-- A source is tokenized, and then its tokens are parsed. -/
theorem outcome_parseSource (policy : Policy) (source : String) :
    (parseSource policy source).outcome =
      (tokenize policy source).outcome >>= fun tokens => (parse tokens).outcome := by
  rw [parseSource, Logged.outcome_bind]

/-- A compilation can only fail when the source is scanned or parsed. -/
theorem outcome_compile (settings : Settings) (source : String) :
    (compile settings source).outcome = do
      let tokens ← (tokenize settings.policy source).outcome
      let program ← (parse tokens).outcome
      let code := (JavaScript.Emitter.emit { asyncWrap := settings.asyncWrap } program).code
      return { tokens, program, code } := by
  simp only [compile, Logged.outcome_bind, outcome_generate, Logged.outcome_pure]
  rfl

end SochoScript
