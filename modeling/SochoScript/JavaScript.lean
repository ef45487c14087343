import SochoScript.Event

/-!
# JavaScript

The text of a program for Node.js.  Statements are written one after the other,
and the blocks of a condition between braces.  A program that reads input needs
more: a preamble that sets up the reader of lines, in front of everything, and a
line at the end that closes it.  The whole may be put into an asynchronous
function that is called at once, so that input can be awaited.

The emitter finds out on the way whether input is read: it remembers every input
statement that it writes, and forgets them at the beginning of each program.

* `Emitter.statement` and `Emitter.block` write statements.
* `Emitter.emit` writes a program and what belongs around it.
-/

namespace SochoScript

namespace JavaScript

/-- Sets up the reader of lines. -/
def preamble : String :=
  "const readline = require('node:readline').createInterface(\x7b\n" ++
  "  input: process.stdin,\n" ++
  "  output: process.stdout,\n" ++
  "\x7d);\n" ++
  "function readLineAsyncQuestion(message) \x7b\n" ++
  "  return new Promise((resolve, reject) => \x7b\n" ++
  "    readline.question(message, (answer) => \x7b\n" ++
  "      resolve(answer);\n" ++
  "    \x7d);\n" ++
  "  \x7d);\n" ++
  "\x7d\n" ++
  "\n"

/-- Closes the reader of lines. -/
def closing : String := "readline.close();\n"

/-- Opens the asynchronous function. -/
def wrapperOpen : String := "(async () => \x7b\n"

/-- Closes the asynchronous function and calls it. -/
def wrapperClose : String := "\x7d)();"

/-- What is asked when nothing is. -/
def emptyPrompt : String := "\"\""

/-- A declaration. -/
def declaration (name : String) : Option String → String
  | none => "let " ++ name ++ ";\n"
  | some value => "let " ++ name ++ " = " ++ value ++ ";\n"

/-- A printed value. -/
def print (value : String) : String := "console.log(" ++ value ++ ");\n"

/-- A variable that is read from a line of input. -/
def input (name : String) (prompt : Option String) : String :=
  "let " ++ name ++ " = await readLineAsyncQuestion(" ++ prompt.getD emptyPrompt ++ ");\n"

/-- A test in front of the text of its block. -/
def whenTrue (test body : String) : String := "if (" ++ test ++ ") \x7b\n" ++ body ++ "\x7d\n"

/-- The text of the other block. -/
def whenFalse (body : String) : String := "else \x7b\n" ++ body ++ "\x7d\n"

/-- What the emitter has to know. -/
structure Emitter where
  /-- Whether the program is put into an asynchronous function. -/
  asyncWrap : Bool
  /-- Whether an input statement was written. -/
  readsInput : Bool := false
deriving DecidableEq, Repr

/-- The text of a program, and what was told. -/
structure Emission where
  code : String
  events : List Event
  /-- The emitter afterwards. -/
  next : Emitter

namespace Emitter

mutual

/-- The text of a statement, and the emitter after it. -/
def statement (e : Emitter) : Statement → String × Emitter
  | .declaration name value => (JavaScript.declaration name value, e)
  | .print value => (JavaScript.print value, e)
  | .input name prompt => (JavaScript.input name prompt, { e with readsInput := true })
  | .condition test body [] =>
    let written := block e body
    (whenTrue test written.1, written.2)
  | .condition test body (first :: others) =>
    let written := block e body
    let head := statement written.2 first
    let tail := block head.2 others
    (whenTrue test written.1 ++ whenFalse (head.1 ++ tail.1), tail.2)

/-- The text of statements in a row, and the emitter after them. -/
def block (e : Emitter) : List Statement → String × Emitter
  | [] => ("", e)
  | s :: rest =>
    let head := statement e s
    let tail := block head.2 rest
    (head.1 ++ tail.1, tail.2)

end

/-- The text of a program. -/
def emit (e : Emitter) (p : Program) : Emission :=
  let (body, after) := block { e with readsInput := false } p.body
  let code :=
    (if after.readsInput then preamble else "") ++
    (if e.asyncWrap then wrapperOpen else "") ++
    body ++
    (if after.readsInput then closing else "") ++
    (if e.asyncWrap then wrapperClose else "")
  let warnings := if after.readsInput && !e.asyncWrap then [Event.bareAwait] else []
  { code
    events :=
      Event.generating p.body.length e.asyncWrap ::
        (warnings ++ [.generated code.utf8ByteSize after.readsInput])
    next := after }

end Emitter

end JavaScript

end SochoScript
