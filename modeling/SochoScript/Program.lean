import SochoScript.Json
import SochoScript.Text.Quoted

/-!
# Programs

A program is a list of statements, and a condition holds two lists of its own.
Expressions, printed values and prompts are kept as the JavaScript text that
will stand in the output.

* `Program.readsInput`: whether a line of input is read anywhere, at any depth.
* `Program.toJson`: the tree in data files, where every statement carries its
  type and an absent value or prompt is null.
* `Statement.inspect`: a statement with all of its fields on one line.
-/

namespace SochoScript

/-- The statements. -/
inductive Statement where
  /-- A variable, with its value if it has one. -/
  | declaration (name : String) (value : Option String)
  /-- A value to be printed. -/
  | print (value : String)
  /-- A variable that is read from a line of input, with what is asked. -/
  | input (name : String) (prompt : Option String)
  /-- A test with what is done if it holds, and if it does not. -/
  | condition (test : String) (body otherwise : List Statement)

/-- A program. -/
structure Program where
  body : List Statement

namespace Statement

mutual

/-- Whether a statement reads input. -/
def readsInput : Statement → Bool
  | declaration _ _ => false
  | print _ => false
  | input _ _ => true
  | condition _ body otherwise => anyReadsInput body || anyReadsInput otherwise

/-- Whether one of the statements reads input. -/
def anyReadsInput : List Statement → Bool
  | [] => false
  | s :: rest => readsInput s || anyReadsInput rest

end

mutual

/-- A statement in data files. -/
def toJson : Statement → Json
  | declaration name value =>
    .object [("type", .string "declaration"), ("name", .string name), ("value", .ofOption value)]
  | print value => .object [("type", .string "print"), ("value", .string value)]
  | input name prompt =>
    .object [("type", .string "input"), ("name", .string name), ("prompt", .ofOption prompt)]
  | condition test body otherwise =>
    .object [("type", .string "condition"), ("test", .string test),
      ("body", .array (listToJson body)), ("elseBody", .array (listToJson otherwise))]

/-- Statements in data files. -/
def listToJson : List Statement → List Json
  | [] => []
  | s :: rest => toJson s :: listToJson rest

end

/-- An optional text for inspection. -/
def inspectOption : Option String → String
  | none => "None"
  | some text => "Some(" ++ Text.quote text ++ ")"

mutual

/-- A statement with all of its fields. -/
def inspect : Statement → String
  | declaration name value =>
    Text.record "Declaration" [("name", Text.quote name), ("value", inspectOption value)]
  | print value => Text.record "Print" [("value", Text.quote value)]
  | input name prompt =>
    Text.record "Input" [("name", Text.quote name), ("prompt", inspectOption prompt)]
  | condition test body otherwise =>
    Text.record "Condition"
      [("test", Text.quote test), ("body", Text.listing (inspectAll body)),
       ("else_body", Text.listing (inspectAll otherwise))]

/-- Each statement with all of its fields. -/
def inspectAll : List Statement → List String
  | [] => []
  | s :: rest => inspect s :: inspectAll rest

end

end Statement

namespace Program

/-- Whether a program reads input anywhere. -/
def readsInput (p : Program) : Bool := Statement.anyReadsInput p.body

/-- A program in data files. -/
def toJson (p : Program) : Json :=
  .object [("type", .string "program"), ("body", .array (Statement.listToJson p.body))]

/-- The dump of a program. -/
def treeJson (p : Program) : String := p.toJson.pretty

end Program

end SochoScript
