import SochoScript.Diagnostic

/-!
# Targets

The languages that programs can be compiled to.  A target is chosen by its name,
and a name that belongs to none is a diagnostic of its own.
-/

namespace SochoScript

/-- The languages that programs can be compiled to. -/
inductive Target where
  | javaScript
deriving DecidableEq, Repr

namespace Target

/-- The name by which a target is chosen. -/
def name : Target → String
  | javaScript => "js"

/-- What a target is. -/
def description : Target → String
  | javaScript => "JavaScript for Node.js (async stdin via node:readline)"

/-- The file that holds the generated code. -/
def outputFile : Target → String
  | javaScript => "code.js"

/-- All targets. -/
def all : List Target := [javaScript]

/-- The target with the given name. -/
def named (name : String) : Except Diagnostic Target :=
  match all.find? fun target => target.name = name with
  | some target => .ok target
  | none => .error (.unknownTarget name)

end Target

end SochoScript
