import SochoScript.Token.Scan
import SochoScript.Program

/-!
# Events

What is told about a compilation while it runs.  An event is a fact of the
domain; its `level`, its `message` and its named `fields` are views of it, and so
are the two ways to write it down, as a line of text and as an object.

Levels are ordered by how much they tell.  `Event.upTo` keeps the events of a
level and of the more severe ones, in their order.
-/

namespace SochoScript

/-- How severe an event is, the most severe first. -/
inductive Level where
  | error
  | warn
  | info
  | debug
  | trace
deriving DecidableEq, Repr

namespace Level

/-- How a level is written. -/
def name : Level → String
  | error => "ERROR"
  | warn => "WARN"
  | info => "INFO"
  | debug => "DEBUG"
  | trace => "TRACE"

/-- How much a level tells: the more severe, the less. -/
def rank : Level → Nat
  | error => 0
  | warn => 1
  | info => 2
  | debug => 3
  | trace => 4

end Level

/-- A fact about a compilation. -/
inductive Event where
  /-- A source of so many bytes is about to be scanned. -/
  | tokenizing (bytes : Nat)
  /-- A character was set aside. -/
  | skippedCharacter (skipped : Skipped)
  /-- A token was found. -/
  | token (token : Token)
  /-- The scan reached the end of the source. -/
  | tokenized (tokens skipped : Nat)
  /-- So many tokens are about to be parsed. -/
  | parsing (tokens : Nat)
  /-- A token was passed over. -/
  | strayToken (token : Token)
  /-- A statement was found. -/
  | parsedStatement (statement : Statement)
  /-- A block was parsed to its end. -/
  | parsedBlock (tokens statements : Nat)
  /-- All tokens were parsed. -/
  | parsed (statements : Nat)
  /-- Code is about to be generated. -/
  | generating (statements : Nat) (asyncWrap : Bool)
  /-- Input will be awaited without a function around it. -/
  | bareAwait
  /-- Code was generated. -/
  | generated (bytes : Nat) (readsInput : Bool)
  /-- A file was written. -/
  | wroteArtifact (path : String)

/-- The value of a field. -/
inductive FieldValue where
  | count (value : Nat)
  | flag (value : Bool)
  | text (value : String)

namespace FieldValue

/-- A field in a line of text. -/
def display : FieldValue → String
  | count value => toString value
  | flag value => if value then "true" else "false"
  | text value => value

/-- A field in an object. -/
def toJson : FieldValue → Json
  | count value => .integer value
  | flag value => .bool value
  | text value => .string value

end FieldValue

namespace Event

/-- How severe an event is. -/
def level : Event → Level
  | tokenizing _ => .info
  | skippedCharacter _ => .warn
  | token _ => .debug
  | tokenized _ _ => .info
  | parsing _ => .info
  | strayToken _ => .warn
  | parsedStatement _ => .debug
  | parsedBlock _ _ => .debug
  | parsed _ => .info
  | generating _ _ => .info
  | bareAwait => .warn
  | generated _ _ => .info
  | wroteArtifact _ => .info

/-- What an event says. -/
def message : Event → String
  | tokenizing _ => "tokenizing"
  | skippedCharacter _ => "skipping invalid character"
  | token _ => "token"
  | tokenized _ _ => "tokenizing completed"
  | parsing _ => "parsing"
  | strayToken _ => "skipping stray token"
  | parsedStatement _ => "parsed statement"
  | parsedBlock _ _ => "parsed block"
  | parsed _ => "parsing completed"
  | generating _ _ => "generating code"
  | bareAwait =>
    "input reads are awaited outside an async wrapper; the host must allow top-level await"
  | generated _ _ => "code generation completed"
  | wroteArtifact _ => "wrote artifact"

/-- The facts that belong to an event, with their names. -/
def fields : Event → List (String × FieldValue)
  | tokenizing bytes => [("bytes", .count bytes)]
  | skippedCharacter s =>
    [("character", .text s.character.toString), ("position", .text s.span.place)]
  | token t =>
    [("kind", .text t.kind.name), ("value", .text t.value.display),
     ("position", .text t.span.place)]
  | tokenized tokens skipped => [("tokens", .count tokens), ("skipped", .count skipped)]
  | parsing tokens => [("tokens", .count tokens)]
  | strayToken t => [("token", .text t.describe), ("position", .text t.span.place)]
  | parsedStatement s => [("statement", .text s.inspect)]
  | parsedBlock tokens statements =>
    [("tokens", .count tokens), ("statements", .count statements)]
  | parsed statements => [("statements", .count statements)]
  | generating statements asyncWrap =>
    [("statements", .count statements), ("async_wrap", .flag asyncWrap)]
  | bareAwait => []
  | generated bytes readsInput => [("bytes", .count bytes), ("reads_input", .flag readsInput)]
  | wroteArtifact path => [("path", .text path)]

/-- The events of a level and of the more severe ones. -/
def upTo (limit : Level) (events : List Event) : List Event :=
  events.filter fun event => event.level.rank ≤ limit.rank

/-- The message and the fields of an event as one object. -/
def fieldsJson (event : Event) : Json :=
  .object (("message", .string event.message) ::
    event.fields.map fun field => (field.1, field.2.toJson))

/-- An event as an object. -/
def toJson (event : Event) : Json :=
  .object [("level", .string event.level.name), ("fields", event.fieldsJson)]

/-- An event as a line of text. -/
def line (event : Event) : String :=
  " ".intercalate (event.level.name :: event.message ::
    event.fields.map fun field => field.1 ++ "=" ++ field.2.display)

/-- The event of a piece that was found. -/
def ofPiece : Piece → Event
  | .token t => .token t
  | .skipped s => .skippedCharacter s

end Event

end SochoScript
