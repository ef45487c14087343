import SochoScript.Position
import SochoScript.Reserved
import SochoScript.Json

/-!
# Tokens

A token has a kind, a value and a place.  The kind says what the parser may do
with it, and the value what it stands for: an integer, a binary number or a
text.  An integer literal that is too large for 64 bits keeps its kind and
carries a binary number instead.  Nothing ties kind and value together: a list
of tokens may come from anywhere.

* `Value.display` is the text of a value in programs and messages.
* `Value.toJson` is its form in data files, where a whole binary number of at
  most `2 ^ 53` is written as an integer and what is not finite as null.
* `Token.listJson` is the dump of a list of tokens; it leaves out the places.
-/

namespace SochoScript

/-- The kinds of tokens. -/
inductive Kind where
  | keyword
  | operator
  | identifier
  | integer
  | float
  | string
  | bracket
  | endOfStatement
deriving DecidableEq, Repr

namespace Kind

/-- What messages call a kind. -/
def name : Kind → String
  | keyword => "keyword"
  | operator => "operator"
  | identifier => "identifier"
  | integer => "integer"
  | float => "float"
  | string => "string"
  | bracket => "bracket"
  | endOfStatement => "end of statement"

/-- What data files call a kind. -/
def tag : Kind → String
  | endOfStatement => "endOfStatement"
  | kind => kind.name

/-- All kinds. -/
def all : List Kind :=
  [keyword, operator, identifier, integer, float, string, bracket, endOfStatement]

/-- The kind that data files call `tag`. -/
def ofTag? (tag : String) : Option Kind :=
  all.find? fun kind => kind.tag = tag

end Kind

/-- What a token stands for. -/
inductive Value where
  | integer (value : Int)
  | float (value : Number.Binary64)
  | text (value : String)
deriving DecidableEq

namespace Value

/-- The text of a value in programs and messages. -/
def display : Value → String
  | integer value => toString value
  | float value => value.plain
  | text value => value

/-- The largest magnitude up to which a whole binary number is written as an
integer, which is `2 ^ 53`: up to it every whole number is a binary number. -/
def exactIntegerLimit : Nat := 9007199254740992

/-- A binary number in data files. -/
def floatJson : Number.Binary64 → Json
  | .finite negative size =>
    let whole := size.units / Number.unitsPerOne
    if size.units % Number.unitsPerOne = 0 ∧ whole ≤ exactIntegerLimit then
      .integer (if negative then -(whole : Int) else whole)
    else .real negative size
  | .infinite _ => .null
  | .nan => .null

/-- A value in data files. -/
def toJson : Value → Json
  | integer value => .integer value
  | float value => floatJson value
  | text value => .string value

end Value

/-- A token with its place in the source. -/
structure Token where
  kind : Kind
  value : Value
  span : Span
deriving DecidableEq

namespace Token

/-- The text of a token that carries one. -/
def text? (t : Token) : Option String :=
  match t.value with
  | .text text => some text
  | _ => none

/-- Whether a token has the given kind and the given text. -/
def isText (t : Token) (kind : Kind) (text : String) : Bool :=
  t.kind = kind && t.text? = some text

/-- The keyword that a token is. -/
def keyword? (t : Token) : Option Keyword :=
  if t.kind = .keyword then t.text?.bind Keyword.ofSpelling? else none

/-- Whether a token opens a block. -/
def opensBlock (t : Token) : Bool := t.isText .bracket Reserved.blockOpen

/-- Whether a token closes a block. -/
def closesBlock (t : Token) : Bool := t.isText .bracket Reserved.blockClose

/-- Whether a token introduces the value of a declared variable. -/
def assigns (t : Token) : Bool :=
  t.kind = .operator && t.text?.any Reserved.assignments.contains

/-- What messages call a token. -/
def describe (t : Token) : String :=
  t.kind.name ++ " '" ++ t.value.display ++ "'"

/-- A token in data files. -/
def toJson (t : Token) : Json :=
  .object [("type", .string t.kind.tag), ("value", t.value.toJson)]

/-- A list of tokens in data files. -/
def listTree (tokens : List Token) : Json := .array (tokens.map toJson)

/-- The dump of a list of tokens. -/
def listJson (tokens : List Token) : String := (listTree tokens).pretty

end Token

end SochoScript
