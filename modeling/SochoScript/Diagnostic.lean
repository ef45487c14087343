import SochoScript.Token
import SochoScript.Lowering

/-!
# Diagnostics

Why a source cannot be compiled.  Each cause is a constructor with the facts
that belong to it; the wording is in one place, `Diagnostic.message`.  All
causes but an unknown target point to a place in the source,
`Diagnostic.span?`.  `Diagnostic.inspect` shows the constructor with all of its
facts, for those who look at the failure itself and not at its wording.
-/

namespace SochoScript

/-- What the parser was looking for. -/
inductive Expectation where
  /-- The name that belongs to a keyword. -/
  | nameAfter (keyword : Keyword)
  /-- The value to be printed. -/
  | printedValue
  /-- The beginning of a block. -/
  | blockOpening
  /-- The end of a block. -/
  | blockClosing
deriving DecidableEq, Repr

/-- The wording of an expectation. -/
def Expectation.text : Expectation → String
  | nameAfter keyword => "a variable name after '" ++ keyword.spelling ++ "'"
  | printedValue => "a value after 'likho'"
  | blockOpening => "'\x7b' to open a block"
  | blockClosing => "'\x7d' to close the block"

/-- Why a source cannot be compiled. -/
inductive Diagnostic where
  /-- A character that begins no token. -/
  | unexpectedCharacter (character : Char) (span : Span)
  /-- A literal text that is not closed. -/
  | unterminatedLiteral (mark : Char) (span : Span)
  /-- A run of digits and points without a meaning. -/
  | invalidNumber (run : String) (span : Span)
  /-- The tokens ran out. -/
  | endOfInput (expected : Expectation) (span : Span)
  /-- A token of the wrong kind. -/
  | unexpectedToken (expected : Expectation) (found : Token)
  /-- An expression of which nothing is left. -/
  | emptyExpression (context : Context) (span : Span)
  /-- A target that there is not. -/
  | unknownTarget (name : String)
deriving DecidableEq

namespace Diagnostic

/-- The place that a diagnostic points to. -/
def span? : Diagnostic → Option Span
  | unexpectedCharacter _ span => some span
  | unterminatedLiteral _ span => some span
  | invalidNumber _ span => some span
  | endOfInput _ span => some span
  | unexpectedToken _ found => some found.span
  | emptyExpression _ span => some span
  | unknownTarget _ => none

/-- The wording of a diagnostic. -/
def message : Diagnostic → String
  | unexpectedCharacter character span =>
    "Unexpected character '" ++ character.toString ++ "' at " ++ span.place
  | unterminatedLiteral mark span =>
    "Unterminated " ++ mark.toString ++ "-quoted string literal starting at " ++ span.place
  | invalidNumber run span =>
    "Invalid number literal '" ++ run ++ "' at " ++ span.place
  | endOfInput expected span =>
    "Syntax error at " ++ span.place ++ ": expected " ++ expected.text ++
      ", but reached end of input"
  | unexpectedToken expected found =>
    "Syntax error at " ++ found.span.place ++ ": expected " ++ expected.text ++
      ", found " ++ found.describe
  | emptyExpression context span =>
    "Syntax error at " ++ span.place ++ ": empty expression in " ++ context.name
  | unknownTarget name => "Unknown target: " ++ name

/-- A diagnostic with all of its facts. -/
def inspect : Diagnostic → String
  | unexpectedCharacter character span =>
    Text.record "UnexpectedCharacter" [("ch", Text.quoteChar character), ("span", span.inspect)]
  | unterminatedLiteral mark span =>
    Text.record "UnterminatedLiteral" [("quote", Text.quoteChar mark), ("span", span.inspect)]
  | invalidNumber run span =>
    Text.record "InvalidNumber" [("text", Text.quote run), ("span", span.inspect)]
  | endOfInput expected span =>
    Text.record "UnexpectedEndOfInput"
      [("expected", Text.quote expected.text), ("span", span.inspect)]
  | unexpectedToken expected found =>
    Text.record "UnexpectedToken"
      [("expected", Text.quote expected.text), ("found", Text.quote found.describe),
       ("span", found.span.inspect)]
  | emptyExpression context span =>
    Text.record "EmptyExpression" [("context", Text.quote context.name), ("span", span.inspect)]
  | unknownTarget name => Text.record "UnknownTarget" [("name", Text.quote name)]

end Diagnostic

end SochoScript
