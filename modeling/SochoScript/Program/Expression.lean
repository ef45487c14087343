import SochoScript.Diagnostic
import SochoScript.Text.Blank

/-!
# Expressions

An expression is a row of tokens.  It becomes text piece by piece: a word
operator is lowered and set between spaces, every other token is written as it
is.  A step operator takes the integer after it into its own piece.  The pieces
are joined without anything between them, the blanks at both ends are dropped,
and what is left must not be empty.

* `Expression.pieces` are the pieces in order, before they are joined.
* `expression` is the text or the complaint that there is none.
-/

namespace SochoScript

namespace Expression

/-- The replacement of a token, if it is a word operator that has one. -/
def lowering? (context : Context) (t : Token) : Option Lowering :=
  if t.kind = .operator then t.text?.bind fun word => lower? word context else none

/-- A sign between two spaces. -/
def padded (symbol : String) : String := " " ++ symbol ++ " "

/-- A compound assignment with its integer. -/
def compoundStep (compound : String) (amount : Token) : String :=
  " " ++ compound ++ " " ++ amount.value.display

/-- The pieces of a row of tokens. -/
def pieces (context : Context) : List Token → List String
  | [] => []
  | t :: rest =>
    match lowering? context t with
    | none => t.value.display :: pieces context rest
    | some (.padded symbol) => padded symbol :: pieces context rest
    | some (.step compound unary) =>
      match rest with
      | [] => [padded unary]
      | amount :: more =>
        if amount.kind = .integer then compoundStep compound amount :: pieces context more
        else padded unary :: pieces context (amount :: more)
termination_by tokens => tokens.length

/-- The pieces joined, without the blanks at both ends. -/
def text (context : Context) (tokens : List Token) : List Char :=
  Text.trim (String.join (pieces context tokens)).toList

end Expression

/-- The text of a row of tokens, which must not be empty.  If it is, the
complaint points to `anchor`. -/
def expression (context : Context) (anchor : Span) (tokens : List Token) :
    Except Diagnostic String :=
  match Expression.text context tokens with
  | [] => .error (.emptyExpression context anchor)
  | text => .ok (String.ofList text)

end SochoScript
