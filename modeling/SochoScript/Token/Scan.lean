import SochoScript.Token.Lexeme

/-!
# Scanning a text

A scan walks over a text from left to right.  Blanks are passed over, every
lexeme becomes a piece, and the walk ends at the end of the text or at the first
fault.  A character that begins no token is either set aside or a fault, as the
`Policy` says.

What a scan found is kept as one list of pieces in the order of the text, tokens
and characters that were set aside together, so that nothing about their order
is lost; `Scan.tokens` and `Scan.skipped` are the two views of it.  Where the
walk stopped is part of the result, and another scan may go on from there.
-/

namespace SochoScript

/-- What is done with a character that begins no token. -/
inductive Policy where
  /-- It is set aside. -/
  | skip
  /-- It is a fault. -/
  | reject
deriving DecidableEq, Repr

/-- The policy that rejects exactly when it is to be strict. -/
def Policy.ofStrict (strict : Bool) : Policy := if strict then .reject else .skip

/-- A character that was set aside, with its place. -/
structure Skipped where
  character : Char
  span : Span
deriving DecidableEq, Repr

/-- What a scan found at one place. -/
inductive Piece where
  | token (token : Token)
  | skipped (skipped : Skipped)
deriving DecidableEq

namespace Piece

/-- The token that a piece is. -/
def token? : Piece → Option Token
  | token t => some t
  | skipped _ => none

/-- The character that a piece is. -/
def skipped? : Piece → Option Skipped
  | token _ => none
  | skipped s => some s

/-- The place of a piece. -/
def span : Piece → Span
  | token t => t.span
  | skipped s => s.span

end Piece

/-- The result of a scan. -/
structure Scan where
  /-- What was found, in the order of the text. -/
  pieces : List Piece
  /-- The fault that ended the scan before the end of the text. -/
  fault? : Option Diagnostic
  /-- The text after the place where the scan ended. -/
  rest : List Char
  /-- The place where the scan ended. -/
  position : Position

namespace Scan

/-- The tokens that were found. -/
def tokens (s : Scan) : List Token := s.pieces.filterMap Piece.token?

/-- The characters that were set aside. -/
def skipped (s : Scan) : List Skipped := s.pieces.filterMap Piece.skipped?

/-- The same scan with a piece found before all others. -/
def found (piece : Piece) (s : Scan) : Scan := { s with pieces := piece :: s.pieces }

/-- Scans a text that begins at `p`. -/
def run (policy : Policy) (p : Position) (text : List Char) : Scan :=
  match text with
  | [] => ⟨[], none, [], p⟩
  | c :: cs =>
    if Text.isBlank c then run policy (p.advance c) cs
    else
      let lexeme := Lexeme.cut c cs
      let stop := p.advanceAll lexeme.text
      let span := Span.between p stop
      have _shorter := Lexeme.length_rest_le c cs
      match lexeme.meaning span with
      | .token t => found (.token t) (run policy stop lexeme.rest)
      | .fault diagnostic => ⟨[], some diagnostic, lexeme.rest, stop⟩
      | .nothing =>
        match policy with
        | .skip => found (.skipped ⟨c, span⟩) (run policy stop lexeme.rest)
        | .reject => ⟨[], some (.unexpectedCharacter c span), lexeme.rest, stop⟩
termination_by text.length
decreasing_by
  · exact Nat.lt_succ_self _
  · exact Nat.lt_succ_of_le _shorter
  · exact Nat.lt_succ_of_le _shorter

end Scan

end SochoScript
