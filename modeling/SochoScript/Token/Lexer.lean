import SochoScript.Logged

/-!
# The lexer

A lexer is a source text together with the place up to which it has been read.
Each call of `Lexer.tokenize` scans from there to the end of the text or to the
next fault and gives back the lexer as it stands afterwards: behind the faulty
character or the bad number, or at the end of the source.  The characters that
were set aside are remembered over all calls; the tokens before a fault are not.
-/

namespace SochoScript

/-- A source text that has been read up to some place. -/
structure Lexer where
  /-- What is done with a character that begins no token. -/
  policy : Policy
  /-- The number of bytes of the whole source. -/
  bytes : Nat
  /-- What has not been read. -/
  rest : List Char
  /-- The place up to which the source has been read. -/
  position : Position
  /-- All characters that were set aside. -/
  skipped : List Skipped

namespace Lexer

/-- A lexer at the beginning of a source. -/
def ofSource (source : String) (policy : Policy) : Lexer :=
  ⟨policy, source.utf8ByteSize, source.toList, .origin, []⟩

/-- The scan of what has not been read. -/
def scan (l : Lexer) : Scan := Scan.run l.policy l.position l.rest

/-- The lexer after that scan. -/
def next (l : Lexer) : Lexer :=
  let scan := l.scan
  { l with
    rest := scan.rest
    position := scan.position
    skipped := l.skipped ++ scan.skipped }

/-- The tokens up to the end of the source. -/
def tokenize (l : Lexer) : Logged Diagnostic (List Token) :=
  let scan := l.scan
  let begun := Event.tokenizing l.bytes :: scan.pieces.map Event.ofPiece
  match scan.fault? with
  | some diagnostic => ⟨begun, .error diagnostic⟩
  | none =>
    let skipped := l.skipped.length + scan.skipped.length
    ⟨begun ++ [.tokenized scan.tokens.length skipped], .ok scan.tokens⟩

end Lexer

/-- The tokens of a source. -/
def tokenize (policy : Policy) (source : String) : Logged Diagnostic (List Token) :=
  (Lexer.ofSource source policy).tokenize

end SochoScript
