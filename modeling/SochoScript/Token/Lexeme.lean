import SochoScript.Diagnostic
import SochoScript.Text.Blank
import SochoScript.Number.Numeral

/-!
# Lexemes

A lexeme is the longest beginning of a text that belongs together.  Its first
character decides its form, and the form decides how far it reaches:

* a letter or an underscore begins a word of letters, digits and underscores;
* a digit begins a run of digits and points;
* a quote mark begins a literal that reaches to the next mark of the same kind,
  or to the end of the text if there is none;
* an operator sign begins an operator, which grows sign by sign as long as it
  stays in the table;
* a bracket and the end of a statement stand alone, and so does every character
  that begins nothing.

Letters and digits are those of ASCII.  Cutting and meaning are kept apart:
`Lexeme.cut` only splits the text, and `Lexeme.meaning` says what the part that
was cut off stands for.

* `Lexeme.text_append_rest`: cutting loses and invents nothing;
* `Lexeme.length_rest_le`: at least the first character is cut off.
-/

namespace SochoScript

/-- The forms of lexemes. -/
inductive Form where
  | word
  | number
  /-- A literal that is closed. -/
  | literal (mark : Char)
  /-- A literal that is not. -/
  | unclosed (mark : Char)
  | symbol
  | bracket
  | terminator
  /-- A character that begins nothing. -/
  | unknown
deriving DecidableEq, Repr

/-- A beginning of a text and what follows it. -/
structure Lexeme where
  form : Form
  text : List Char
  rest : List Char
deriving DecidableEq, Repr

namespace Lexeme

/-- Whether a character begins a word. -/
def isWordStart (c : Char) : Bool := c.isAlpha || c = '_'

/-- Whether a character continues a word. -/
def isWordPart (c : Char) : Bool := c.isAlphanum || c = '_'

/-- Whether a character continues a number. -/
def isNumberPart (c : Char) : Bool := c.isDigit || c = '.'

/-- A literal whose opening mark has been read. -/
def cutLiteral (mark : Char) (cs : List Char) : Lexeme :=
  match cs.dropWhile (· ≠ mark) with
  | [] => ⟨.unclosed mark, mark :: cs, []⟩
  | closing :: rest => ⟨.literal mark, mark :: (cs.takeWhile (· ≠ mark) ++ [closing]), rest⟩

/-- The signs that continue the operator `taken`, and what follows them. -/
def growSymbol (taken : List Char) : List Char → List Char × List Char
  | [] => ([], [])
  | c :: cs =>
    if Reserved.isSymbolOperator (taken ++ [c]) then
      let grown := growSymbol (taken ++ [c]) cs
      (c :: grown.1, grown.2)
    else ([], c :: cs)

/-- The lexeme that begins with `c`, which is not blank. -/
def cut (c : Char) (cs : List Char) : Lexeme :=
  if isWordStart c then ⟨.word, c :: cs.takeWhile isWordPart, cs.dropWhile isWordPart⟩
  else if c.isDigit then ⟨.number, c :: cs.takeWhile isNumberPart, cs.dropWhile isNumberPart⟩
  else if Reserved.isQuoteMark c then cutLiteral c cs
  else if Reserved.isSymbolOperator [c] then
    ⟨.symbol, c :: (growSymbol [c] cs).1, (growSymbol [c] cs).2⟩
  else if Reserved.isBracket c then ⟨.bracket, [c], cs⟩
  else if c = Reserved.endOfStatement then ⟨.terminator, [c], cs⟩
  else ⟨.unknown, [c], cs⟩

/-- What is taken for a symbol and what is left are the whole text. -/
theorem growSymbol_append (taken cs : List Char) :
    (growSymbol taken cs).1 ++ (growSymbol taken cs).2 = cs := by
  induction cs generalizing taken with
  | nil => rfl
  | cons c cs ih =>
      unfold growSymbol
      split
      · exact congrArg (c :: ·) (ih (taken ++ [c]))
      · rfl

/-- A literal and what follows it are the mark and the text after it. -/
theorem cutLiteral_append (mark : Char) (cs : List Char) :
    (cutLiteral mark cs).text ++ (cutLiteral mark cs).rest = mark :: cs := by
  have hsplit : cs.takeWhile (· ≠ mark) ++ cs.dropWhile (· ≠ mark) = cs :=
    List.takeWhile_append_dropWhile
  unfold cutLiteral
  split
  · simp
  · rename_i closing rest hrest
    rw [hrest] at hsplit
    simpa using hsplit

/-- The first character of a lexeme is the one it was cut for. -/
theorem exists_text_eq (c : Char) (cs : List Char) : ∃ more, (cut c cs).text = c :: more := by
  unfold cut
  split
  · exact ⟨_, rfl⟩
  split
  · exact ⟨_, rfl⟩
  split
  · unfold cutLiteral
    split <;> exact ⟨_, rfl⟩
  split
  · exact ⟨_, rfl⟩
  split
  · exact ⟨_, rfl⟩
  split <;> exact ⟨_, rfl⟩

/-- **Cutting loses and invents nothing.** -/
theorem text_append_rest (c : Char) (cs : List Char) :
    (cut c cs).text ++ (cut c cs).rest = c :: cs := by
  unfold cut
  split
  · simp
  split
  · simp
  split
  · exact cutLiteral_append c cs
  split
  · simpa using growSymbol_append [c] cs
  split
  · rfl
  split <;> rfl

/-- At least the first character is cut off. -/
theorem length_rest_le (c : Char) (cs : List Char) : (cut c cs).rest.length ≤ cs.length := by
  obtain ⟨more, hmore⟩ := exists_text_eq c cs
  have happend := congrArg List.length (text_append_rest c cs)
  rw [hmore] at happend
  simp only [List.cons_append, List.length_cons, List.length_append] at happend
  omega

/-- What a lexeme stands for. -/
inductive Meaning where
  | token (token : Token)
  /-- Nothing: its character begins no token. -/
  | nothing
  | fault (diagnostic : Diagnostic)

/-- The kind of a word. -/
def wordKind (word : String) : Kind :=
  if (Keyword.ofSpelling? word).isSome then .keyword
  else if (WordOperator.ofSpelling? word).isSome then .operator
  else .identifier

/-- The least whole number that does not fit into 64 bits with a sign, which is
`2 ^ 63`. -/
def integerLimit : Nat := 9223372036854775808

/-- The kind and the value of a numeral.  A whole number that is too large stays
an integer in kind. -/
def numeralValue : Number.Numeral → Kind × Value
  | .whole value =>
    if value < integerLimit then (.integer, .integer value)
    else (.integer, .float (Number.Numeral.whole value).toBinary64)
  | .fractional digits places =>
    (.float, .float (Number.Numeral.fractional digits places).toBinary64)

/-- What a lexeme stands for when it is found at `span`. -/
def meaning (l : Lexeme) (span : Span) : Meaning :=
  let text := String.ofList l.text
  match l.form with
  | .word => .token ⟨wordKind text, .text text, span⟩
  | .number =>
    match Number.Numeral.read? l.text with
    | some numeral => .token ⟨(numeralValue numeral).1, (numeralValue numeral).2, span⟩
    | none => .fault (.invalidNumber text span)
  | .literal _ => .token ⟨.string, .text text, span⟩
  | .unclosed mark => .fault (.unterminatedLiteral mark span)
  | .symbol => .token ⟨.operator, .text text, span⟩
  | .bracket => .token ⟨.bracket, .text text, span⟩
  | .terminator => .token ⟨.endOfStatement, .text text, span⟩
  | .unknown => .nothing

end Lexeme

end SochoScript
