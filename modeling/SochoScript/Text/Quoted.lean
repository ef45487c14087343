import SochoScript.Text.Shapeless

/-!
# Quoted text

The form in which a text or a character is shown for inspection: between
quotes, with everything that could mislead the eye written as an escape.  A text
stands between double quotes and a character between single ones, and each of
the two escapes only the quote it stands in.

* `escape` is the escape of one character, relative to the enclosing quote.
* `quote` and `quoteChar` are the two quoted forms.
* `record` is the form of a named collection of facts.
-/

namespace SochoScript

namespace Text

/-- A character named by its code point, in lower-case hexadecimal. -/
def codePointEscape (c : Char) : List Char :=
  ['\\', 'u', '\x7b'] ++ Nat.toDigits 16 c.toNat ++ ['\x7d']

/-- How `c` is written between two `mark`s. -/
def escape (mark c : Char) : List Char :=
  if c = '\x00' then ['\\', '0']
  else if c = '\t' then ['\\', 't']
  else if c = '\r' then ['\\', 'r']
  else if c = '\n' then ['\\', 'n']
  else if c = '\\' ∨ c = mark then ['\\', c]
  else if isShapeless c then codePointEscape c
  else [c]

/-- A text between double quotes. -/
def quote (text : String) : String :=
  String.ofList ('"' :: text.toList.flatMap (escape '"') ++ ['"'])

/-- A character between single quotes. -/
def quoteChar (c : Char) : String :=
  String.ofList ('\x27' :: escape '\x27' c ++ ['\x27'])

/-- A name with its facts, each of which has a name of its own. -/
def record (name : String) (facts : List (String × String)) : String :=
  name ++ " \x7b " ++ ", ".intercalate (facts.map fun fact => fact.1 ++ ": " ++ fact.2) ++ " \x7d"

/-- A list of things that are shown already. -/
def listing (items : List String) : String :=
  "[" ++ ", ".intercalate items ++ "]"

end Text

end SochoScript
