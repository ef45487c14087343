/-!
# Reserved words and signs

The fixed vocabulary of the language, which the scanner and the parser share.

* `Keyword`: the five words that open or continue a statement.
* `WordOperator`: the operators that are spelled as words, with `sehi` and
  `galat`, the two truth values, among them.
* `symbolOperators`: the operators that are spelled with signs.  Every beginning
  of an operator of several signs is an operator itself
  (`symbolOperators_initial`), which is what makes scanning sign by sign find
  the longest one.
* `brackets`, `quoteMarks`, `endOfStatement`: the remaining signs.
-/

namespace SochoScript

/-- The words that open or continue a statement. -/
inductive Keyword where
  /-- Declares a variable. -/
  | socho
  /-- Prints a value. -/
  | likho
  /-- Reads a line of input into a variable. -/
  | pucho
  /-- Opens a condition. -/
  | agar
  /-- Opens the other branch of a condition. -/
  | warna
deriving DecidableEq, Repr

namespace Keyword

/-- How a keyword is written. -/
def spelling : Keyword → String
  | socho => "socho"
  | likho => "likho"
  | pucho => "pucho"
  | agar => "agar"
  | warna => "warna"

/-- All keywords. -/
def all : List Keyword := [socho, likho, pucho, agar, warna]

/-- The keyword that is written `word`. -/
def ofSpelling? (word : String) : Option Keyword :=
  all.find? fun keyword => keyword.spelling = word

/-- A keyword is found under its spelling, and nothing else is. -/
theorem ofSpelling?_eq_some_iff {word : String} {keyword : Keyword} :
    ofSpelling? word = some keyword ↔ keyword.spelling = word := by
  constructor
  · intro h
    simpa using List.find?_some h
  · rintro rfl
    cases keyword <;> decide

end Keyword

/-- The operators that are spelled as words. -/
inductive WordOperator where
  | plus
  | minus
  | times
  | dividedBy
  | modulus
  | mod
  | equals
  | notEquals
  | and
  | or
  | not
  | increase
  | decrease
  | sehi
  | galat
deriving DecidableEq, Repr

namespace WordOperator

/-- How a word operator is written. -/
def spelling : WordOperator → String
  | plus => "plus"
  | minus => "minus"
  | times => "times"
  | dividedBy => "divided_by"
  | modulus => "modulus"
  | mod => "mod"
  | equals => "equals"
  | notEquals => "not_equals"
  | and => "AND"
  | or => "OR"
  | not => "NOT"
  | increase => "increase"
  | decrease => "decrease"
  | sehi => "sehi"
  | galat => "galat"

/-- All word operators. -/
def all : List WordOperator :=
  [plus, minus, times, dividedBy, modulus, mod, equals, notEquals, and, or, not,
   increase, decrease, sehi, galat]

/-- The word operator that is written `word`. -/
def ofSpelling? (word : String) : Option WordOperator :=
  all.find? fun operator => operator.spelling = word

/-- A word operator is found under its spelling, and nothing else is. -/
theorem ofSpelling?_eq_some_iff {word : String} {operator : WordOperator} :
    ofSpelling? word = some operator ↔ operator.spelling = word := by
  constructor
  · intro h
    simpa using List.find?_some h
  · rintro rfl
    cases operator <;> decide

end WordOperator

namespace Reserved

/-- The operators that are spelled with signs. -/
def symbolOperators : List String :=
  ["=", "==", "===", "!", "!=", "!==", "<", "<=", ">", ">=", "+", "++", "+=",
   "-", "--", "-=", "*", "*=", "/", "/=", "%", "%=", "&", "&&", "|", "||"]

/-- Whether a text is an operator that is spelled with signs. -/
def isSymbolOperator (text : List Char) : Bool :=
  symbolOperators.any fun operator => operator.toList = text

/-- Every non-empty beginning of an operator is an operator. -/
theorem symbolOperators_initial :
    ∀ operator ∈ symbolOperators, ∀ n ∈ List.range operator.toList.length,
      isSymbolOperator (operator.toList.take (n + 1)) := by
  decide

/-- The brackets. -/
def brackets : List Char := ['\x7b', '\x7d', '(', ')', '[', ']']

/-- Whether a character is a bracket. -/
def isBracket (c : Char) : Bool := brackets.contains c

/-- The bracket that opens a block. -/
def blockOpen : String := "\x7b"

/-- The bracket that closes a block. -/
def blockClose : String := "\x7d"

/-- The sign that ends a statement. -/
def endOfStatement : Char := ';'

/-- The signs that enclose a literal text. -/
def quoteMarks : List Char := ['"', '\x27', '\x60']

/-- Whether a character encloses a literal text. -/
def isQuoteMark (c : Char) : Bool := quoteMarks.contains c

/-- The operators that introduce the value of a declared variable. -/
def assignments : List String := ["=", WordOperator.equals.spelling]

end Reserved

end SochoScript
