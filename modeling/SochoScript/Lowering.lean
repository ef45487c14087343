import SochoScript.Reserved

/-!
# Lowering of word operators

An expression is carried over to JavaScript token by token.  Its signs mean the
same there and stay as they are; the words have to be replaced.  What a word is
replaced by hangs on the `Context` of the expression: a declared value knows all
word operators, a tested condition only comparisons, connectives and truth
values, and leaves the arithmetic words untouched.

* `WordOperator.lowering` is the table.
* `lower?` is the same table under the spelling of the word.
-/

namespace SochoScript

/-- Where an expression stands. -/
inductive Context where
  /-- The value of a declared variable. -/
  | declaration
  /-- The test of a condition. -/
  | condition
deriving DecidableEq, Repr

/-- What messages call a context. -/
def Context.name : Context → String
  | declaration => "declaration"
  | condition => "condition"

/-- What a word is replaced by. -/
inductive Lowering where
  /-- A sign or a literal, with a space on either side. -/
  | padded (symbol : String)
  /-- A step: the compound assignment when an integer follows, and otherwise the
  step by one. -/
  | step (compound unary : String)
deriving DecidableEq, Repr

/-- The replacement of a word operator in a context. -/
def WordOperator.lowering : WordOperator → Context → Option Lowering
  | equals, _ => some (.padded "==")
  | notEquals, _ => some (.padded "!=")
  | and, _ => some (.padded "&&")
  | or, _ => some (.padded "||")
  | not, _ => some (.padded "!")
  | sehi, _ => some (.padded "true")
  | galat, _ => some (.padded "false")
  | plus, .declaration => some (.padded "+")
  | minus, .declaration => some (.padded "-")
  | times, .declaration => some (.padded "*")
  | dividedBy, .declaration => some (.padded "/")
  | modulus, .declaration => some (.padded "%")
  | mod, .declaration => some (.padded "%")
  | increase, .declaration => some (.step "+=" "++")
  | decrease, .declaration => some (.step "-=" "--")
  | _, .condition => none

/-- The replacement of a word in a context; a word that is no operator has none. -/
def lower? (word : String) (context : Context) : Option Lowering :=
  (WordOperator.ofSpelling? word).bind fun operator => operator.lowering context

end SochoScript
