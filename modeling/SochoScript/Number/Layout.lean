import SochoScript.Number.Shortest

/-!
# Writing numbers down

Two written forms of a binary number are in use.  Both start from the shortest
decimal that reads back, and they differ in the decisions that follow.

* `Binary64.plain` is the form of programs and messages: digits with at most one
  point between them, never an exponent, no point in a whole number, and the
  names `Infinity` and `NaN` for what has no digits.  Of two equally near
  decimals the upper one is taken.
* `Magnitude.scientific` is the form of data files: positional for the decimal
  exponents from -5 to 15, with `.0` after a whole number, and otherwise one
  digit, the point, the other digits and the exponent with its sign.  Of two
  equally near decimals the even one is taken.
-/

namespace SochoScript

namespace Number

/-- The digits of a natural number, the highest first. -/
def digitsOf (n : Nat) : List Char :=
  Nat.toDigits 10 n

/-- Digits with the point at the place that `exponent` says, and zeros where
there are no digits. -/
def positional (digits : List Char) (exponent : Int) : List Char :=
  let whole : Int := digits.length + exponent
  if 0 ≤ exponent then digits ++ List.replicate exponent.toNat '0'
  else if 0 < whole then digits.take whole.toNat ++ '.' :: digits.drop whole.toNat
  else '0' :: '.' :: (List.replicate (-whole).toNat '0' ++ digits)

/-- Digits with the point after the first, and the exponent of that digit. -/
def exponential (digits : List Char) (exponent : Int) : List Char :=
  let marked :=
    if exponent < 0 then 'e' :: '-' :: digitsOf exponent.natAbs
    else 'e' :: '+' :: digitsOf exponent.natAbs
  match digits with
  | [] => marked
  | [d] => d :: marked
  | d :: rest => d :: '.' :: (rest ++ marked)

/-- A magnitude in plain digits. -/
def Magnitude.plain (m : Magnitude) : List Char :=
  let d := (m.shortest .up).strip
  positional (digitsOf d.digits) d.exponent

/-- A magnitude with a point or an exponent. -/
def Magnitude.scientific (m : Magnitude) : List Char :=
  let d := (m.shortest .toEven).strip
  let digits := digitsOf d.digits
  let lead : Int := digits.length - 1 + d.exponent
  if lead < -5 ∨ 15 < lead then exponential digits lead
  else if 0 ≤ d.exponent then positional digits d.exponent ++ ['.', '0']
  else positional digits d.exponent

/-- A sign in front of a text. -/
def signed (negative : Bool) (text : List Char) : List Char :=
  if negative then '-' :: text else text

/-- The form of programs and messages. -/
def Binary64.plain : Binary64 → String
  | .finite negative size => String.ofList (signed negative size.plain)
  | .infinite negative => String.ofList (signed negative "Infinity".toList)
  | .nan => "NaN"

end Number

end SochoScript
