import SochoScript.Number.Binary64

/-!
# Decimal numbers

A `Decimal` is a string of decimal digits, read as one natural number, together
with a power of ten.  It is the common form of what is read from a text and of
what is printed: reading a numeral gives a decimal, `Decimal.nearest` brings it
into the binary format, and printing starts from a decimal again.

* `Magnitude.exact_nearest`: every magnitude has a decimal that means exactly it,
  and that decimal reads back.
* `digitsValue_append`: the value of digits in a row.
-/

namespace SochoScript

namespace Number

-- A power of a natural number is the repeated product, whatever else is in scope.
attribute [local instance (2000)] instPowNat

/-- The value of a decimal digit; any other character counts as nothing. -/
def digitValue (c : Char) : Nat :=
  if c.isDigit then c.toNat - '0'.toNat else 0

/-- The natural number that a row of digits means, `start` standing in front. -/
def digitsValueFrom (start : Nat) (digits : List Char) : Nat :=
  digits.foldl (fun value c => 10 * value + digitValue c) start

/-- The natural number that a row of digits means. -/
def digitsValue (digits : List Char) : Nat :=
  digitsValueFrom 0 digits

/-- Digits in two parts are read one part after the other. -/
theorem digitsValueFrom_append (start : Nat) (left right : List Char) :
    digitsValueFrom start (left ++ right) =
      digitsValueFrom (digitsValueFrom start left) right := by
  simp [digitsValueFrom]

/-- What was read before moves up by the number of digits. -/
theorem digitsValueFrom_eq (start : Nat) (digits : List Char) :
    digitsValueFrom start digits = start * 10 ^ digits.length + digitsValue digits := by
  induction digits generalizing start with
  | nil => simp [digitsValueFrom, digitsValue]
  | cons c rest ih =>
      have hstart := ih (10 * start + digitValue c)
      have hzero := ih (10 * 0 + digitValue c)
      simp only [digitsValue, digitsValueFrom, List.foldl_cons, List.length_cons] at hstart hzero ⊢
      rw [hstart, hzero, Nat.pow_succ, Nat.mul_zero, Nat.zero_add, Nat.add_mul,
        Nat.mul_right_comm, Nat.mul_comm 10, Nat.mul_comm start, Nat.add_assoc]

/-- The value of digits in a row. -/
theorem digitsValue_append (left right : List Char) :
    digitsValue (left ++ right) =
      digitsValue left * 10 ^ right.length + digitsValue right := by
  rw [digitsValue, digitsValueFrom_append, digitsValueFrom_eq]
  rfl

/-- The number `digits * 10 ^ exponent`. -/
structure Decimal where
  /-- All digits, read as one natural number. -/
  digits : Nat
  /-- The power of ten. -/
  exponent : Int
deriving DecidableEq, Repr

namespace Decimal

/-- The numerator of the value as a fraction. -/
def num (d : Decimal) : Nat := d.digits * 10 ^ d.exponent.toNat

/-- The denominator of the value as a fraction. -/
def den (d : Decimal) : Nat := 10 ^ (-d.exponent).toNat

/-- The binary number nearest to a decimal, with the given sign. -/
def nearest (negative : Bool) (d : Decimal) : Binary64 :=
  .nearest negative d.num d.den

/-- The same number without zeros at its end; nothing is written with the
exponent zero. -/
def strip (d : Decimal) : Decimal :=
  if _h : d.digits = 0 then ⟨0, 0⟩
  else if d.digits % 10 = 0 then strip ⟨d.digits / 10, d.exponent + 1⟩
  else d
termination_by d.digits
decreasing_by omega

end Decimal

/-- The decimal that means exactly the given magnitude. -/
def Magnitude.exact (m : Magnitude) : Decimal :=
  ⟨m.units * 5 ^ unitExponent, -unitExponent⟩

/-- A fraction may be extended before it is rounded. -/
theorem roundUnits_mul_right {factor : Nat} (h : 0 < factor) (num den : Nat) :
    roundUnits (num * factor) (den * factor) = roundUnits num den := by
  have hscaled : num * factor * unitsPerOne = num * unitsPerOne * factor := by
    rw [Nat.mul_right_comm]
  have hround : ∀ a b : Nat, roundHalfEven (a * factor) (b * factor) = roundHalfEven a b := by
    intro a b
    unfold roundHalfEven
    rw [Nat.mul_div_mul_right a b h, Nat.mul_mod_mul_right]
    have hleft : 2 * (a % b * factor) < b * factor ↔ 2 * (a % b) < b := by
      rw [← Nat.mul_assoc]
      exact Nat.mul_lt_mul_right h
    have hright : b * factor < 2 * (a % b * factor) ↔ b < 2 * (a % b) := by
      rw [← Nat.mul_assoc]
      exact Nat.mul_lt_mul_right h
    simp only [hleft, hright]
  unfold roundUnits
  dsimp only
  rw [hscaled, Nat.mul_div_mul_right _ _ h, Nat.mul_right_comm den factor, hround]

/-- **Exact decimals read back.**  The decimal that means exactly a magnitude is
nearest to that magnitude. -/
theorem Magnitude.exact_nearest (m : Magnitude) (negative : Bool) :
    m.exact.nearest negative = .finite negative m := by
  have hround : roundUnits m.exact.num m.exact.den = m.units := by
    have hnum : m.exact.num = m.units * 5 ^ unitExponent := by
      simp [Magnitude.exact, Decimal.num]
    have hden : m.exact.den = unitsPerOne * 5 ^ unitExponent := by
      have hten : (10 : Nat) = 2 * 5 := rfl
      simp only [Magnitude.exact, Decimal.den, Int.neg_neg, Int.toNat_natCast, unitsPerOne]
      rw [hten, Nat.mul_pow]
    rw [hnum, hden, roundUnits_mul_right (Nat.pow_pos (by decide)),
      roundUnits_of_representable m.representable]
  have hlt : roundUnits m.exact.num m.exact.den < overflowUnits := hround ▸ m.bounded
  unfold Decimal.nearest Binary64.nearest
  rw [dif_pos hlt]
  congr 1
  cases m
  simpa using hround

end Number

end SochoScript
