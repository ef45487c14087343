import SochoScript.Number.Decimal

/-!
# Reading numerals

A `Numeral` is what a run of digits and points means.  Without a point it is a
whole number; with one point it is a number with decimal places; with more it
is nothing.  The digits are kept exactly, whatever their number, and only
`Numeral.toBinary64` rounds.

* `Numeral.read?_eq_none_iff`: the only runs without a meaning are those with
  two points or more.
-/

namespace SochoScript

namespace Number

-- A power of a natural number is the repeated product, whatever else is in scope.
attribute [local instance (2000)] instPowNat

/-- What a run of digits and points means. -/
inductive Numeral where
  /-- A whole number. -/
  | whole (value : Nat)
  /-- All digits as one number, and how many of them stand after the point. -/
  | fractional (digits places : Nat)
deriving DecidableEq, Repr

namespace Numeral

/-- The meaning of a run of digits and points. -/
def read? (run : List Char) : Option Numeral :=
  let front := run.takeWhile (· ≠ '.')
  match run.dropWhile (· ≠ '.') with
  | [] => some (.whole (digitsValue front))
  | _ :: back =>
    if '.' ∈ back then none
    else some (.fractional (digitsValue (front ++ back)) back.length)

/-- The binary number nearest to a numeral. -/
def toBinary64 : Numeral → Binary64
  | .whole value => .nearest false value 1
  | .fractional digits places => .nearest false digits (10 ^ places)

/-- A run has a meaning unless it has two points or more. -/
theorem read?_eq_none_iff (run : List Char) :
    read? run = none ↔ 2 ≤ run.count '.' := by
  have hsplit : run.takeWhile (· ≠ '.') ++ run.dropWhile (· ≠ '.') = run :=
    List.takeWhile_append_dropWhile
  have hfront : (run.takeWhile (· ≠ '.')).count '.' = 0 := by
    rw [List.count_eq_zero]
    intro hmem
    have hall := List.all_eq_true.mp (List.all_takeWhile (p := (· ≠ '.')) (l := run)) '.' hmem
    simp at hall
  have hcount : run.count '.' = (run.dropWhile (· ≠ '.')).count '.' := by
    have happend := congrArg (List.count '.') hsplit
    rw [List.count_append, hfront, Nat.zero_add] at happend
    exact happend.symm
  rw [hcount, read?]
  generalize hrest : run.dropWhile (· ≠ '.') = rest
  cases rest with
  | nil => simp
  | cons c back =>
      have hpoint : c = '.' := by
        have hne : run.dropWhile (· ≠ '.') ≠ [] := by
          rw [hrest]
          exact List.cons_ne_nil c back
        have hhead := List.head_dropWhile_not (fun c => decide (c ≠ '.')) hne
        simp only [hrest, List.head_cons] at hhead
        simpa using hhead
      subst hpoint
      by_cases hback : '.' ∈ back
      · simp [hback]
      · simp [hback, List.count_eq_zero.mpr hback]

end Numeral

end Number

end SochoScript
