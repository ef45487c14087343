import SochoScript.Number.Decimal

/-!
# The shortest decimal that reads back

A binary magnitude is printed with as few digits as will still be read back as
the same magnitude.  For a fixed number of digits only two decimals come into
question: the exact value cut off after so many digits, and the next one above.
Of two that both read back, the one nearer to the exact value is taken, and a
`Tie` says which one when they are equally near.

The search tries 1, 2, … 17 digits in turn.  Should none of them do, the exact
decimal is taken, so that the answer reads back by construction:

* `Magnitude.shortest_nearest`: the shortest decimal of a magnitude is nearest
  to that magnitude.
-/

namespace SochoScript

namespace Number

-- A power of a natural number is the repeated product, whatever else is in scope.
attribute [local instance (2000)] instPowNat

/-- Which of two equally near decimals is taken. -/
inductive Tie where
  | up
  | toEven
deriving DecidableEq, Repr

/-- The number of decimal digits of a natural number. -/
def digitCount (n : Nat) : Nat :=
  (Nat.toDigits 10 n).length

namespace Magnitude

/-- Whether a decimal is read as the magnitude `m`. -/
def isReadFrom (m : Magnitude) (d : Decimal) : Bool :=
  d.nearest false = .finite false m

/-- A decimal is read as a number if that is the nearest one. -/
theorem isReadFrom_iff {m : Magnitude} {d : Decimal} :
    m.isReadFrom d = true ↔ d.nearest false = .finite false m := by
  rw [isReadFrom, decide_eq_true_iff]

/-- The exact decimal, cut off `dropped` digits before its end. -/
def cutBelow (m : Magnitude) (dropped : Nat) : Decimal :=
  ⟨m.exact.digits / 10 ^ dropped, m.exact.exponent + dropped⟩

/-- The decimal of the same length just above the one cut off. -/
def cutAbove (m : Magnitude) (dropped : Nat) : Decimal :=
  ⟨m.exact.digits / 10 ^ dropped + 1, m.exact.exponent + dropped⟩

/-- Whether the decimal above is to be preferred to the one cut off. -/
def prefersAbove (m : Magnitude) (tie : Tie) (dropped : Nat) : Bool :=
  let twice := 2 * (m.exact.digits % 10 ^ dropped)
  if twice = 10 ^ dropped then
    match tie with
    | .up => true
    | .toEven => m.exact.digits / 10 ^ dropped % 2 = 1
  else 10 ^ dropped < twice

/-- The two decimals with `dropped` digits less than the exact one, the
preferred one first. -/
def neighbours (m : Magnitude) (tie : Tie) (dropped : Nat) : List Decimal :=
  if m.prefersAbove tie dropped then [m.cutAbove dropped, m.cutBelow dropped]
  else [m.cutBelow dropped, m.cutAbove dropped]

/-- The decimal with `dropped` digits less than the exact one that reads back as
`m`, if there is one. -/
def candidate? (m : Magnitude) (tie : Tie) (dropped : Nat) : Option Decimal :=
  (m.neighbours tie dropped).find? m.isReadFrom

/-- The decimal with the fewest digits, at most `17`, that reads back as `m`;
else the exact one. -/
def shortest (tie : Tie) (m : Magnitude) : Decimal :=
  let count := digitCount m.exact.digits
  ((List.range 17).findSome? fun n => m.candidate? tie (count - (n + 1))).getD m.exact

/-- A candidate reads back. -/
theorem candidate?_nearest {m : Magnitude} {tie : Tie} {dropped : Nat} {d : Decimal}
    (h : m.candidate? tie dropped = some d) : d.nearest false = .finite false m :=
  isReadFrom_iff.mp (List.find?_some h)

/-- **The shortest decimal reads back.** -/
theorem shortest_nearest (m : Magnitude) (tie : Tie) :
    (m.shortest tie).nearest false = .finite false m := by
  unfold shortest
  dsimp only
  generalize hsearch : (List.range 17).findSome? _ = found
  cases found with
  | none => exact m.exact_nearest false
  | some d =>
      obtain ⟨n, _, hn⟩ := List.exists_of_findSome?_eq_some hsearch
      exact candidate?_nearest hn

end Magnitude

end Number

end SochoScript
