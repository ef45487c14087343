/-!
# Binary floating point of 64 bits

A finite number of this format is a whole number of the smallest positive one,
which is `2 ^ -1074`.  Counting in these *units* turns the whole format into
natural numbers: a magnitude is a natural number that has at most 53 significant
binary digits and stays below `2 ^ 2098` units, and two magnitudes are equal
exactly when their counts are.  No exponent and no hidden digit is stored, so
there is one representation of each number.

A fraction is brought into the format by `nearest`: the number of units is
rounded to the grid on which magnitudes of its size lie, a half going to the
even neighbour, and whatever reaches `2 ^ 2098` units is infinite.

* `representable_roundUnits`: rounding always lands on the grid.
* `roundUnits_of_representable`: a count that is on the grid is kept as it is.
-/

namespace SochoScript

namespace Number

-- A power of a natural number is the repeated product, whatever else is in scope.
attribute [local instance (2000)] instPowNat

/-- The whole number nearest to `num / den`, a half going to the even one. -/
def roundHalfEven (num den : Nat) : Nat :=
  let quotient := num / den
  let remainder := num % den
  if 2 * remainder < den then quotient
  else if den < 2 * remainder then quotient + 1
  else if quotient % 2 = 0 then quotient
  else quotient + 1

/-- Rounding gives the next whole number at most. -/
theorem roundHalfEven_le_succ (num den : Nat) :
    roundHalfEven num den ≤ num / den + 1 := by
  unfold roundHalfEven
  dsimp only
  split <;> (try split) <;> (try split) <;> omega

/-- A whole quotient is not moved by rounding. -/
theorem roundHalfEven_mul_left {den : Nat} (h : 0 < den) (n : Nat) :
    roundHalfEven (den * n) den = n := by
  simp [roundHalfEven, h, Nat.mul_div_cancel_left n h]

/-- The smallest positive number is `2 ^ -1074`. -/
def unitExponent : Nat := 1074

/-- The number of units in one. -/
def unitsPerOne : Nat := 2 ^ unitExponent

/-- The least number of units that is too large for the format, `2 ^ 1024`. -/
def overflowUnits : Nat := 2 ^ (1024 + unitExponent)

/-- One has units. -/
theorem unitsPerOne_pos : 0 < unitsPerOne :=
  Nat.two_pow_pos unitExponent

/-- The number of significant binary digits. -/
def precision : Nat := 53

/-- No more significant binary digits than the format has. -/
def Representable (units : Nat) : Prop :=
  ∃ mantissa scale : Nat, mantissa < 2 ^ precision ∧ units = mantissa * 2 ^ scale

/-- The distance between neighbouring magnitudes of about `units` units. -/
def gridStep (units : Nat) : Nat := 2 ^ (units.log2 + 1 - precision)

/-- The step of the grid is not zero. -/
theorem gridStep_pos (units : Nat) : 0 < gridStep units :=
  Nat.two_pow_pos _

/-- Fewer than `2 ^ precision` steps of its own grid lead up to a magnitude. -/
theorem lt_gridStep_mul (units : Nat) : units < gridStep units * 2 ^ precision := by
  have hlog : units < 2 ^ (units.log2 + 1) := Nat.lt_log2_self
  refine Nat.lt_of_lt_of_le hlog ?_
  rw [gridStep, ← Nat.pow_add]
  exact Nat.pow_le_pow_right (by decide) (by omega)

/-- The magnitude nearest to `num / den`, in units and before the check against
overflow; a half goes to the neighbour with the even number of steps. -/
def roundUnits (num den : Nat) : Nat :=
  let scaled := num * unitsPerOne
  let step := gridStep (scaled / den)
  roundHalfEven scaled (den * step) * step

/-- As many steps as the precision allows, and one more, stay in the format. -/
theorem representable_mul_pow {steps : Nat} (h : steps ≤ 2 ^ precision) (scale : Nat) :
    Representable (steps * 2 ^ scale) := by
  by_cases htop : steps < 2 ^ precision
  · exact ⟨steps, scale, htop, rfl⟩
  · have hsteps : steps = 2 ^ precision := by omega
    refine ⟨2 ^ (precision - 1), scale + 1, by decide, ?_⟩
    have hdouble : 2 ^ precision = 2 ^ (precision - 1) * 2 := by decide
    rw [hsteps, hdouble, Nat.mul_assoc, Nat.mul_comm 2, ← Nat.pow_succ]

/-- Rounding to the grid takes no more steps than that. -/
theorem roundHalfEven_gridStep_le (scaled den : Nat) :
    roundHalfEven scaled (den * gridStep (scaled / den)) ≤ 2 ^ precision := by
  have hsteps : scaled / (den * gridStep (scaled / den)) < 2 ^ precision := by
    rw [← Nat.div_div_eq_div_mul]
    exact Nat.div_lt_of_lt_mul (lt_gridStep_mul _)
  have hle := roundHalfEven_le_succ scaled (den * gridStep (scaled / den))
  omega

/-- Rounding lands on the grid. -/
theorem representable_roundUnits (num den : Nat) : Representable (roundUnits num den) :=
  representable_mul_pow (roundHalfEven_gridStep_le _ den) _

/-- The grid of a magnitude is no coarser than its last digit needs. -/
theorem gridStep_mul_pow_dvd {mantissa : Nat} (h : mantissa < 2 ^ precision) (scale : Nat) :
    gridStep (mantissa * 2 ^ scale) ∣ 2 ^ scale := by
  by_cases hzero : mantissa = 0
  · rw [hzero, Nat.zero_mul]
    exact Nat.one_dvd _
  · have hlog : (mantissa * 2 ^ scale).log2 < precision + scale := by
      rw [Nat.log2_lt (Nat.mul_ne_zero hzero (Nat.ne_of_gt (Nat.two_pow_pos _))), Nat.pow_add]
      exact Nat.mul_lt_mul_of_pos_right h (Nat.two_pow_pos _)
    exact Nat.pow_dvd_pow 2 (by omega)

/-- The step of the grid divides every magnitude on it. -/
theorem gridStep_dvd {units : Nat} (h : Representable units) : gridStep units ∣ units := by
  obtain ⟨mantissa, scale, hm, rfl⟩ := h
  exact Nat.dvd_mul_left_of_dvd (gridStep_mul_pow_dvd hm scale) _

/-- A magnitude on the grid is its own rounding. -/
theorem roundUnits_of_representable {units : Nat} (h : Representable units) :
    roundUnits units unitsPerOne = units := by
  have hone := unitsPerOne_pos
  obtain ⟨steps, hsteps⟩ := gridStep_dvd h
  have hpos : 0 < unitsPerOne * gridStep units := Nat.mul_pos hone (gridStep_pos _)
  have hround : roundHalfEven (units * unitsPerOne) (unitsPerOne * gridStep units) = steps := by
    have hscaled : units * unitsPerOne = unitsPerOne * gridStep units * steps := by
      rw [Nat.mul_assoc, ← hsteps, Nat.mul_comm]
    rw [hscaled, roundHalfEven_mul_left hpos]
  simp only [roundUnits, Nat.mul_div_cancel _ hone, hround]
  rw [Nat.mul_comm, ← hsteps]

/-- The size of a finite number, in units. -/
structure Magnitude where
  /-- The number of units. -/
  units : Nat
  /-- It has no more significant binary digits than the format. -/
  representable : Representable units
  /-- It does not overflow. -/
  bounded : units < overflowUnits
deriving DecidableEq

/-- A magnitude is known by its number of units. -/
theorem Magnitude.eq_of_units {m m' : Magnitude} (h : m.units = m'.units) : m = m' := by
  cases m
  cases m'
  cases h
  rfl

/-- A number of the format.  Zero has two signs, and there is one value that is
not a number. -/
inductive Binary64 where
  | finite (negative : Bool) (size : Magnitude)
  | infinite (negative : Bool)
  | nan
deriving DecidableEq

namespace Binary64

/-- The number of the format nearest to `num / den`, with the given sign. -/
def nearest (negative : Bool) (num den : Nat) : Binary64 :=
  if h : roundUnits num den < overflowUnits then
    .finite negative ⟨roundUnits num den, representable_roundUnits num den, h⟩
  else .infinite negative

end Binary64

end Number

end SochoScript
