import SochoScript.Proofs.Numerals
import Mathlib.Algebra.Order.Ring.Rat
import Mathlib.Algebra.Order.Field.Basic
import Mathlib.Data.Nat.Log
import Mathlib.Tactic.Linarith
import Mathlib.Tactic.FieldSimp
import Mathlib.Tactic.Ring

/-!
# Rounding to the nearest

What it means that a number of the format is nearest to an exact value, without saying how
it is found: no other number of the format is nearer, and if another one is as near, the
last binary digit is zero.  There is always one such number, and rounding finds it.

The exact value is a rational number.  It is compared with the counts of units that the
format has, here continued beyond its largest number, so that the overflow is a question
that is asked of the result.

* `abs_sub_steps_le`: on a grid of one step, rounding stays within half a step, and it goes
  to the even neighbour where it moves by that much.
* `on_grid_or_farther`: the format has more numbers than the grid at a magnitude only below
  the last power of two, and that power is nearer than all of them.
* `IsNearest.unique`: of two nearest magnitudes, both would be even, and the one between
  them would be nearer.
* `Binary64.isNearest_iff`: **a fraction is brought into the format exactly rounded.**
* `Numeral.isNearest_toBinary64`: so is a numeral, whatever the number of its digits.
-/

namespace SochoScript

namespace Number

-- A power of a natural number is the repeated product, whatever else is in scope.
attribute [local instance (2000)] instPowNat

/-! ### What it means to be nearest -/

/-- The magnitude is an even number of steps of its own grid: its last binary digit is
zero. -/
def EvenSteps (units : Nat) : Prop := 2 * gridStep units ∣ units

/-- The magnitude is nearest to the exact number of units, a half going to the even
neighbour.  The format is taken without its upper end. -/
structure IsNearest (exact : ℚ) (units : Nat) : Prop where
  representable : Representable units
  nearest : ∀ other : Nat, Representable other → |exact - units| ≤ |exact - other|
  even : ∀ other : Nat, Representable other → other ≠ units →
    |exact - units| = |exact - other| → EvenSteps units

/-- The number of the format that is nearest to an exact value, which is not negative.  A
value is infinite if what is nearest to it does not fit. -/
inductive Binary64.IsNearest (exact : ℚ) : Binary64 → Prop
  | finite {size : Magnitude} (h : Number.IsNearest (exact * unitsPerOne) size.units) :
      IsNearest exact (.finite false size)
  | infinite {units : Nat} (h : Number.IsNearest (exact * unitsPerOne) units)
      (hunits : overflowUnits ≤ units) : IsNearest exact (.infinite false)

/-! ### Rounding to whole numbers -/

/-- Rounding moves a fraction by a half at most, and by a half only to an even number. -/
theorem abs_sub_roundHalfEven_le {exact : ℚ} {num den : Nat} (hden : 0 < den)
    (hexact : exact * den = num) :
    |exact - roundHalfEven num den| ≤ 1 / 2 ∧
      (|exact - roundHalfEven num den| = 1 / 2 → roundHalfEven num den % 2 = 0) := by
  have hpos : (0 : ℚ) < den := by exact_mod_cast hden
  obtain ⟨part, hpart⟩ : ∃ part : ℚ, part = (num % den : Nat) / den := ⟨_, rfl⟩
  have hsplit : exact = (num / den : Nat) + part := by
    have hnum : (num : ℚ) = den * (num / den : Nat) + (num % den : Nat) := by
      exact_mod_cast (Nat.div_add_mod num den).symm
    rw [hpart, eq_div_of_mul_eq hpos.ne' hexact, hnum]
    field_simp
  have hnonneg : 0 ≤ part := by
    rw [hpart]
    positivity
  have hbelow : part < 1 := by
    rw [hpart, div_lt_one hpos]
    exact_mod_cast Nat.mod_lt num hden
  have hlow : 2 * (num % den) < den ↔ part < 1 / 2 := by
    rw [hpart, div_lt_iff₀ hpos, ← @Nat.cast_lt ℚ]
    push_cast
    constructor <;> intro h <;> linarith
  have hhigh : den < 2 * (num % den) ↔ 1 / 2 < part := by
    rw [hpart, lt_div_iff₀ hpos, ← @Nat.cast_lt ℚ]
    push_cast
    constructor <;> intro h <;> linarith
  have hup : |exact - (num / den + 1 : Nat)| = 1 - part := by
    rw [hsplit, Nat.cast_succ, add_sub_add_left_eq_sub, abs_sub_comm, abs_of_nonneg (by linarith)]
  have hdown : |exact - (num / den : Nat)| = part := by
    rw [hsplit, add_sub_cancel_left, abs_of_nonneg hnonneg]
  unfold roundHalfEven
  simp only [hlow, hhigh]
  by_cases hpartLow : part < 1 / 2
  · rw [if_pos hpartLow, hdown]
    exact ⟨hpartLow.le, fun h => absurd h hpartLow.ne⟩
  · rw [if_neg hpartLow]
    by_cases hpartHigh : 1 / 2 < part
    · rw [if_pos hpartHigh, hup]
      exact ⟨by linarith, fun h => absurd h (by linarith)⟩
    · -- The fraction is a half, and the quotient or its successor is even.
      rw [if_neg hpartHigh]
      by_cases heven : num / den % 2 = 0
      · rw [if_pos heven, hdown]
        exact ⟨by linarith, fun _ => heven⟩
      · rw [if_neg heven, hup]
        exact ⟨by linarith, fun _ => by omega⟩

/-- The same on a grid of any step. -/
theorem abs_sub_steps_le {exact : ℚ} {num den step : Nat} (hden : 0 < den) (hstep : 0 < step)
    (hexact : exact * den = num) :
    |exact - (roundHalfEven num (den * step) * step : Nat)| ≤ step / 2 ∧
      (|exact - (roundHalfEven num (den * step) * step : Nat)| = step / 2 →
        roundHalfEven num (den * step) % 2 = 0) := by
  have hpos : (0 : ℚ) < step := by exact_mod_cast hstep
  have hscaled : exact / step * (den * step : Nat) = num := by
    rw [Nat.cast_mul, ← hexact]
    field_simp
  have hsteps : ∀ steps : Nat, |exact - (steps * step : Nat)| = |exact / step - steps| * step := by
    intro steps
    rw [← abs_of_pos hpos, ← abs_mul, abs_of_pos hpos, Nat.cast_mul, sub_mul,
      div_mul_cancel₀ _ hpos.ne']
  obtain ⟨hle, heven⟩ := abs_sub_roundHalfEven_le (Nat.mul_pos hden hstep) hscaled
  rw [hsteps]
  constructor
  · calc |exact / step - roundHalfEven num (den * step)| * step ≤ 1 / 2 * step :=
          mul_le_mul_of_nonneg_right hle hpos.le
      _ = step / 2 := by ring
  · intro hhalf
    apply heven
    apply mul_right_cancel₀ hpos.ne'
    rw [hhalf]
    ring

/-- Of all numbers of steps, only one is less than half a step away. -/
theorem half_le_abs_sub {exact : ℚ} {steps other step : Nat} (hne : other ≠ steps)
    (h : |exact - (steps * step : Nat)| ≤ step / 2) :
    (step / 2 : ℚ) ≤ |exact - (other * step : Nat)| := by
  obtain ⟨hlow, hhigh⟩ := abs_le.mp h
  rcases Nat.lt_or_gt_of_ne hne with hlt | hgt
  · have hcast : ((other * step : Nat) : ℚ) + step ≤ (steps * step : Nat) := by
      exact_mod_cast Nat.succ_mul other step ▸ Nat.mul_le_mul_right step hlt
    exact le_trans (by linarith) (le_abs_self _)
  · have hcast : ((steps * step : Nat) : ℚ) + step ≤ (other * step : Nat) := by
      exact_mod_cast Nat.succ_mul steps step ▸ Nat.mul_le_mul_right step hgt
    exact le_trans (by linarith) (neg_le_abs _)

/-! ### The grid -/

/-- The grid only gets coarser. -/
theorem gridStep_dvd_gridStep {below units : Nat} (h : below.log2 ≤ units.log2) :
    gridStep below ∣ gridStep units :=
  Nat.pow_dvd_pow 2 (by omega)

/-- A magnitude is on the grid that belongs to `below`, or it is less than the power of two
below that. -/
theorem gridStep_dvd_or_lt (below : Nat) {other : Nat} (h : Representable other) :
    gridStep below ∣ other ∨ other < 2 ^ below.log2 ∧ 2 ^ below.log2 ≤ below := by
  by_cases hzero : below = 0
  · subst hzero
    exact .inl (Nat.one_dvd other)
  · by_cases hlt : other < 2 ^ below.log2
    · exact .inr ⟨hlt, Nat.log2_self_le hzero⟩
    · have hother : other ≠ 0 := by
        have hpow := Nat.two_pow_pos below.log2
        omega
      have hlog : below.log2 ≤ other.log2 := (Nat.le_log2 hother).mpr (Nat.le_of_not_lt hlt)
      exact .inl (Nat.dvd_trans (gridStep_dvd_gridStep hlog) (gridStep_dvd h))

/-- An even number of steps, up to the next power of two, is even on its own grid. -/
theorem evenSteps_mul_pow {steps : Nat} (hsteps : steps ≤ 2 ^ precision) (heven : steps % 2 = 0)
    (scale : Nat) : EvenSteps (steps * 2 ^ scale) := by
  rcases Nat.lt_or_eq_of_le hsteps with hlt | rfl
  · exact Nat.mul_dvd_mul (Nat.dvd_of_mod_eq_zero heven) (gridStep_mul_pow_dvd hlt scale)
  · -- The next power of two lies on a grid that is coarser by one digit.
    have hstep : gridStep (2 ^ precision * 2 ^ scale) = 2 ^ (scale + 1) := by
      rw [← Nat.pow_add, gridStep, Nat.log2_two_pow]
      congr 1
      omega
    rw [EvenSteps, hstep, ← Nat.pow_succ', ← Nat.pow_add]
    exact Nat.pow_dvd_pow 2 (by rw [precision]; omega)

/-- The next magnitude is one step of the grid further. -/
theorem representable_add_gridStep {units : Nat} (h : Representable units) :
    Representable (units + gridStep units) := by
  obtain ⟨steps, hsteps⟩ := gridStep_dvd h
  have hlt : steps < 2 ^ precision := by
    apply Nat.lt_of_mul_lt_mul_left (a := gridStep units)
    rw [← hsteps]
    exact lt_gridStep_mul units
  have hnext : units + gridStep units = (steps + 1) * gridStep units := by
    rw [Nat.succ_mul, Nat.mul_comm steps, ← hsteps]
  rw [hnext]
  exact representable_mul_pow hlt _

/-! ### Rounding is nearest -/

/-- The whole part of a quotient is not above it. -/
theorem floor_le {exact : ℚ} {num den : Nat} (hden : 0 < den) (hexact : exact * den = num) :
    ((num / den : Nat) : ℚ) ≤ exact := by
  have hpos : (0 : ℚ) < den := by exact_mod_cast hden
  rw [eq_div_of_mul_eq hpos.ne' hexact, le_div_iff₀ hpos]
  exact_mod_cast Nat.div_mul_le_self num den

section

variable {exact : ℚ} {below steps : Nat}

/-- Half a step away from a point of the grid, no other point of it is nearer. -/
theorem abs_sub_le_of_half (hhalf : |exact - (steps * gridStep below : Nat)| ≤ gridStep below / 2)
    (other : Nat) :
    |exact - (steps * gridStep below : Nat)| ≤ |exact - (other * gridStep below : Nat)| := by
  by_cases hne : other = steps
  · rw [hne]
  · exact hhalf.trans (half_le_abs_sub hne hhalf)

/-- A magnitude that is not on the grid lies behind a power of two that is. -/
theorem on_grid_or_farther (hbelow : (below : ℚ) ≤ exact)
    (hhalf : |exact - (steps * gridStep below : Nat)| ≤ gridStep below / 2) {other : Nat}
    (h : Representable other) :
    (∃ n, other = n * gridStep below) ∨
      |exact - (steps * gridStep below : Nat)| < |exact - other| := by
  rcases gridStep_dvd_or_lt below h with ⟨n, hn⟩ | ⟨hlt, hle⟩
  · exact .inl ⟨n, by rw [hn, Nat.mul_comm]⟩
  · obtain ⟨n, hn⟩ : gridStep below ∣ 2 ^ below.log2 :=
      Nat.pow_dvd_pow 2 (by rw [precision]; omega)
    refine .inr ((abs_sub_le_of_half hhalf n).trans_lt ?_)
    rw [Nat.mul_comm n, ← hn]
    have hpower : ((2 ^ below.log2 : Nat) : ℚ) ≤ exact := le_trans (by exact_mod_cast hle) hbelow
    have hother : (other : ℚ) < (2 ^ below.log2 : Nat) := by exact_mod_cast hlt
    rw [abs_of_nonneg (by linarith), abs_of_nonneg (by linarith)]
    linarith

end

/-- **Rounding to the grid finds the nearest magnitude.** -/
theorem isNearest_roundUnits {exact : ℚ} {num den : Nat} (hden : 0 < den)
    (hexact : exact * den = (num * unitsPerOne : Nat)) :
    IsNearest exact (roundUnits num den) := by
  unfold roundUnits
  generalize num * unitsPerOne = scaled at hexact ⊢
  dsimp only
  have hbound := roundHalfEven_gridStep_le scaled den
  have hbelow := floor_le hden hexact
  generalize scaled / den = below at hbound hbelow ⊢
  obtain ⟨hhalf, htie⟩ := abs_sub_steps_le hden (gridStep_pos below) hexact
  generalize roundHalfEven scaled (den * gridStep below) = steps at hbound hhalf htie ⊢
  refine ⟨representable_mul_pow hbound _, ?_, ?_⟩
  · intro other h
    rcases on_grid_or_farther hbelow hhalf h with ⟨n, rfl⟩ | hlt
    · exact abs_sub_le_of_half hhalf n
    · exact hlt.le
  · intro other h hne heq
    rcases on_grid_or_farther hbelow hhalf h with ⟨n, rfl⟩ | hlt
    · have hn : n ≠ steps := by
        rintro rfl
        exact hne rfl
      have hfar := half_le_abs_sub hn hhalf
      rw [← heq] at hfar
      exact evenSteps_mul_pow hbound (htie (le_antisymm hhalf hfar)) _
    · exact absurd heq hlt.ne

/-- Two magnitudes that are both even are not one step apart. -/
theorem add_gridStep_lt {units next : Nat} (hunits : Representable units)
    (hnext : Representable next) (hlt : units < next) (heven : EvenSteps units)
    (heven' : EvenSteps next) : units + gridStep units < next := by
  have hpos := gridStep_pos units
  have hgrid : gridStep units ∣ gridStep next := by
    apply gridStep_dvd_gridStep
    rw [Nat.log2_eq_log_two, Nat.log2_eq_log_two]
    exact Nat.log_mono_right hlt.le
  have hdvd : gridStep units ∣ next - units :=
    Nat.dvd_sub (hgrid.trans (gridStep_dvd hnext)) (gridStep_dvd hunits)
  have hle := Nat.le_of_dvd (by omega) hdvd
  have hne : next - units ≠ gridStep units := by
    intro hstep
    have hdouble : 2 * gridStep units ∣ next - units :=
      Nat.dvd_sub ((Nat.mul_dvd_mul_left 2 hgrid).trans heven') heven
    rw [hstep] at hdouble
    have htoo := Nat.le_of_dvd hpos hdouble
    omega
  omega

/-- Of two nearest numbers of units none is the smaller one. -/
theorem IsNearest.not_lt {exact : ℚ} {units next : Nat} (h : IsNearest exact units)
    (h' : IsNearest exact next) : ¬ units < next := by
  intro hlt
  have heq : |exact - units| = |exact - next| :=
    le_antisymm (h.nearest next h'.representable) (h'.nearest units h.representable)
  have heven := h.even next h'.representable (by omega) heq
  have heven' := h'.even units h.representable (by omega) heq.symm
  have hbetween : (units : ℚ) + gridStep units < next := by
    exact_mod_cast add_gridStep_lt h.representable h'.representable hlt heven heven'
  have hpos : (0 : ℚ) < gridStep units := by exact_mod_cast gridStep_pos units
  -- The exact number is halfway between the two, and the next magnitude is nearer to it.
  have hmiddle : exact - units = next - exact := by
    rcases abs_eq_abs.mp heq with hsame | hopposite
    · linarith
    · linarith
  have hnearer : |exact - (units + gridStep units : Nat)| < |exact - units| := by
    rw [abs_of_nonneg (by linarith : 0 ≤ exact - units), Nat.cast_add, abs_lt]
    constructor
    · linarith
    · linarith
  have hnearest := h.nearest _ (representable_add_gridStep h.representable)
  exact absurd hnearest (not_le.mpr hnearer)

/-- There is one nearest magnitude at most. -/
theorem IsNearest.unique {exact : ℚ} {units units' : Nat} (h : IsNearest exact units)
    (h' : IsNearest exact units') : units = units' := by
  have hle := h.not_lt h'
  have hge := h'.not_lt h
  omega

/-- Nothing is rounded past a magnitude. -/
theorem IsNearest.le {exact : ℚ} {units bound : Nat} (h : IsNearest exact units)
    (hbound : Representable bound) (hle : exact ≤ bound) : units ≤ bound := by
  by_contra hlt
  have hcast : (bound : ℚ) < units := by exact_mod_cast Nat.lt_of_not_le hlt
  have hnearest := h.nearest bound hbound
  rw [abs_of_nonpos (by linarith), abs_of_nonpos (by linarith)] at hnearest
  linarith

namespace Binary64

/-- At most one binary number is nearest. -/
theorem IsNearest.unique {exact : ℚ} {x y : Binary64} (hx : IsNearest exact x)
    (hy : IsNearest exact y) : x = y := by
  cases hx with
  | @finite size h =>
      cases hy with
      | @finite size' h' => rw [Magnitude.eq_of_units (h.unique h')]
      | infinite h' hunits =>
          have hbounded := size.bounded
          have hsame := h.unique h'
          omega
  | infinite h hunits =>
      cases hy with
      | @finite size' h' =>
          have hbounded := size'.bounded
          have hsame := h.unique h'
          omega
      | infinite h' hunits' => rfl

/-- **Fractions are brought into the format exactly rounded.** -/
theorem isNearest_iff {num den : Nat} (hden : 0 < den) {x : Binary64} :
    IsNearest (num / den) x ↔ x = nearest false num den := by
  have hpos : (den : ℚ) ≠ 0 := by exact_mod_cast hden.ne'
  have hscaled : (num / den * unitsPerOne : ℚ) * den = (num * unitsPerOne : Nat) := by
    rw [Nat.cast_mul, mul_right_comm, div_mul_cancel₀ _ hpos]
  have hround := isNearest_roundUnits hden hscaled
  have hnearest : IsNearest (num / den) (nearest false num den) := by
    by_cases hfits : roundUnits num den < overflowUnits
    · rw [nearest, dif_pos hfits]
      exact .finite hround
    · rw [nearest, dif_neg hfits]
      exact .infinite hround (Nat.not_lt.mp hfits)
  constructor
  · intro h
    exact h.unique hnearest
  · intro h
    rw [h]
    exact hnearest

/-- What is less than the overflow by a power of two is not infinite. -/
theorem IsNearest.ne_infinite {exact : ℚ} {x : Binary64} (h : IsNearest exact x) {k : Nat}
    (hk : k < 1024) (hle : exact ≤ (2 ^ k : Nat)) : x ≠ .infinite false := by
  rintro rfl
  cases h with
  | infinite h hunits =>
      have hbound : Representable (2 ^ k * unitsPerOne) := by
        refine ⟨1, k + unitExponent, by decide, ?_⟩
        rw [Nat.one_mul, Nat.pow_add, unitsPerOne]
      have hscaled : exact * unitsPerOne ≤ (2 ^ k * unitsPerOne : Nat) := by
        rw [Nat.cast_mul]
        exact mul_le_mul_of_nonneg_right hle (Nat.cast_nonneg _)
      have hfits : 2 ^ k * unitsPerOne < overflowUnits := by
        rw [unitsPerOne, overflowUnits, ← Nat.pow_add]
        exact Nat.pow_lt_pow_right (by decide) (Nat.add_lt_add_right hk _)
      have hunits' := h.le hbound hscaled
      omega

end Binary64

/-! ### Numerals -/

/-- The exact value of a run of digits with at most one point: all digits as one number,
divided by ten for each of them that stands behind the point. -/
def decimalValue (run : List Char) : ℚ :=
  Nat.ofDigitChars 10 (run.filter Char.isDigit) 0 / 10 ^ (run.dropWhile (· ≠ '.')).tail.length

/-- A run without a second point is a row of digits, or two with the point between them. -/
theorem digits_or_point {run : List Char} (hparts : ∀ c ∈ run, c.isDigit = true ∨ c = '.')
    (hpoints : run.count '.' ≤ 1) :
    (run.count '.' = 0 ∧ Digits run) ∨
      ∃ front back, run.count '.' = 1 ∧ run = front ++ '.' :: back ∧ Digits front ∧
        Digits back := by
  have hdigits : ∀ part : List Char, part ⊆ run → part.count '.' = 0 → Digits part := by
    intro part hpart hnone c hc
    rcases hparts c (hpart hc) with hdigit | rfl
    · exact hdigit
    · exact absurd hc (List.count_eq_zero.mp hnone)
  by_cases hnone : run.count '.' = 0
  · exact .inl ⟨hnone, hdigits run (List.Subset.refl run) hnone⟩
  · obtain ⟨front, back, rfl⟩ : ∃ front back, run = front ++ '.' :: back := by
      apply List.append_of_mem
      exact List.count_pos_iff.mp (by omega)
    have hcount : (front ++ '.' :: back).count '.' = front.count '.' + (back.count '.' + 1) := by
      rw [List.count_append, List.count_cons_self]
    refine .inr ⟨front, back, by omega, rfl, hdigits front ?_ (by omega),
      hdigits back ?_ (by omega)⟩
    · exact List.subset_append_left _ _
    · intro c hc
      exact List.mem_append_right _ (List.mem_cons_of_mem _ hc)

/-- Without a point the value is that of the digits. -/
theorem decimalValue_digits {digits : List Char} (h : Digits digits) :
    decimalValue digits = digitsValue digits := by
  have hfilter : digits.filter Char.isDigit = digits := List.filter_eq_self.mpr h
  have hdrop : digits.dropWhile (· ≠ '.') = [] := by
    rw [← List.append_nil digits,
      List.dropWhile_append_of_pos fun c hc => ne_point_of_isDigit (h c hc)]
    rfl
  rw [decimalValue, hfilter, hdrop, digitsValue, digitsValueFrom_eq_ofDigitChars h]
  simp

/-- With a point it is that of all digits, divided by the places behind the point. -/
theorem decimalValue_point {front back : List Char} (hfront : Digits front)
    (hback : Digits back) :
    decimalValue (front ++ '.' :: back) =
      digitsValue (front ++ back) / (10 ^ back.length : Nat) := by
  have hfilter : (front ++ '.' :: back).filter Char.isDigit = front ++ back := by
    rw [List.filter_append, List.filter_eq_self.mpr hfront, List.filter_cons_of_neg (by decide),
      List.filter_eq_self.mpr hback]
  have hdrop : (front ++ '.' :: back).dropWhile (· ≠ '.') = '.' :: back := by
    rw [List.dropWhile_append_of_pos fun c hc => ne_point_of_isDigit (hfront c hc)]
    simp
  rw [decimalValue, hfilter, hdrop, digitsValue,
    digitsValueFrom_eq_ofDigitChars (digits_append hfront hback)]
  simp

/-- A run without a second point can be read. -/
theorem Numeral.exists_read?_iff {run : List Char} :
    (∃ numeral, read? run = some numeral) ↔ run.count '.' ≤ 1 := by
  rw [← Option.ne_none_iff_exists', Ne, read?_eq_none_iff]
  omega

/-- **A numeral is brought into the format exactly rounded**, whatever the number of its
digits. -/
theorem Numeral.isNearest_toBinary64 {run : List Char} {numeral : Numeral}
    (hparts : ∀ c ∈ run, c.isDigit = true ∨ c = '.') (h : read? run = some numeral) :
    Binary64.IsNearest (decimalValue run) numeral.toBinary64 := by
  have hpoints := exists_read?_iff.mp ⟨_, h⟩
  rcases digits_or_point hparts hpoints with ⟨-, hdigits⟩ | ⟨front, back, -, rfl, hfront, hback⟩
  · rw [read?_digits hdigits, Option.some.injEq] at h
    have hwhole : (digitsValue run : ℚ) = digitsValue run / (1 : Nat) := by simp
    rw [← h, decimalValue_digits hdigits, toBinary64, hwhole]
    exact (Binary64.isNearest_iff Nat.one_pos).mpr rfl
  · rw [read?_point hfront hback, Option.some.injEq] at h
    rw [← h, decimalValue_point hfront hback, toBinary64]
    exact (Binary64.isNearest_iff (Nat.pow_pos (by decide))).mpr rfl

end Number

end SochoScript
