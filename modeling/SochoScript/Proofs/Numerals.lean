import SochoScript.Token.Lexeme

/-!
# Numerals that are read again

A number that was read from a source is written into the program as plain digits.
Reading these digits gives a number that is written in the same way: a whole
number has one written form, and the digits of a binary number are taken from a
decimal that reads back.  Only the first writing may lose something, as in
`1.50`, which is written `1.5`.

* `digitsValue_digitsOf`: the digits of a number have its value.
* `Decimal.strip_nearest`: dropping the zeros at the end changes nothing.
* `read?_positional`: digits with a point mean the decimal they were laid out for.
* `Magnitude.exists_read?_plain`: **what was written once is written so again.**
-/

namespace SochoScript

namespace Number

-- A power of a natural number is the repeated product, whatever else is in scope.
attribute [local instance (2000)] instPowNat

/-! ### Digits -/

/-- All characters of a text are digits. -/
def Digits (text : List Char) : Prop := ∀ c ∈ text, c.isDigit = true

/-- Digits behind digits are digits. -/
theorem digits_append {left right : List Char} (hleft : Digits left) (hright : Digits right) :
    Digits (left ++ right) := by
  intro c hc
  rcases List.mem_append.mp hc with hc | hc
  · exact hleft c hc
  · exact hright c hc

/-- Zeros are digits. -/
theorem digits_replicate_zero (n : Nat) : Digits (List.replicate n '0') := by
  intro c hc
  rw [List.eq_of_mem_replicate hc]
  rfl

/-- The value of digits is the one that the library reads. -/
theorem digitsValueFrom_eq_ofDigitChars {digits : List Char} (h : Digits digits) (start : Nat) :
    digitsValueFrom start digits = Nat.ofDigitChars 10 digits start := by
  induction digits generalizing start with
  | nil => rfl
  | cons c digits ih =>
      have hc : digitValue c = c.toNat - '0'.toNat := if_pos (h c List.mem_cons_self)
      have hrest : Digits digits := fun d hd => h d (List.mem_cons_of_mem c hd)
      rw [Nat.ofDigitChars_cons, ← hc]
      exact ih hrest _

/-- A number is written with digits. -/
theorem digits_digitsOf (n : Nat) : Digits (digitsOf n) := by
  intro c hc
  exact Nat.isDigit_of_mem_toDigits (by decide) (by decide) hc

/-- It has at least one. -/
theorem digitsOf_ne_nil (n : Nat) : digitsOf n ≠ [] := Nat.toDigits_ne_nil

/-- The digits of a number have its value. -/
theorem digitsValue_digitsOf (n : Nat) : digitsValue (digitsOf n) = n := by
  rw [digitsValue, digitsValueFrom_eq_ofDigitChars (digits_digitsOf n)]
  exact Nat.ofDigitChars_ten_toDigits

/-- Zeros have the value zero. -/
theorem digitsValue_replicate_zero (n : Nat) : digitsValue (List.replicate n '0') = 0 := by
  rw [digitsValue, digitsValueFrom_eq_ofDigitChars (digits_replicate_zero n),
    Nat.ofDigitChars_replicate_zero, Nat.mul_zero]

/-- A power of ten adds zeros to the digits. -/
theorem digitsOf_mul_pow {n : Nat} (h : 0 < n) (zeros : Nat) :
    digitsOf (n * 10 ^ zeros) = digitsOf n ++ List.replicate zeros '0' := by
  induction zeros with
  | zero => simp
  | succ zeros ih =>
      have hpos : 0 < n * 10 ^ zeros := Nat.mul_pos h (Nat.pow_pos (by decide))
      have hnext : n * 10 ^ (zeros + 1) = 10 * (n * 10 ^ zeros) + 0 := by
        rw [Nat.pow_succ, Nat.add_zero, ← Nat.mul_assoc, Nat.mul_comm]
      have happend := Nat.toDigits_append_toDigits (b := 10) (d := 0) (by decide) hpos (by decide)
      rw [digitsOf, hnext, ← happend, ← digitsOf, ih, Nat.toDigits_zero, List.append_assoc,
        ← List.replicate_succ']

/-! ### Decimals -/

/-- Only the rounded units decide what is nearest. -/
theorem Binary64.nearest_congr {negative : Bool} {num den num' den' : Nat}
    (h : roundUnits num den = roundUnits num' den') :
    Binary64.nearest negative num den = Binary64.nearest negative num' den' := by
  unfold Binary64.nearest
  simp only [h]

/-- Dropping the zeros at the end of a decimal changes nothing. -/
theorem Decimal.strip_nearest (negative : Bool) (d : Decimal) :
    d.strip.nearest negative = d.nearest negative := by
  fun_induction Decimal.strip d with
  | case1 d hzero =>
      have hpow : 0 < 10 ^ (-d.exponent).toNat := Nat.pow_pos (by decide)
      have hround := roundUnits_mul_right hpow 0 1
      rw [Nat.zero_mul, Nat.one_mul] at hround
      apply Binary64.nearest_congr
      simp only [num, den, hzero, Nat.zero_mul]
      exact hround.symm
  | case2 d hzero hten ih =>
      rw [ih]
      apply Binary64.nearest_congr
      have hdigits : d.digits = d.digits / 10 * 10 := by omega
      by_cases hexp : 0 ≤ d.exponent
      · have hnum : d.exponent.toNat + 1 = (d.exponent + 1).toNat := by omega
        have hden : (-d.exponent).toNat = 0 := by omega
        have hden' : (-(d.exponent + 1)).toNat = 0 := by omega
        simp only [num, den, hden, hden', ← hnum]
        rw [Nat.pow_succ', ← Nat.mul_assoc, ← hdigits]
      · have hnum : d.exponent.toNat = 0 := by omega
        have hnum' : (d.exponent + 1).toNat = 0 := by omega
        have hden : (-d.exponent).toNat = (-(d.exponent + 1)).toNat + 1 := by omega
        have hround := roundUnits_mul_right (show 0 < 10 by decide) (d.digits / 10)
          (10 ^ (-(d.exponent + 1)).toNat)
        simp only [num, den, hnum, hnum', hden, Nat.pow_zero, Nat.mul_one]
        rw [← hround, ← hdigits, Nat.pow_succ]
  | case3 d hzero hten => rfl

/-- A decimal without zeros at its end is nothing only with the exponent zero. -/
theorem Decimal.exponent_strip_eq_zero {d : Decimal} (h : d.strip.digits = 0) :
    d.strip.exponent = 0 := by
  fun_induction Decimal.strip d with
  | case1 d hzero => rfl
  | case2 d hzero hten ih => exact ih h
  | case3 d hzero hten => exact absurd h hzero

/-! ### Reading digits -/

/-- No digit is a point. -/
theorem ne_point_of_isDigit {c : Char} (h : c.isDigit = true) : decide (c ≠ '.') = true := by
  have hne : c ≠ '.' := by
    intro he
    subst he
    exact absurd h (by decide)
  simpa using hne

/-- Digits mean a whole number. -/
theorem read?_digits {digits : List Char} (h : Digits digits) :
    Numeral.read? digits = some (.whole (digitsValue digits)) := by
  have hpoint : ∀ c ∈ digits, decide (c ≠ '.') = true :=
    fun c hc => ne_point_of_isDigit (h c hc)
  have htake : digits.takeWhile (· ≠ '.') = digits := by
    rw [← List.append_nil digits, List.takeWhile_append_of_pos hpoint]
    rfl
  have hdrop : digits.dropWhile (· ≠ '.') = [] := by
    rw [← List.append_nil digits, List.dropWhile_append_of_pos hpoint]
    rfl
  simp only [Numeral.read?, htake, hdrop]

/-- Digits with one point mean a number with decimal places. -/
theorem read?_point {front back : List Char} (hfront : Digits front) (hback : Digits back) :
    Numeral.read? (front ++ '.' :: back) =
      some (.fractional (digitsValue (front ++ back)) back.length) := by
  have hpoint : ∀ c ∈ front, decide (c ≠ '.') = true :=
    fun c hc => ne_point_of_isDigit (hfront c hc)
  have htake : (front ++ '.' :: back).takeWhile (· ≠ '.') = front := by
    rw [List.takeWhile_append_of_pos hpoint]
    simp
  have hdrop : (front ++ '.' :: back).dropWhile (· ≠ '.') = '.' :: back := by
    rw [List.dropWhile_append_of_pos hpoint]
    simp
  have hnone : '.' ∉ back := fun hmem => absurd (hback '.' hmem) (by decide)
  simp only [Numeral.read?, htake, hdrop, if_neg hnone]

/-- Without decimal places, the digits are followed by zeros. -/
theorem positional_of_nonneg (digits : List Char) {exponent : Int} (h : 0 ≤ exponent) :
    positional digits exponent = digits ++ List.replicate exponent.toNat '0' := by
  simp [positional, h]

/-- With decimal places there is a point.  The digits around it are those that were
given, with zeros in front if there are too few, and as many of them stand behind
the point as there are places. -/
theorem positional_of_neg {digits : List Char} (hdigits : Digits digits) (hne : digits ≠ [])
    {exponent : Int} (h : exponent < 0) :
    ∃ front back, positional digits exponent = front ++ '.' :: back ∧ front ≠ [] ∧
      Digits front ∧ Digits back ∧ digitsValue (front ++ back) = digitsValue digits ∧
      back.length = (-exponent).toNat := by
  have hpos : 0 < digits.length := List.length_pos_iff.mpr hne
  have hexp : ¬ 0 ≤ exponent := by omega
  generalize hwhole : (digits.length : Int) + exponent = whole
  by_cases hinside : 0 < whole
  · refine ⟨digits.take whole.toNat, digits.drop whole.toNat, ?_, ?_, ?_, ?_, ?_, ?_⟩
    · simp [positional, hexp, hwhole, hinside]
    · rw [← List.length_pos_iff, List.length_take]
      omega
    · exact fun c hc => hdigits c (List.mem_of_mem_take hc)
    · exact fun c hc => hdigits c (List.mem_of_mem_drop hc)
    · rw [List.take_append_drop]
    · rw [List.length_drop]
      omega
  · refine ⟨['0'], List.replicate (-whole).toNat '0' ++ digits, ?_, by simp, ?_, ?_, ?_, ?_⟩
    · simp [positional, hexp, hwhole, hinside]
    · exact digits_replicate_zero 1
    · exact digits_append (digits_replicate_zero _) hdigits
    · have hzero : digitsValue ['0'] = 0 := rfl
      rw [digitsValue_append, digitsValue_append, digitsValue_replicate_zero, hzero]
      simp
    · rw [List.length_append, List.length_replicate]
      omega

/-- Digits with a point mean the decimal they were laid out for. -/
theorem read?_positional {digits : List Char} (hdigits : Digits digits) (hne : digits ≠ [])
    (exponent : Int) :
    ∃ numeral, Numeral.read? (positional digits exponent) = some numeral ∧
      numeral.toBinary64 = (Decimal.mk (digitsValue digits) exponent).nearest false ∧
      ∀ n, numeral = .whole n → 0 ≤ exponent ∧ n = digitsValue digits * 10 ^ exponent.toNat := by
  by_cases hexp : 0 ≤ exponent
  · have hvalue : digitsValue (digits ++ List.replicate exponent.toNat '0') =
        digitsValue digits * 10 ^ exponent.toNat := by
      rw [digitsValue_append, digitsValue_replicate_zero, List.length_replicate, Nat.add_zero]
    have hden : (-exponent).toNat = 0 := by omega
    rw [positional_of_nonneg digits hexp]
    refine ⟨_, read?_digits (digits_append hdigits (digits_replicate_zero _)), ?_, ?_⟩
    · simp only [Numeral.toBinary64, Decimal.nearest, Decimal.num, Decimal.den, hvalue, hden,
        Nat.pow_zero]
    · intro n hn
      cases hn
      exact ⟨hexp, hvalue⟩
  · have hneg : exponent < 0 := by omega
    have hnum : exponent.toNat = 0 := by omega
    obtain ⟨front, back, hsplit, -, hfront, hback, hvalue, hplaces⟩ :=
      positional_of_neg hdigits hne hneg
    rw [hsplit]
    refine ⟨_, read?_point hfront hback, ?_, fun n hn => by cases hn⟩
    simp only [Numeral.toBinary64, Decimal.nearest, Decimal.num, Decimal.den, hnum, hplaces,
      hvalue, Nat.pow_zero, Nat.mul_one]

/-- Digits with a point begin with a digit and hold nothing else. -/
theorem positional_parts {digits : List Char} (hdigits : Digits digits) (hne : digits ≠ [])
    (exponent : Int) :
    (∃ c more, positional digits exponent = c :: more ∧ c.isDigit = true) ∧
      ∀ c ∈ positional digits exponent, c.isDigit = true ∨ c = '.' := by
  by_cases hexp : 0 ≤ exponent
  · obtain ⟨first, others, rfl⟩ := List.exists_cons_of_ne_nil hne
    rw [positional_of_nonneg _ hexp]
    refine ⟨⟨first, _, rfl, hdigits first List.mem_cons_self⟩, ?_⟩
    intro c hc
    exact .inl (digits_append hdigits (digits_replicate_zero _) c hc)
  · obtain ⟨front, back, hsplit, hfrontNe, hfront, hback, -, -⟩ :=
      positional_of_neg hdigits hne (by omega : exponent < 0)
    obtain ⟨first, others, rfl⟩ := List.exists_cons_of_ne_nil hfrontNe
    rw [hsplit]
    refine ⟨⟨first, _, rfl, hfront first List.mem_cons_self⟩, ?_⟩
    intro c hc
    rcases List.mem_append.mp hc with hc | hc
    · exact .inl (hfront c hc)
    · rcases List.mem_cons.mp hc with rfl | hc
      · exact .inr rfl
      · exact .inl (hback c hc)

/-! ### Numbers that are written -/

/-- The written form of a whole number. -/
theorem display_integer (n : Nat) : (Value.integer n).display = String.ofList (digitsOf n) := by
  have hrepr : (Value.integer n).display = n.repr := by
    simp [Value.display, Int.repr_eq_if]
  rw [hrepr, Nat.repr_eq_ofList_toDigits, digitsOf]

/-- **What was written once is written so again.**  The plain digits of a magnitude
are read, they mean that magnitude, and the number that is read is written with the
same digits. -/
theorem Magnitude.exists_read?_plain (m : Magnitude) :
    ∃ numeral, Numeral.read? m.plain = some numeral ∧ numeral.toBinary64 = .finite false m ∧
      (Lexeme.numeralValue numeral).2.display = String.ofList m.plain := by
  obtain ⟨numeral, hread, hnearest, hwhole⟩ :=
    read?_positional (digits_digitsOf _) (digitsOf_ne_nil _) (m.shortest .up).strip.exponent
  have heta : ∀ d : Decimal, Decimal.mk d.digits d.exponent = d := fun d => rfl
  have hback : numeral.toBinary64 = .finite false m := by
    rw [hnearest, digitsValue_digitsOf, heta, Decimal.strip_nearest, m.shortest_nearest]
  have hfloat : (Value.float numeral.toBinary64).display = String.ofList m.plain := by
    simp [hback, Value.display, Binary64.plain, signed]
  refine ⟨numeral, hread, hback, ?_⟩
  cases numeral with
  | fractional digits places => exact hfloat
  | whole n =>
      obtain ⟨hexp, hn⟩ := hwhole n rfl
      by_cases hlimit : n < Lexeme.integerLimit
      · have hvalue : (Lexeme.numeralValue (.whole n)).2 = .integer n := by
          simp [Lexeme.numeralValue, hlimit]
        -- The digits are those of the whole number, with its zeros at the end.
        rw [hvalue, display_integer, hn, digitsValue_digitsOf, Magnitude.plain,
          positional_of_nonneg _ hexp]
        by_cases hzero : (m.shortest .up).strip.digits = 0
        · rw [hzero, Decimal.exponent_strip_eq_zero hzero]
          simp
        · rw [digitsOf_mul_pow (Nat.pos_of_ne_zero hzero)]
      · have hvalue : (Lexeme.numeralValue (.whole n)).2 =
            .float (Numeral.whole n).toBinary64 := by
          simp [Lexeme.numeralValue, hlimit]
        rw [hvalue]
        exact hfloat

end Number

end SochoScript
