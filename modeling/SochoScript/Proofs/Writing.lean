import SochoScript.Proofs.Documents

/-!
# Writing JSON

What is written stands for the tree that it was written from, so that nothing of a tree is
lost in its written form.

The writer adds to a text that is there already, at some level of indentation; so its
outcome is described as that text with a written form of the tree behind it.  Of the style
nothing matters but that it puts space between the signs, and how it writes numbers.

Numbers need an argument of their own.  The digits of a whole number have no zero in
front, and a binary number is laid out in one of three ways, each of which stands for the
decimal that it was laid out for; that decimal reads back.

To tell trees apart, less is enough.  A `Lawful` style may lay binary numbers out as it
likes, if it uses the signs of numbers, writes a point or an exponent, and writes different
numbers differently; what it writes then stands for nothing but its tree, though it need
not be what a reader of the data format makes of it.

* `isNumber_scientific`: the written form of a binary number stands for it.
* `reads_writeOn`: what the writer adds is a written form of its tree.
* `isDocument_pretty`, `isDocument_compact`: **what is written can be read.**
* `writeOn_injective`: **different trees are written differently**, in every lawful style.
* `lawful_pretty`: the style of data files is one.
-/

namespace SochoScript

-- A power of a natural number is the repeated product, whatever else is in scope.
attribute [local instance (2000)] instPowNat

namespace Number

/-- The digits of a number that is not zero do not begin with one. -/
theorem head_digitsOf {n : Nat} (h : 0 < n) : (digitsOf n).head? ≠ some '0' := by
  induction n using Nat.strongRecOn with
  | ind n ih =>
      by_cases hsmall : n < 10
      · have hdigit : ∀ k < 10, 0 < k → Nat.digitChar k ≠ '0' := by decide
        rw [digitsOf, Nat.toDigits_of_lt_base hsmall]
        simpa using hdigit n hsmall h
      · have hfront : 0 < n / 10 := by omega
        have hsplit : 10 * (n / 10) + n % 10 = n := Nat.div_add_mod n 10
        have happend := Nat.toDigits_append_toDigits (b := 10) (d := n % 10) (by decide) hfront
          (by omega)
        rw [hsplit] at happend
        rw [digitsOf, ← happend, List.head?_append_of_ne_nil _ Nat.toDigits_ne_nil]
        exact ih (n / 10) (by omega) hfront

/-- Digits with a point between them begin with a zero only where that stands alone. -/
theorem positional_of_head_zero {digits : List Char} (hdigits : digits.head? ≠ some '0')
    {exponent : Int} (hneg : exponent < 0)
    (hhead : (positional digits exponent).head? = some '0') :
    ∃ behind, positional digits exponent = '0' :: '.' :: behind := by
  have hexp : ¬ 0 ≤ exponent := by omega
  generalize hwhole : (digits.length : Int) + exponent = whole
  by_cases hinside : 0 < whole
  · have hlayout : positional digits exponent =
        digits.take whole.toNat ++ '.' :: digits.drop whole.toNat := by
      simp [positional, hexp, hwhole, hinside]
    have hne : digits.take whole.toNat ≠ [] := by
      rw [← List.length_pos_iff, List.length_take]
      omega
    rw [hlayout, List.head?_append_of_ne_nil _ hne, List.head?_take, if_neg (by omega)] at hhead
    exact absurd hhead hdigits
  · refine ⟨List.replicate (-whole).toNat '0' ++ digits, ?_⟩
    simp [positional, hexp, hwhole, hinside]

/-- A point with a zero behind it changes nothing. -/
theorem Decimal.nearest_point_zero (negative : Bool) (digits : Nat) {exponent : Int}
    (h : 0 ≤ exponent) :
    (Decimal.mk (digits * 10 ^ exponent.toNat * 10) (-1)).nearest negative =
      (Decimal.mk digits exponent).nearest negative := by
  have hden : (-exponent).toNat = 0 := by omega
  have hnum : (-1 : Int).toNat = 0 := rfl
  have hone : (- -1 : Int).toNat = 1 := rfl
  have hround := roundUnits_mul_right (show 0 < 10 by decide) (digits * 10 ^ exponent.toNat) 1
  apply Binary64.nearest_congr
  simp only [num, den, hden, hnum, hone, Nat.pow_zero, Nat.pow_one, Nat.mul_one]
  rw [← hround, Nat.one_mul]

end Number

namespace Json

open Number (Digits digitsOf digitsValue signed positional exponential Decimal Magnitude)

/-! ### Strings -/

/-- A control character is the value of its four digits. -/
theorem hexUnit?_hexDigit :
    ∀ n < 0x20, hexUnit? '0' '0' (hexDigit (n / 16)) (hexDigit n) = some n := by
  decide

/-- An escaped character spells the character. -/
theorem spells_escape (c : Char) : Spells (escape c) c := by
  unfold escape
  -- the characters that have an escape of one letter are asked for first
  iterate 7
    split
    · next h => exact .short (by subst h; decide)
  split
  · next h => exact .unit (hexUnit?_hexDigit c.toNat h)
  · next hquote hslash _ _ _ _ _ hcontrol => exact .plain (by omega) hquote hslash

/-- A text is spelled character by character. -/
theorem spellsAll_flatMap (text : List Char) : SpellsAll (text.flatMap escape) text := by
  induction text with
  | nil => exact .nil
  | cons c text ih => exact .cons (spells_escape c) ih

/-- A string between its quotes stands for itself. -/
theorem isString_quoted (text : String) : IsString (quoted text).toList text :=
  ⟨text.toList.flatMap escape, by simp [quoted], spellsAll_flatMap text.toList⟩

/-! ### Numbers -/

/-- The digits of a number are written without a zero in front. -/
theorem isWhole_digitsOf (n : Nat) : IsWhole (digitsOf n) where
  digits := Number.digits_digitsOf n
  nonempty := Number.digitsOf_ne_nil n
  canonical := by
    intro hhead
    cases n with
    | zero => rfl
    | succ n => exact absurd hhead (Number.head_digitsOf (Nat.succ_pos n))

/-- An integer is written as a number. -/
theorem isNumber_toString (n : Int) : IsNumber (toString n).toList (.integer n) := by
  have hrepr : (toString n).toList = signed (decide (n < 0)) (digitsOf n.natAbs) := by
    cases n with
    | ofNat k => simp [Int.repr_eq_if, signed, digitsOf, Nat.repr_eq_ofList_toDigits]
    | negSucc k => simp [Int.repr_eq_if, signed, digitsOf, Nat.repr_eq_ofList_toDigits]
  have hvalue : n = if decide (n < 0) = true then -(digitsValue (digitsOf n.natAbs) : Int)
      else digitsValue (digitsOf n.natAbs) := by
    rw [Number.digitsValue_digitsOf]
    by_cases hneg : n < 0
    · rw [if_pos (decide_eq_true hneg)]
      omega
    · rw [if_neg (by simpa using hneg)]
      omega
  have h := @IsNumber.integer (decide (n < 0)) _ (isWhole_digitsOf n.natAbs)
  rw [hrepr]
  rwa [← hvalue] at h

/-- The exponent is written with its mark and its sign. -/
theorem isExponent_marked (exponent : Int) :
    IsExponent (if exponent < 0 then 'e' :: '-' :: digitsOf exponent.natAbs
      else 'e' :: '+' :: digitsOf exponent.natAbs) exponent := by
  have hmark : 'e' = 'e' ∨ 'e' = 'E' := .inl rfl
  have hdigits := Number.digits_digitsOf exponent.natAbs
  have hne := Number.digitsOf_ne_nil exponent.natAbs
  have hvalue := Number.digitsValue_digitsOf exponent.natAbs
  by_cases hneg : exponent < 0
  · have hsign : exponent = -(digitsValue (digitsOf exponent.natAbs) : Int) := by omega
    rw [if_pos hneg]
    nth_rewrite 2 [hsign]
    exact .minus hmark hdigits hne
  · have hsign : exponent = digitsValue (digitsOf exponent.natAbs) := by omega
    rw [if_neg hneg]
    nth_rewrite 2 [hsign]
    exact .plus hmark hdigits hne

section

variable {d : Decimal} {m : Magnitude} (hnearest : d.nearest false = .finite false m)
  (negative : Bool)

include hnearest

/-- A number stands for what is nearest to its decimal. -/
theorem isNumber_of_decimal {whole fraction places power : List Char} {exponent : Int}
    (hwhole : IsWhole whole) (hfraction : IsFraction fraction places)
    (hpower : IsExponent power exponent) (hreal : fraction ++ power ≠ [])
    (hdigits : digitsValue (whole ++ places) = d.digits)
    (hexponent : exponent - places.length = d.exponent) :
    IsNumber (signed negative (whole ++ (fraction ++ power))) (.real negative m) := by
  refine .real hwhole hfraction hpower hreal ?_
  rw [hdigits, hexponent]
  exact hnearest

/-- Digits with an exponent stand for the number that they were laid out for. -/
theorem isNumber_exponential :
    IsNumber (signed negative (exponential (digitsOf d.digits)
      ((digitsOf d.digits).length - 1 + d.exponent))) (.real negative m) := by
  have hdigits := Number.digits_digitsOf d.digits
  have hvalue := Number.digitsValue_digitsOf d.digits
  obtain ⟨first, more, hsplit⟩ := List.exists_cons_of_ne_nil (Number.digitsOf_ne_nil d.digits)
  rw [hsplit] at hdigits hvalue ⊢
  obtain ⟨hfirst, hmore⟩ := List.forall_mem_cons.mp hdigits
  have hwhole : IsWhole [first] :=
    ⟨by simpa [Digits] using hfirst, by simp, fun hhead => by simpa using hhead⟩
  generalize hlead : ((first :: more).length : Int) - 1 + d.exponent = lead
  have hpower := isExponent_marked lead
  have hexponent : lead - more.length = d.exponent := by
    rw [List.length_cons] at hlead
    omega
  cases more with
  | nil =>
      have hreal := isNumber_of_decimal hnearest negative hwhole .none hpower
        (by split <;> simp) hvalue hexponent
      exact hreal
  | cons second others =>
      have hreal := isNumber_of_decimal hnearest negative hwhole
        (.point hmore (List.cons_ne_nil _ _)) hpower (by simp) hvalue hexponent
      exact hreal

/-- Digits with a point between them stand for the number that they were laid out for. -/
theorem isNumber_positional_of_neg (hpos : 0 < d.digits) (hneg : d.exponent < 0) :
    IsNumber (signed negative (positional (digitsOf d.digits) d.exponent)) (.real negative m) := by
  obtain ⟨front, back, hsplit, hne, hfront, hback, hvalue, hplaces⟩ :=
    Number.positional_of_neg (Number.digits_digitsOf d.digits) (Number.digitsOf_ne_nil _) hneg
  have hbackNe : back ≠ [] := by
    rw [← List.length_pos_iff]
    omega
  have hwhole : IsWhole front := by
    refine ⟨hfront, hne, fun hhead => ?_⟩
    have hzero : (positional (digitsOf d.digits) d.exponent).head? = some '0' := by
      rw [hsplit, List.head?_append_of_ne_nil _ hne, hhead]
    obtain ⟨behind, hpoint⟩ := Number.positional_of_head_zero (Number.head_digitsOf hpos) hneg hzero
    rw [hsplit] at hpoint
    have halone : Digits ['0'] := Number.digits_replicate_zero 1
    have hstop : ∀ rest, ∀ c ∈ ('.' :: rest).head?, c.isDigit = false := by simp
    exact (@Text.append_inj_of_all Char.isDigit front ['0'] _ _ hfront halone (hstop _) (hstop _)
      hpoint).1
  rw [hsplit]
  have hreal := isNumber_of_decimal hnearest negative hwhole (.point hback hbackNe) .none
    (by simp) (hvalue.trans (Number.digitsValue_digitsOf _)) (by omega)
  rwa [List.append_nil] at hreal

/-- Digits with a point and a zero behind them stand for the number that they were laid
out for. -/
theorem isNumber_positional_of_nonneg (hexp : 0 ≤ d.exponent)
    (hzero : d.digits = 0 → d.exponent = 0) :
    IsNumber (signed negative (positional (digitsOf d.digits) d.exponent ++ ['.', '0']))
      (.real negative m) := by
  have hwhole : IsWhole (positional (digitsOf d.digits) d.exponent) := by
    rw [Number.positional_of_nonneg _ hexp]
    refine ⟨Number.digits_append (Number.digits_digitsOf _) (Number.digits_replicate_zero _),
      by simp [Number.digitsOf_ne_nil], fun hhead => ?_⟩
    rw [List.head?_append_of_ne_nil _ (Number.digitsOf_ne_nil _)] at hhead
    have hnone : d.digits = 0 := by
      by_contra hpos
      exact Number.head_digitsOf (Nat.pos_of_ne_zero hpos) hhead
    rw [hnone, hzero hnone]
    rfl
  have hvalue : digitsValue (positional (digitsOf d.digits) d.exponent ++ ['0']) =
      d.digits * 10 ^ d.exponent.toNat * 10 := by
    rw [Number.positional_of_nonneg _ hexp, Number.digitsValue_append, Number.digitsValue_append,
      Number.digitsValue_digitsOf, Number.digitsValue_replicate_zero, List.length_replicate]
    rfl
  have hplaces : IsFraction ['.', '0'] ['0'] := .point (Number.digits_replicate_zero 1) (by simp)
  have hreal := @IsNumber.real negative _ _ _ _ _ m hwhole hplaces .none (by simp) (by
    rw [hvalue]
    exact (Decimal.nearest_point_zero false d.digits hexp).trans hnearest)
  rwa [List.append_nil] at hreal

end

/-- **The written form of a binary number stands for it.** -/
theorem isNumber_scientific (negative : Bool) (m : Magnitude) :
    IsNumber (scientific negative m) (.real negative m) := by
  have hzero : ∀ d : Decimal, d.strip.digits = 0 → d.strip.exponent = 0 :=
    fun d => Decimal.exponent_strip_eq_zero
  have hnearest := (Decimal.strip_nearest false _).trans (m.shortest_nearest .toEven)
  simp only [scientific, Magnitude.scientific]
  split
  · exact isNumber_exponential hnearest negative
  split
  · next hexp => exact isNumber_positional_of_nonneg hnearest negative hexp (hzero _)
  · next hneg =>
      refine isNumber_positional_of_neg hnearest negative (Nat.pos_of_ne_zero fun hnone => ?_)
        (by omega)
      have hexp := hzero _ hnone
      omega

/-! ### Trees -/

/-- A style that puts nothing but space between the signs. -/
structure Style.IsSpacing (style : Style) : Prop where
  lineBreak : ∀ depth, Space (style.lineBreak depth).toList
  colon : ∃ before after, style.colon.toList = before ++ ':' :: after ∧ Space before ∧ Space after

/-- Line breaks and indentation are space. -/
theorem isSpacing_pretty : Style.pretty.IsSpacing where
  lineBreak depth := by
    intro c hc
    have hsign : c = '\n' ∨ c = ' ' := by
      simp [Style.pretty, indent] at hc
      tauto
    rcases hsign with rfl | rfl <;> rfl
  colon := ⟨[], [' '], rfl, space_nil, by simp [Lexeme.All, isSpace]⟩

/-- So is nothing at all. -/
theorem isSpacing_compact : Style.compact.IsSpacing where
  lineBreak _ := space_nil
  colon := ⟨[], [], rfl, space_nil, space_nil⟩

/-- A style that puts space between the signs and writes numbers as `N` says. -/
structure Style.Writes (style : Style) (N : List Char → Json → Prop) : Prop
    extends Style.IsSpacing style where
  integer : ∀ n : Int, N (toString n).toList (.integer n)
  real : ∀ negative m, N (style.real negative m) (.real negative m)

/-- The style of data files writes numbers by the rules of the format. -/
theorem writes_pretty : Style.pretty.Writes IsNumber where
  toIsSpacing := isSpacing_pretty
  integer := isNumber_toString
  real := isNumber_scientific

/-- So does the style without space. -/
theorem writes_compact : Style.compact.Writes IsNumber where
  toIsSpacing := isSpacing_compact
  integer := isNumber_toString
  real := isNumber_scientific

/-- What the writer adds to a text is a written form of the tree. -/
def Written (style : Style) (N : List Char → Json → Prop) (tree : Json) : Prop :=
  ∀ depth out, ∃ text, Reads N text tree ∧
    (writeOn style depth out tree).toList = out.toList ++ text

section

variable {style : Style} {N : List Char → Json → Prop} (hstyle : style.Writes N)

include hstyle

/-- The items behind the first are written up to the end of their array. -/
theorem later_writeItemsOn {items : List Json} (hitems : ∀ item ∈ items, Written style N item)
    (depth : Nat) (out : String) :
    ∃ text, Later (Reads N) ']' text items ∧
      (writeItemsOn style depth out items ++ style.lineBreak depth ++ "]").toList =
        out.toList ++ text := by
  induction items generalizing out with
  | nil => exact ⟨_, .close (hstyle.lineBreak depth), by simp [writeItemsOn]⟩
  | cons item rest ih =>
      obtain ⟨hitem, hrest⟩ := List.forall_mem_cons.mp hitems
      obtain ⟨text, hreads, htext⟩ :=
        hitem (depth + 1) (out ++ "," ++ style.lineBreak (depth + 1))
      obtain ⟨more, hlater, hmore⟩ := ih hrest
        (writeOn style (depth + 1) (out ++ "," ++ style.lineBreak (depth + 1)) item)
      refine ⟨_, .part space_nil (hstyle.lineBreak (depth + 1)) hreads hlater, ?_⟩
      rw [writeItemsOn, hmore, htext]
      simp

/-- A member is written with a colon behind its name. -/
theorem isMember_writeOn {value : Json} (hvalue : Written style N value) (name : String)
    (depth : Nat) (out : String) :
    ∃ text, IsMember (Reads N) text (name, value) ∧
      (writeOn style depth (out ++ quoted name ++ style.colon) value).toList =
        out.toList ++ text := by
  obtain ⟨before, after, hcolon, hbefore, hafter⟩ := hstyle.colon
  obtain ⟨text, hreads, htext⟩ := hvalue depth (out ++ quoted name ++ style.colon)
  refine ⟨_, .mk (isString_quoted name) hbefore hafter hreads, ?_⟩
  rw [htext]
  simp [hcolon]

/-- The members behind the first are written up to the end of their object. -/
theorem later_writeMembersOn {members : List (String × Json)}
    (hmembers : ∀ member ∈ members, Written style N member.2) (depth : Nat) (out : String) :
    ∃ text, Later (IsMember (Reads N)) '\x7d' text members ∧
      (writeMembersOn style depth out members ++ style.lineBreak depth ++ "\x7d").toList =
        out.toList ++ text := by
  induction members generalizing out with
  | nil => exact ⟨_, .close (hstyle.lineBreak depth), by simp [writeMembersOn]⟩
  | cons member rest ih =>
      obtain ⟨name, value⟩ := member
      obtain ⟨hvalue, hrest⟩ := List.forall_mem_cons.mp hmembers
      obtain ⟨text, hmember, htext⟩ := isMember_writeOn hstyle hvalue name (depth + 1)
        (out ++ "," ++ style.lineBreak (depth + 1))
      obtain ⟨more, hlater, hmore⟩ := ih hrest (writeOn style (depth + 1)
        (out ++ "," ++ style.lineBreak (depth + 1) ++ quoted name ++ style.colon) value)
      refine ⟨_, .part space_nil (hstyle.lineBreak (depth + 1)) hmember hlater, ?_⟩
      rw [writeMembersOn, hmore, htext]
      simp

/-- A tree is written, if everything in it is. -/
theorem written_of_children {tree : Json} (h : ∀ child ∈ tree.children, Written style N child) :
    Written style N tree := by
  intro depth out
  cases tree with
  | null => exact ⟨_, .null, by simp [writeOn]⟩
  | bool value =>
      cases value
      · exact ⟨_, .false, by simp [writeOn]⟩
      · exact ⟨_, .true, by simp [writeOn]⟩
  | integer value => exact ⟨_, .number (hstyle.integer value), by simp [writeOn]⟩
  | real negative size =>
      exact ⟨_, .number (hstyle.real negative size), by simp [writeOn]⟩
  | string value => exact ⟨_, .string (isString_quoted value), by simp [writeOn]⟩
  | array items =>
      cases items with
      | nil => exact ⟨_, .array (.none space_nil), by simp [writeOn]⟩
      | cons item rest =>
          obtain ⟨hitem, hrest⟩ := List.forall_mem_cons.mp h
          obtain ⟨text, hreads, htext⟩ :=
            hitem (depth + 1) (out ++ "[" ++ style.lineBreak (depth + 1))
          obtain ⟨more, hlater, hmore⟩ := later_writeItemsOn hstyle hrest depth
            (writeOn style (depth + 1) (out ++ "[" ++ style.lineBreak (depth + 1)) item)
          refine ⟨_, .array (.some (hstyle.lineBreak (depth + 1)) hreads hlater), ?_⟩
          rw [writeOn, hmore, htext]
          simp
  | object members =>
      cases members with
      | nil => exact ⟨_, .object (.none space_nil), by simp [writeOn]⟩
      | cons member rest =>
          obtain ⟨name, value⟩ := member
          have hmembers : ∀ member ∈ (name, value) :: rest, Written style N member.2 :=
            fun member hmember => h member.2 (List.mem_map_of_mem hmember)
          obtain ⟨hvalue, hrest⟩ := List.forall_mem_cons.mp hmembers
          obtain ⟨text, hmember, htext⟩ := isMember_writeOn hstyle hvalue name (depth + 1)
            (out ++ "\x7b" ++ style.lineBreak (depth + 1))
          obtain ⟨more, hlater, hmore⟩ := later_writeMembersOn hstyle hrest depth
            (writeOn style (depth + 1)
              (out ++ "\x7b" ++ style.lineBreak (depth + 1) ++ quoted name ++ style.colon) value)
          refine ⟨_, .object (.some (hstyle.lineBreak (depth + 1)) hmember hlater), ?_⟩
          rw [writeOn, hmore, htext]
          simp

/-- **What the writer adds is a written form of its tree.** -/
theorem reads_writeOn (tree : Json) : Written style N tree := by
  induction tree using children_induction with
  | step tree h => exact written_of_children hstyle h

end

/-! ### Documents -/

/-- What is written by the rules of the format can be read. -/
theorem isDocument_writeOn {style : Style} (hstyle : style.Writes IsNumber) (tree : Json) :
    IsDocument (tree.writeOn style 0 "") tree := by
  obtain ⟨text, hreads, htext⟩ := reads_writeOn hstyle tree 0 ""
  exact ⟨[], text, [], by simpa using htext, space_nil, space_nil, hreads⟩

/-- **What is written with every item on a line of its own can be read.** -/
theorem isDocument_pretty (tree : Json) : IsDocument tree.pretty tree :=
  isDocument_writeOn writes_pretty tree

/-- **What is written without space can be read.** -/
theorem isDocument_compact (tree : Json) : IsDocument tree.compact tree :=
  isDocument_writeOn writes_compact tree

/-! ### Numbers in any layout -/

/-- A style that puts space between the signs, and whose binary numbers are told from
integers and from each other. -/
structure Style.Lawful (style : Style) : Prop extends Style.IsSpacing style where
  /-- A binary number has no other signs than those of numbers. -/
  signs : ∀ negative m, Lexeme.All isNumberSign (style.real negative m)
  /-- It begins with a digit or a minus. -/
  begins : ∀ negative m, ∃ c more, style.real negative m = c :: more ∧
    (c.isDigit = true ∨ c = '-')
  /-- It has a point or an exponent. -/
  marked : ∀ negative m, ∃ c ∈ style.real negative m, c = '.' ∨ c = 'e' ∨ c = 'E'
  /-- Different numbers are written differently. -/
  injective : ∀ {negative negative' : Bool} {m m' : Magnitude},
    style.real negative m = style.real negative' m' → negative = negative' ∧ m = m'

/-- The numbers as a style writes them. -/
inductive Style.IsNumeral (style : Style) : List Char → Json → Prop
  | integer (n : Int) : IsNumeral style (toString n).toList (.integer n)
  | real (negative : Bool) (m : Magnitude) :
      IsNumeral style (style.real negative m) (.real negative m)

/-- An integer has neither a point nor an exponent. -/
theorem IsNumber.not_marked {text : List Char} {n : Int} (h : IsNumber text (.integer n)) :
    ∀ c ∈ text, ¬ (c = '.' ∨ c = 'e' ∨ c = 'E') := by
  have hdigits : ∀ {digits : List Char}, Digits digits →
      ∀ c ∈ digits, ¬ (c = '.' ∨ c = 'e' ∨ c = 'E') := by
    intro digits h c hc hmark
    have hdigit := h c hc
    rcases hmark with rfl | rfl | rfl <;> cases hdigit
  cases h with
  | @integer negative whole hwhole =>
      cases negative
      · exact hdigits hwhole.digits
      · exact List.forall_mem_cons.mpr ⟨by decide, hdigits hwhole.digits⟩

/-- A number that is no integer has a point or an exponent. -/
theorem IsNumber.exists_mark {text : List Char} {negative : Bool} {m : Magnitude}
    (h : IsNumber text (.real negative m)) : ∃ c ∈ text, c = '.' ∨ c = 'e' ∨ c = 'E' := by
  cases h with
  | @real _ whole fraction _ power _ _ _ hfraction hpower hreal _ =>
      have htail : ∃ c ∈ fraction ++ power, c = '.' ∨ c = 'e' ∨ c = 'E' := by
        cases hfraction with
        | point => exact ⟨'.', by simp, .inl rfl⟩
        | none =>
            obtain ⟨c, more, rfl⟩ := List.exists_cons_of_ne_nil hreal
            exact ⟨c, by simp, .inr (hpower.head c rfl)⟩
      obtain ⟨c, hc, hmark⟩ := htail
      refine ⟨c, ?_, hmark⟩
      have hmem : c ∈ whole ++ (fraction ++ power) := List.mem_append_right whole hc
      cases negative
      · exact hmem
      · exact List.mem_cons_of_mem '-' hmem

/-- In a lawful style no integer is written like a binary number. -/
theorem Style.Lawful.toString_ne_real {style : Style} (h : style.Lawful) (n : Int)
    (negative : Bool) (m : Magnitude) : (toString n).toList ≠ style.real negative m := by
  intro hsame
  obtain ⟨c, hc, hmark⟩ := h.marked negative m
  exact (isNumber_toString n).not_marked c (hsame ▸ hc) hmark

/-- The numbers of a lawful style can be told. -/
theorem Style.Lawful.tellsNumbers {style : Style} (h : style.Lawful) :
    TellsNumbers style.IsNumeral where
  signs htext := by
    cases htext with
    | integer n => exact (isNumber_toString n).all_isNumberSign
    | real negative m => exact h.signs negative m
  begins htext := by
    cases htext with
    | integer n => exact tellsNumbers_isNumber.begins (isNumber_toString n)
    | real negative m =>
        obtain ⟨c, more, hsplit, hfirst⟩ := h.begins negative m
        refine ⟨c, more, hsplit, ?_⟩
        rcases hfirst with hdigit | rfl
        · exact if_pos hdigit
        · rfl
  mark htext := by cases htext <;> rfl
  unique {text tree tree'} htext htext' := by
    generalize hsame : text = text' at htext'
    cases htext with
    | integer n =>
        cases htext' with
        | integer n' => exact (isNumber_toString n).unique (hsame ▸ isNumber_toString n')
        | real negative m => exact absurd hsame (h.toString_ne_real n negative m)
    | real negative m =>
        cases htext' with
        | integer n => exact absurd hsame.symm (h.toString_ne_real n negative m)
        | real negative' m' =>
            obtain ⟨rfl, rfl⟩ := h.injective hsame
            rfl

/-- **Different trees are written differently** in a lawful style. -/
theorem writeOn_injective {style : Style} (h : style.Lawful) {tree tree' : Json}
    (heq : tree.writeOn style 0 "" = tree'.writeOn style 0 "") : tree = tree' := by
  have hwrites : style.Writes style.IsNumeral := ⟨h.toIsSpacing, .integer, .real⟩
  obtain ⟨text, hreads, htext⟩ := reads_writeOn hwrites tree 0 ""
  obtain ⟨text', hreads', htext'⟩ := reads_writeOn hwrites tree' 0 ""
  have hsame : text ++ [] = text' ++ [] := by
    rw [List.append_nil, List.append_nil]
    exact List.append_cancel_left (htext.symm.trans ((congrArg String.toList heq).trans htext'))
  exact (told_reads h.tellsNumbers tree hreads hreads' (ends_of_space space_nil)
    (ends_of_space space_nil) hsame).1

/-- A style that writes numbers by the rules of the format is lawful. -/
theorem Style.Writes.lawful {style : Style} (h : style.Writes IsNumber) : style.Lawful where
  toIsSpacing := h.toIsSpacing
  signs negative m := (h.real negative m).all_isNumberSign
  begins negative m := by
    obtain ⟨c, more, hsplit, hmark⟩ := tellsNumbers_isNumber.begins (h.real negative m)
    refine ⟨c, more, hsplit, ?_⟩
    by_cases hdigit : c.isDigit = true
    · exact .inl hdigit
    · rw [markOf, if_neg hdigit] at hmark
      exact .inr hmark
  marked negative m := (h.real negative m).exists_mark
  injective {negative negative' m m'} hsame := by
    have hvalue := (h.real negative m).unique (hsame ▸ h.real negative' m')
    cases hvalue
    exact ⟨rfl, rfl⟩

/-- **The style of data files is lawful.** -/
theorem lawful_pretty : Style.pretty.Lawful := writes_pretty.lawful

/-- So is the style without space. -/
theorem lawful_compact : Style.compact.Lawful := writes_compact.lawful

/-- **Different trees are written differently** in data files. -/
theorem pretty_injective {tree tree' : Json} (h : tree.pretty = tree'.pretty) : tree = tree' :=
  writeOn_injective lawful_pretty h

end Json

end SochoScript
