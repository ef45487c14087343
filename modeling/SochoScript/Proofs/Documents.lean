import SochoScript.Proofs.Literals

/-!
# Reading JSON

Which texts are written forms of a tree of data, and that every text is the written
form of one tree at most.

The rules are those of the data format, and not those of a writer: any amount of space
between the signs, escapes of every kind, numbers with and without a fraction and an
exponent.  Each rule says of a whole text what it stands for.  A number with a fraction
or an exponent stands for the binary number nearest to it, so that one which is too large
for the format stands for nothing.

To take a text apart, one has to know where its first part ends.  Space ends where no
space follows, a string ends at its closing quote, and a number ends where no sign of a
number follows; everything else is closed by a sign of its own.  So two readings of one
text are compared with something behind each of them, from left to right.

* `Spells.append_inj`: a character in a string is spelled by no beginning of another
  spelling.
* `IsNumber.unique`: a number has one value.
* `Parts.append_inj`: parts in a row can be told, if each of them can.
* `told_reads`: a value in front of a text can be told, if that text does not go on like a
  number.
* `IsDocument.unique`: **a text stands for one tree at most.**
-/

namespace SochoScript

namespace Json

open Number (Digits digitsValue signed Decimal)

/-! ### Space -/

/-- Whether a character is space between signs. -/
def isSpace (c : Char) : Bool := c = ' ' || c = '\t' || c = '\n' || c = '\r'

/-- Nothing but space. -/
abbrev Space (text : List Char) : Prop := Lexeme.All isSpace text

/-- The four signs that are space. -/
theorem isSpace_iff {c : Char} :
    isSpace c = true ↔ c = ' ' ∨ c = '\t' ∨ c = '\n' ∨ c = '\r' := by
  simp [isSpace, or_assoc]

/-- No sign at all is space. -/
theorem space_nil : Space [] := fun _ hc => absurd hc List.not_mem_nil

/-- Space ends where something else follows. -/
theorem space_append_inj {space space' rest rest' : List Char} (hspace : Space space)
    (hspace' : Space space') (hrest : ∀ c ∈ rest.head?, isSpace c = false)
    (hrest' : ∀ c ∈ rest'.head?, isSpace c = false) (h : space ++ rest = space' ++ rest') :
    rest = rest' :=
  (Text.append_inj_of_all hspace hspace' hrest hrest' h).2

/-! ### Strings -/

/-- The escapes of one letter, each with the character that it stands for. -/
def shortEscapes : List (Char × Char) :=
  [('"', '"'), ('\\', '\\'), ('/', '/'), ('b', '\x08'), ('f', '\x0c'), ('n', '\n'), ('r', '\r'),
   ('t', '\t')]

/-- The value of a digit of base sixteen, in lower or upper case. -/
def hexValue? (c : Char) : Option Nat :=
  if '0' ≤ c ∧ c ≤ '9' then some (c.toNat - '0'.toNat)
  else if 'a' ≤ c ∧ c ≤ 'f' then some (c.toNat - 'a'.toNat + 10)
  else if 'A' ≤ c ∧ c ≤ 'F' then some (c.toNat - 'A'.toNat + 10)
  else none

/-- The value of four digits of base sixteen. -/
def hexUnit? (a b c d : Char) : Option Nat := do
  return 4096 * (← hexValue? a) + 256 * (← hexValue? b) + 16 * (← hexValue? c) + (← hexValue? d)

/-- A spelling of a character inside a string. -/
inductive Spells : List Char → Char → Prop
  /-- A character that needs no escape. -/
  | plain {c : Char} (hcontrol : 0x20 ≤ c.toNat) (hquote : c ≠ '"') (hslash : c ≠ '\\') :
      Spells [c] c
  | short {letter c : Char} (h : (letter, c) ∈ shortEscapes) : Spells ['\\', letter] c
  /-- The code point of the character. -/
  | unit {a b c d char : Char} (h : hexUnit? a b c d = some char.toNat) :
      Spells ['\\', 'u', a, b, c, d] char
  /-- Two surrogates, for a character above `U+FFFF`. -/
  | pair {a b c d a' b' c' d' char : Char} {high low : Nat} (hhigh : high < 0x400)
      (hlow : low < 0x400) (hfirst : hexUnit? a b c d = some (0xd800 + high))
      (hsecond : hexUnit? a' b' c' d' = some (0xdc00 + low))
      (hchar : char.toNat = 0x10000 + 0x400 * high + low) :
      Spells ['\\', 'u', a, b, c, d, '\\', 'u', a', b', c', d'] char

/-- An escape of one letter stands for one character. -/
theorem shortEscapes_functional :
    ∀ first ∈ shortEscapes, ∀ second ∈ shortEscapes, first.1 = second.1 → first.2 = second.2 := by
  decide

/-- None of these letters begins an escape by number. -/
theorem shortEscapes_not_u : ∀ escape ∈ shortEscapes, escape.1 ≠ 'u' := by
  decide

/-- No character is a surrogate. -/
theorem toNat_ne_surrogate (c : Char) {high : Nat} (hhigh : high < 0x400) :
    c.toNat ≠ 0xd800 + high := by
  have hvalid := c.valid
  have hval : c.toNat = c.val.toNat := rfl
  rcases hvalid with h | ⟨h, -⟩ <;> omega

/-- What spells a character does not begin like the end of a string. -/
theorem Spells.head_ne_quote {sign : List Char} {c : Char} (h : Spells sign c) :
    ∃ first more, sign = first :: more ∧ first ≠ '"' := by
  cases h with
  | plain hcontrol hquote hslash => exact ⟨_, _, rfl, hquote⟩
  | short h => exact ⟨_, _, rfl, by decide⟩
  | unit h => exact ⟨_, _, rfl, by decide⟩
  | pair hhigh hlow hfirst hsecond hchar => exact ⟨_, _, rfl, by decide⟩

/-- **A spelling of a character is no beginning of another one.** -/
theorem Spells.append_inj {sign sign' rest rest' : List Char} {c c' : Char} (h : Spells sign c)
    (h' : Spells sign' c') (heq : sign ++ rest = sign' ++ rest') : c = c' ∧ rest = rest' := by
  cases h with
  | plain hcontrol hquote hslash =>
      cases h' with
      | plain => exact List.cons.inj heq
      | short | unit | pair => exact absurd (List.cons.inj heq).1 hslash
  | @short letter _ hletter =>
      cases h' with
      | plain hcontrol hquote hslash => exact absurd (List.cons.inj heq).1.symm hslash
      | short hletter' =>
          simp only [List.cons_append, List.nil_append, List.cons.injEq, true_and] at heq
          exact ⟨shortEscapes_functional _ hletter _ hletter' heq.1, heq.2⟩
      | unit | pair =>
          simp only [List.cons_append, List.cons.injEq, true_and] at heq
          exact absurd heq.1 (shortEscapes_not_u _ hletter)
  | unit hunit =>
      cases h' with
      | plain hcontrol hquote hslash => exact absurd (List.cons.inj heq).1.symm hslash
      | short hletter =>
          simp only [List.cons_append, List.cons.injEq, true_and] at heq
          exact absurd heq.1.symm (shortEscapes_not_u _ hletter)
      | unit hunit' =>
          simp only [List.cons_append, List.nil_append, List.cons.injEq, true_and] at heq
          obtain ⟨rfl, rfl, rfl, rfl, hrest⟩ := heq
          rw [hunit, Option.some.injEq] at hunit'
          exact ⟨Char.toNat_inj.mp hunit', hrest⟩
      | pair hhigh _ hfirst =>
          simp only [List.cons_append, List.nil_append, List.cons.injEq, true_and] at heq
          obtain ⟨rfl, rfl, rfl, rfl, -⟩ := heq
          rw [hunit, Option.some.injEq] at hfirst
          exact absurd hfirst (toNat_ne_surrogate _ hhigh)
  | pair hhigh hlow hfirst hsecond hchar =>
      cases h' with
      | plain hcontrol hquote hslash => exact absurd (List.cons.inj heq).1.symm hslash
      | short hletter =>
          simp only [List.cons_append, List.cons.injEq, true_and] at heq
          exact absurd heq.1.symm (shortEscapes_not_u _ hletter)
      | unit hunit =>
          simp only [List.cons_append, List.nil_append, List.cons.injEq, true_and] at heq
          obtain ⟨rfl, rfl, rfl, rfl, -⟩ := heq
          rw [hfirst, Option.some.injEq] at hunit
          exact absurd hunit.symm (toNat_ne_surrogate _ hhigh)
      | pair hhigh' hlow' hfirst' hsecond' hchar' =>
          simp only [List.cons_append, List.nil_append, List.cons.injEq, true_and] at heq
          obtain ⟨rfl, rfl, rfl, rfl, rfl, rfl, rfl, rfl, hrest⟩ := heq
          rw [hfirst, Option.some.injEq] at hfirst'
          rw [hsecond, Option.some.injEq] at hsecond'
          exact ⟨Char.toNat_inj.mp (by omega), hrest⟩

/-- A spelling of the characters inside a string. -/
inductive SpellsAll : List Char → List Char → Prop
  | nil : SpellsAll [] []
  | cons {sign text : List Char} {c : Char} {cs : List Char} (hfirst : Spells sign c)
      (hrest : SpellsAll text cs) : SpellsAll (sign ++ text) (c :: cs)

/-- The characters of a string end at its closing quote. -/
theorem SpellsAll.append_inj {text text' cs cs' rest rest' : List Char} (h : SpellsAll text cs)
    (h' : SpellsAll text' cs') (heq : text ++ '"' :: rest = text' ++ '"' :: rest') :
    cs = cs' ∧ rest = rest' := by
  induction h generalizing text' cs' with
  | nil =>
      cases h' with
      | nil => exact ⟨rfl, (List.cons.inj heq).2⟩
      | cons hfirst hrest =>
          obtain ⟨first, more, rfl, hquote⟩ := hfirst.head_ne_quote
          exact absurd (List.cons.inj heq).1.symm hquote
  | cons hfirst hrest ih =>
      cases h' with
      | nil =>
          obtain ⟨first, more, rfl, hquote⟩ := hfirst.head_ne_quote
          exact absurd (List.cons.inj heq).1 hquote
      | cons hfirst' hrest' =>
          rw [List.append_assoc, List.append_assoc] at heq
          obtain ⟨rfl, htail⟩ := hfirst.append_inj hfirst' heq
          obtain ⟨rfl, hend⟩ := ih hrest' htail
          exact ⟨rfl, hend⟩

/-- A string between its quotes. -/
def IsString (text : List Char) (value : String) : Prop :=
  ∃ body, text = '"' :: (body ++ ['"']) ∧ SpellsAll body value.toList

/-- A string in front of any text can be told. -/
theorem IsString.append_inj {text text' rest rest' : List Char} {value value' : String}
    (h : IsString text value) (h' : IsString text' value')
    (heq : text ++ rest = text' ++ rest') : value = value' ∧ rest = rest' := by
  obtain ⟨body, rfl, hbody⟩ := h
  obtain ⟨body', rfl, hbody'⟩ := h'
  have hinner : body ++ '"' :: rest = body' ++ '"' :: rest' := by simpa using heq
  obtain ⟨hvalue, hrest⟩ := hbody.append_inj hbody' hinner
  exact ⟨String.toList_inj.mp hvalue, hrest⟩

/-! ### Numbers -/

/-- The digits in front of the point: no zero stands in front of others. -/
structure IsWhole (text : List Char) : Prop where
  digits : Digits text
  nonempty : text ≠ []
  canonical : text.head? = some '0' → text = ['0']

/-- A fraction, which may be missing, and its digits. -/
inductive IsFraction : List Char → List Char → Prop
  | none : IsFraction [] []
  | point {digits : List Char} (hdigits : Digits digits) (hne : digits ≠ []) :
      IsFraction ('.' :: digits) digits

/-- An exponent, which may be missing, and its value. -/
inductive IsExponent : List Char → Int → Prop
  | none : IsExponent [] 0
  | unsigned {mark : Char} {digits : List Char} (hmark : mark = 'e' ∨ mark = 'E')
      (hdigits : Digits digits) (hne : digits ≠ []) :
      IsExponent (mark :: digits) (digitsValue digits)
  | plus {mark : Char} {digits : List Char} (hmark : mark = 'e' ∨ mark = 'E')
      (hdigits : Digits digits) (hne : digits ≠ []) :
      IsExponent (mark :: '+' :: digits) (digitsValue digits)
  | minus {mark : Char} {digits : List Char} (hmark : mark = 'e' ∨ mark = 'E')
      (hdigits : Digits digits) (hne : digits ≠ []) :
      IsExponent (mark :: '-' :: digits) (-digitsValue digits)

/-- A number. -/
inductive IsNumber : List Char → Json → Prop
  | integer {negative : Bool} {whole : List Char} (hwhole : IsWhole whole) :
      IsNumber (signed negative whole)
        (.integer (if negative then -digitsValue whole else digitsValue whole))
  /-- With a fraction or an exponent, it is the binary number nearest to its decimal. -/
  | real {negative : Bool} {whole fraction places power : List Char} {exponent : Int}
      {size : Number.Magnitude} (hwhole : IsWhole whole) (hfraction : IsFraction fraction places)
      (hpower : IsExponent power exponent) (hreal : fraction ++ power ≠ [])
      (hsize : (Decimal.mk (digitsValue (whole ++ places)) (exponent - places.length)).nearest false
        = .finite false size) :
      IsNumber (signed negative (whole ++ (fraction ++ power))) (.real negative size)

/-- Whether a character may stand in a number. -/
def isNumberSign (c : Char) : Bool :=
  c.isDigit || c = '.' || c = 'e' || c = 'E' || c = '+' || c = '-'

/-- An exponent begins with its mark. -/
theorem IsExponent.head {power : List Char} {exponent : Int} (h : IsExponent power exponent) :
    ∀ c ∈ power.head?, c = 'e' ∨ c = 'E' := by
  cases h with
  | none => simp
  | unsigned hmark | plus hmark | minus hmark => simpa using hmark

/-- An exponent has one value. -/
theorem IsExponent.unique {power : List Char} {exponent exponent' : Int}
    (h : IsExponent power exponent) (h' : IsExponent power exponent') : exponent = exponent' := by
  have hsign : ∀ {c : Char} {digits : List Char}, c.isDigit = false → ¬ Digits (c :: digits) := by
    intro c digits hc hdigits
    rw [hdigits c List.mem_cons_self] at hc
    cases hc
  cases h with
  | none => cases h'; rfl
  | unsigned _ hdigits =>
      cases h' with
      | unsigned => rfl
      | plus | minus => exact absurd hdigits (hsign (by decide))
  | plus =>
      cases h' with
      | unsigned _ hdigits => exact absurd hdigits (hsign (by decide))
      | plus => rfl
  | minus =>
      cases h' with
      | unsigned _ hdigits => exact absurd hdigits (hsign (by decide))
      | minus => rfl

/-- What follows the digits in front of the point is no digit. -/
theorem isDigit_head_tail {fraction places power : List Char} {exponent : Int}
    (hfraction : IsFraction fraction places) (hpower : IsExponent power exponent) :
    ∀ c ∈ (fraction ++ power).head?, c.isDigit = false := by
  intro c hc
  cases hfraction with
  | none =>
      rcases hpower.head c hc with rfl | rfl <;> decide
  | point hdigits hne =>
      cases hc
      decide

/-- Fraction and exponent are told apart by their marks. -/
theorem fraction_append_inj {fraction fraction' places places' power power' : List Char}
    {exponent exponent' : Int} (hfraction : IsFraction fraction places)
    (hfraction' : IsFraction fraction' places') (hpower : IsExponent power exponent)
    (hpower' : IsExponent power' exponent') (h : fraction ++ power = fraction' ++ power') :
    places = places' ∧ exponent = exponent' := by
  have hpoint : ∀ {power digits : List Char} {exponent : Int}, IsExponent power exponent →
      power ≠ '.' :: digits := by
    rintro power digits exponent hpower rfl
    rcases hpower.head '.' rfl with h | h <;> cases h
  cases hfraction with
  | none =>
      cases hfraction' with
      | none =>
          rw [List.nil_append, List.nil_append] at h
          exact ⟨rfl, hpower.unique (h ▸ hpower')⟩
      | point hdigits' hne' => exact absurd h (hpoint hpower)
  | point hdigits hne =>
      cases hfraction' with
      | none => exact absurd h.symm (hpoint hpower')
      | point hdigits' hne' =>
          have hnone := isDigit_head_tail .none hpower
          have hnone' := isDigit_head_tail .none hpower'
          obtain ⟨rfl, rfl⟩ := Text.append_inj_of_all hdigits hdigits' hnone hnone'
            (List.cons.inj h).2
          exact ⟨rfl, hpower.unique hpower'⟩

/-- A minus is told from a digit. -/
theorem signed_whole_inj {negative negative' : Bool} {whole whole' tail tail' : List Char}
    (hwhole : IsWhole whole) (hwhole' : IsWhole whole')
    (htail : ∀ c ∈ tail.head?, c.isDigit = false) (htail' : ∀ c ∈ tail'.head?, c.isDigit = false)
    (h : signed negative (whole ++ tail) = signed negative' (whole' ++ tail')) :
    negative = negative' ∧ whole = whole' ∧ tail = tail' := by
  have hminus : ∀ {text tail rest : List Char}, IsWhole text → text ++ tail ≠ '-' :: rest := by
    intro text tail rest htext h
    obtain ⟨first, more, rfl⟩ := List.exists_cons_of_ne_nil htext.nonempty
    have hdigit := htext.digits first List.mem_cons_self
    rw [(List.cons.inj h).1] at hdigit
    cases hdigit
  have hsplit := @Text.append_inj_of_all Char.isDigit whole whole' tail tail' hwhole.digits
    hwhole'.digits htail htail'
  cases negative <;> cases negative'
  · exact ⟨rfl, hsplit h⟩
  · exact absurd h (hminus hwhole)
  · exact absurd h.symm (hminus hwhole')
  · exact ⟨rfl, hsplit (List.cons.inj h).2⟩

/-- **A number has one value.** -/
theorem IsNumber.unique {text : List Char} {tree tree' : Json} (h : IsNumber text tree)
    (h' : IsNumber text tree') : tree = tree' := by
  generalize htext : text = text' at h'
  cases h with
  | @integer negative whole hwhole =>
      rw [← List.append_nil whole] at htext
      cases h' with
      | @integer negative' whole' hwhole' =>
          rw [← List.append_nil whole'] at htext
          obtain ⟨rfl, rfl, -⟩ := signed_whole_inj hwhole hwhole' (by simp) (by simp) htext
          rfl
      | real hwhole' hfraction hpower hreal hsize =>
          obtain ⟨-, -, htail⟩ := signed_whole_inj hwhole hwhole' (by simp)
            (isDigit_head_tail hfraction hpower) htext
          exact absurd htail.symm hreal
  | real hwhole hfraction hpower hreal hsize =>
      have hhead := isDigit_head_tail hfraction hpower
      cases h' with
      | @integer negative' whole' hwhole' =>
          rw [← List.append_nil whole'] at htext
          obtain ⟨-, -, htail⟩ := signed_whole_inj hwhole hwhole' hhead (by simp) htext
          exact absurd htail hreal
      | real hwhole' hfraction' hpower' hreal' hsize' =>
          obtain ⟨rfl, rfl, htail⟩ := signed_whole_inj hwhole hwhole' hhead
            (isDigit_head_tail hfraction' hpower') htext
          obtain ⟨rfl, rfl⟩ := fraction_append_inj hfraction hfraction' hpower hpower' htail
          rw [hsize, Number.Binary64.finite.injEq] at hsize'
          rw [hsize'.2]

/-- All signs of a number are signs of numbers. -/
theorem IsNumber.all_isNumberSign {text : List Char} {tree : Json} (h : IsNumber text tree) :
    Lexeme.All isNumberSign text := by
  have hsigned : ∀ {negative : Bool} {text : List Char}, Lexeme.All isNumberSign text →
      Lexeme.All isNumberSign (signed negative text) := by
    intro negative text htext
    cases negative
    · exact htext
    · exact List.forall_mem_cons.mpr ⟨by decide, htext⟩
  have hdigits : ∀ {text : List Char}, Digits text → Lexeme.All isNumberSign text := by
    intro text htext c hc
    simp [isNumberSign, htext c hc]
  cases h with
  | integer hwhole => exact hsigned (hdigits hwhole.digits)
  | real hwhole hfraction hpower hreal hsize =>
      refine hsigned (List.forall_mem_append.mpr ⟨hdigits hwhole.digits,
        List.forall_mem_append.mpr ⟨?_, ?_⟩⟩)
      · cases hfraction with
        | none => simp
        | point hplaces _ => exact List.forall_mem_cons.mpr ⟨by decide, hdigits hplaces⟩
      · cases hpower with
        | none => simp
        | unsigned hmark hplaces _ =>
            refine List.forall_mem_cons.mpr ⟨?_, hdigits hplaces⟩
            rcases hmark with rfl | rfl <;> decide
        | plus hmark hplaces _ | minus hmark hplaces _ =>
            refine List.forall_mem_cons.mpr
              ⟨?_, List.forall_mem_cons.mpr ⟨by decide, hdigits hplaces⟩⟩
            rcases hmark with rfl | rfl <;> decide

/-- What follows does not go on like a number. -/
def Ends (rest : List Char) : Prop := ∀ c ∈ rest.head?, isNumberSign c = false

/-- Space does not go on like a number. -/
theorem ends_of_space {space : List Char} (hspace : Space space) : Ends space := by
  intro c hc
  rcases isSpace_iff.mp (hspace c (List.mem_of_mem_head? hc)) with rfl | rfl | rfl | rfl <;> decide

/-- Nor does a sign of no number, with or without space before it. -/
theorem ends_space_cons {space rest : List Char} {c : Char} (hspace : Space space)
    (hc : isNumberSign c = false) : Ends (space ++ c :: rest) := by
  cases space with
  | nil => simpa [Ends] using hc
  | cons first more => simpa [Ends] using ends_of_space hspace

/-! ### Parts in a row -/

/-- The parts behind the first, each after a comma, up to the bracket that closes them. -/
inductive Later {α : Type} (R : List Char → α → Prop) (closing : Char) : List Char → List α → Prop
  | close {space : List Char} (hspace : Space space) : Later R closing (space ++ [closing]) []
  | part {before after text more : List Char} {a : α} {parts : List α} (hbefore : Space before)
      (hafter : Space after) (hpart : R text a) (hmore : Later R closing more parts) :
      Later R closing (before ++ ',' :: (after ++ (text ++ more))) (a :: parts)

/-- Any number of parts with commas between them, up to the bracket that closes them. -/
inductive Parts {α : Type} (R : List Char → α → Prop) (closing : Char) : List Char → List α → Prop
  | none {space : List Char} (hspace : Space space) : Parts R closing (space ++ [closing]) []
  | some {space text more : List Char} {a : α} {parts : List α} (hspace : Space space)
      (hpart : R text a) (hmore : Later R closing more parts) :
      Parts R closing (space ++ (text ++ more)) (a :: parts)

/-- The part can be told in front of a text that does not go on like a number. -/
def Told {α : Type} (R : List Char → α → Prop) (a : α) : Prop :=
  ∀ {text text' rest rest' : List Char} {a' : α}, R text a → R text' a' → Ends rest → Ends rest' →
    text ++ rest = text' ++ rest' → a = a' ∧ rest = rest'

/-- A part begins with a sign that is neither space nor the bracket. -/
def Begins {α : Type} (R : List Char → α → Prop) (closing : Char) : Prop :=
  ∀ {text : List Char} {a : α}, R text a →
    ∃ c more, text = c :: more ∧ isSpace c = false ∧ c ≠ closing

/-- The bracket is a sign of its own. -/
structure IsClosing (closing : Char) : Prop where
  notSpace : isSpace closing = false
  notComma : closing ≠ ','
  notNumber : isNumberSign closing = false

section

variable {α : Type} {R : List Char → α → Prop} {closing : Char}

/-- No space stands in front of a part. -/
theorem Begins.isSpace_head (hbegins : Begins R closing) {text : List Char} {a : α}
    (h : R text a) (rest : List Char) : ∀ c ∈ (text ++ rest).head?, isSpace c = false := by
  obtain ⟨first, more, rfl, hspace, -⟩ := hbegins h
  intro c hc
  cases hc
  exact hspace

/-- A part does not begin like the closing bracket. -/
theorem Begins.append_ne_close (hbegins : Begins R closing) {text rest rest' : List Char} {a : α}
    (h : R text a) : text ++ rest ≠ closing :: rest' := by
  obtain ⟨first, more, rfl, -, hclosing⟩ := hbegins h
  intro heq
  exact hclosing (List.cons.inj heq).1

/-- The parts behind the first do not go on like a number. -/
theorem Later.ends (hclosing : IsClosing closing) {text : List Char} {parts : List α}
    (h : Later R closing text parts) (rest : List Char) : Ends (text ++ rest) := by
  cases h with
  | close hspace =>
      rw [List.append_assoc]
      exact ends_space_cons hspace hclosing.notNumber
  | part hbefore =>
      rw [List.append_assoc]
      exact ends_space_cons hbefore (by decide)

variable {text text' rest rest' : List Char} {parts parts' : List α}

/-- Parts behind the first can be told, if each of them can. -/
theorem Later.append_inj (hclosing : IsClosing closing) (hbegins : Begins R closing)
    (htold : ∀ a ∈ parts, Told R a) (h : Later R closing text parts)
    (h' : Later R closing text' parts') (heq : text ++ rest = text' ++ rest') :
    parts = parts' ∧ rest = rest' := by
  have hspace := hclosing.notSpace
  induction h generalizing text' parts' with
  | close hbefore =>
      cases h' with
      | close hbefore' =>
          rw [List.append_assoc, List.append_assoc] at heq
          have hsame := space_append_inj hbefore hbefore' (by simpa) (by simpa) heq
          exact ⟨rfl, (List.cons.inj hsame).2⟩
      | part hbefore' =>
          rw [List.append_assoc, List.append_assoc] at heq
          have hsame := space_append_inj hbefore hbefore' (by simpa) (by simp [isSpace]) heq
          exact absurd (List.cons.inj hsame).1 hclosing.notComma
  | part hbefore hafter hpart hmore ih =>
      obtain ⟨hfirst, hothers⟩ := List.forall_mem_cons.mp htold
      cases h' with
      | close hbefore' =>
          rw [List.append_assoc, List.append_assoc] at heq
          have hsame := space_append_inj hbefore hbefore' (by simp [isSpace]) (by simpa) heq
          exact absurd (List.cons.inj hsame).1.symm hclosing.notComma
      | part hbefore' hafter' hpart' hmore' =>
          simp only [List.append_assoc, List.cons_append] at heq
          have hsame := space_append_inj hbefore hbefore' (by simp [isSpace]) (by simp [isSpace])
            heq
          have hnext := space_append_inj hafter hafter' (hbegins.isSpace_head hpart _)
            (hbegins.isSpace_head hpart' _) (List.cons.inj hsame).2
          obtain ⟨rfl, htail⟩ :=
            hfirst hpart hpart' (hmore.ends hclosing _) (hmore'.ends hclosing _) hnext
          obtain ⟨rfl, hend⟩ := ih hothers hmore' htail
          exact ⟨rfl, hend⟩

/-- **Parts in a row can be told, if each of them can.** -/
theorem Parts.append_inj (hclosing : IsClosing closing) (hbegins : Begins R closing)
    (htold : ∀ a ∈ parts, Told R a) (h : Parts R closing text parts)
    (h' : Parts R closing text' parts') (heq : text ++ rest = text' ++ rest') :
    parts = parts' ∧ rest = rest' := by
  have hnotSpace := hclosing.notSpace
  cases h with
  | none hspace =>
      cases h' with
      | none hspace' =>
          rw [List.append_assoc, List.append_assoc] at heq
          have hsame := space_append_inj hspace hspace' (by simpa) (by simpa) heq
          exact ⟨rfl, (List.cons.inj hsame).2⟩
      | some hspace' hpart' hmore' =>
          simp only [List.append_assoc] at heq
          have hsame := space_append_inj hspace hspace' (by simpa)
            (hbegins.isSpace_head hpart' _) heq
          exact absurd hsame.symm (hbegins.append_ne_close hpart')
  | some hspace hpart hmore =>
      obtain ⟨hfirst, hothers⟩ := List.forall_mem_cons.mp htold
      cases h' with
      | none hspace' =>
          simp only [List.append_assoc] at heq
          have hsame := space_append_inj hspace hspace' (hbegins.isSpace_head hpart _) (by simpa)
            heq
          exact absurd hsame (hbegins.append_ne_close hpart)
      | some hspace' hpart' hmore' =>
          simp only [List.append_assoc] at heq
          have hsame := space_append_inj hspace hspace' (hbegins.isSpace_head hpart _)
            (hbegins.isSpace_head hpart' _) heq
          obtain ⟨rfl, htail⟩ :=
            hfirst hpart hpart' (hmore.ends hclosing _) (hmore'.ends hclosing _) hsame
          obtain ⟨rfl, hend⟩ := hmore.append_inj hclosing hbegins hothers hmore' htail
          exact ⟨rfl, hend⟩

end

/-! ### Trees -/

/-- What stands in an array or an object. -/
def children : Json → List Json
  | array items => items
  | object members => members.map Prod.snd
  | _ => []

/-- What stands in a tree is smaller than the tree. -/
theorem sizeOf_lt_of_mem_children {child tree : Json} (h : child ∈ tree.children) :
    sizeOf child < sizeOf tree := by
  cases tree with
  | array items =>
      have hlt := List.sizeOf_lt_of_mem h
      rw [array.sizeOf_spec]
      exact Nat.lt_add_left 1 hlt
  | object members =>
      obtain ⟨⟨name, value⟩, hmember, rfl⟩ := List.mem_map.mp h
      have hlt := List.sizeOf_lt_of_mem hmember
      rw [Prod.mk.sizeOf_spec] at hlt
      rw [object.sizeOf_spec]
      show sizeOf value < _
      omega
  | _ => cases h

/-- What holds of a tree whenever it holds of everything in it, holds of every tree. -/
@[elab_as_elim]
theorem children_induction {motive : Json → Prop} (tree : Json)
    (step : ∀ tree : Json, (∀ child ∈ tree.children, motive child) → motive tree) : motive tree :=
  step tree fun child _ => children_induction child step
termination_by sizeOf tree
decreasing_by exact sizeOf_lt_of_mem_children ‹_›

/-! ### Values -/

/-- A member of an object: its name, a colon, and its value. -/
inductive IsMember (R : List Char → Json → Prop) : List Char → String × Json → Prop
  | mk {key before after text : List Char} {name : String} {value : Json}
      (hkey : IsString key name) (hbefore : Space before) (hafter : Space after)
      (hvalue : R text value) :
      IsMember R (key ++ (before ++ ':' :: (after ++ text))) (name, value)

/-- The first sign of a tree, where a minus stands for all signs that a number begins
with. -/
def mark : Json → Char
  | null => 'n'
  | bool true => 't'
  | bool false => 'f'
  | integer _ => '-'
  | real _ _ => '-'
  | string _ => '"'
  | array _ => '['
  | object _ => '\x7b'

/-- What the first sign of a text tells about its tree. -/
def markOf (c : Char) : Char := if c.isDigit then '-' else c

/-- What is asked of the written forms of numbers, so that they can be told. -/
structure TellsNumbers (N : List Char → Json → Prop) : Prop where
  /-- They have no other signs than those of numbers. -/
  signs : ∀ {text : List Char} {tree : Json}, N text tree → Lexeme.All isNumberSign text
  /-- They begin like a number. -/
  begins : ∀ {text : List Char} {tree : Json}, N text tree →
    ∃ c more, text = c :: more ∧ markOf c = '-'
  /-- They stand for numbers. -/
  mark : ∀ {text : List Char} {tree : Json}, N text tree → tree.mark = '-'
  /-- Each of them stands for one number. -/
  unique : ∀ {text : List Char} {tree tree' : Json}, N text tree → N text tree' → tree = tree'

/-- **Numbers can be told** by the rules of the data format. -/
theorem tellsNumbers_isNumber : TellsNumbers IsNumber where
  signs h := h.all_isNumberSign
  begins h := by
    have hsigned : ∀ {negative : Bool} {whole tail : List Char}, IsWhole whole →
        ∃ c more, signed negative (whole ++ tail) = c :: more ∧ markOf c = '-' := by
      intro negative whole tail hwhole
      cases negative
      · obtain ⟨first, more, rfl⟩ := List.exists_cons_of_ne_nil hwhole.nonempty
        exact ⟨first, more ++ tail, rfl, if_pos (hwhole.digits first List.mem_cons_self)⟩
      · exact ⟨'-', _, rfl, rfl⟩
    cases h with
    | @integer negative whole hwhole =>
        rw [← List.append_nil whole]
        exact hsigned hwhole
    | real hwhole => exact hsigned hwhole
  mark h := by cases h <;> rfl
  unique h h' := h.unique h'

/-- The written forms of a tree whose numbers are written as `N` says. -/
inductive Reads (N : List Char → Json → Prop) : List Char → Json → Prop
  | null : Reads N "null".toList .null
  | true : Reads N "true".toList (.bool true)
  | false : Reads N "false".toList (.bool false)
  | number {text : List Char} {tree : Json} (h : N text tree) : Reads N text tree
  | string {text : List Char} {value : String} (h : IsString text value) :
      Reads N text (.string value)
  | array {text : List Char} {items : List Json} (h : Parts (Reads N) ']' text items) :
      Reads N ('[' :: text) (.array items)
  | object {text : List Char} {members : List (String × Json)}
      (h : Parts (IsMember (Reads N)) '\x7d' text members) :
      Reads N ('\x7b' :: text) (.object members)

section

variable {N : List Char → Json → Prop} (hnumbers : TellsNumbers N)

include hnumbers

/-- The first sign of a written form tells what sort of tree it is. -/
theorem Reads.exists_cons {text : List Char} {tree : Json} (h : Reads N text tree) :
    ∃ c more, text = c :: more ∧ markOf c = tree.mark := by
  cases h with
  | null | true | false | array | object => exact ⟨_, _, rfl, rfl⟩
  | number h =>
      rw [hnumbers.mark h]
      exact hnumbers.begins h
  | string h =>
      obtain ⟨body, rfl, -⟩ := h
      exact ⟨_, _, rfl, rfl⟩

/-- Two readings of one text are of the same sort. -/
theorem Reads.mark_eq_of_append_eq {text text' rest rest' : List Char} {tree tree' : Json}
    (h : Reads N text tree) (h' : Reads N text' tree') (heq : text ++ rest = text' ++ rest') :
    tree.mark = tree'.mark := by
  obtain ⟨c, more, rfl, hmark⟩ := h.exists_cons hnumbers
  obtain ⟨c', more', rfl, hmark'⟩ := h'.exists_cons hnumbers
  rw [← hmark, ← hmark', (List.cons.inj heq).1]

/-- No tree begins with space, nor with the end of an array. -/
theorem begins_reads : Begins (Reads N) ']' := by
  have hmark : ∀ c : Char, isSpace c = true ∨ c = ']' → ∀ tree : Json, markOf c ≠ tree.mark := by
    intro c hc tree
    rw [isSpace_iff] at hc
    rcases hc with (rfl | rfl | rfl | rfl) | rfl <;>
      cases tree with
      | bool value => cases value <;> decide
      | _ => simp [markOf, mark]
  intro text tree h
  obtain ⟨c, more, rfl, hc⟩ := h.exists_cons hnumbers
  refine ⟨c, more, rfl, ?_, ?_⟩
  · cases hspace : isSpace c with
    | false => rfl
    | true => exact absurd hc (hmark c (.inl hspace) tree)
  · intro hclose
    exact hmark c (.inr hclose) tree hc

omit hnumbers in
/-- A member begins with the quote of its name. -/
theorem begins_isMember : Begins (IsMember (Reads N)) '\x7d' := by
  rintro text member ⟨⟨body, rfl, -⟩, -⟩
  exact ⟨'"', _, rfl, by decide, by decide⟩

/-- A member can be told if its value can. -/
theorem told_isMember {name : String} {value : Json} (hvalue : Told (Reads N) value) :
    Told (IsMember (Reads N)) (name, value) := by
  intro text text' rest rest' member h h' hrest hrest' heq
  obtain @⟨key, before, after, text, _, _, hkey, hbefore, hafter, htext⟩ := h
  obtain @⟨key', before', after', text', name', value', hkey', hbefore', hafter', htext'⟩ := h'
  simp only [List.append_assoc, List.cons_append] at heq
  obtain ⟨rfl, hcolon⟩ := hkey.append_inj hkey' heq
  have hsame := space_append_inj hbefore hbefore' (by simp [isSpace]) (by simp [isSpace]) hcolon
  have hbegins : Begins (Reads N) ']' := begins_reads hnumbers
  have hnext := space_append_inj hafter hafter' (hbegins.isSpace_head htext _)
    (hbegins.isSpace_head htext' _) (List.cons.inj hsame).2
  obtain ⟨rfl, hend⟩ := hvalue htext htext' hrest hrest' hnext
  exact ⟨rfl, hend⟩

/-- A number in front of a text can be told. -/
theorem told_number {text text' rest rest' : List Char} {tree tree' : Json}
    (h : N text tree) (h' : N text' tree') (hrest : Ends rest) (hrest' : Ends rest')
    (heq : text ++ rest = text' ++ rest') : tree = tree' ∧ rest = rest' := by
  obtain ⟨rfl, hsame⟩ :=
    Text.append_inj_of_all (hnumbers.signs h) (hnumbers.signs h') hrest hrest' heq
  exact ⟨hnumbers.unique h h', hsame⟩

/-- A value can be told, if everything in it can. -/
theorem told_of_children {tree : Json} (htold : ∀ child ∈ tree.children, Told (Reads N) child) :
    Told (Reads N) tree := by
  intro text text' rest rest' tree' h h' hrest hrest' heq
  -- the first sign leaves one sort of tree for the second reading
  have hmark := h.mark_eq_of_append_eq hnumbers h' heq
  cases h with
  | null =>
      cases h' with
      | null => exact ⟨rfl, List.append_cancel_left heq⟩
      | number h' => cases hmark.trans (hnumbers.mark h')
      | _ => cases hmark
  | true =>
      cases h' with
      | true => exact ⟨rfl, List.append_cancel_left heq⟩
      | number h' => cases hmark.trans (hnumbers.mark h')
      | _ => cases hmark
  | false =>
      cases h' with
      | false => exact ⟨rfl, List.append_cancel_left heq⟩
      | number h' => cases hmark.trans (hnumbers.mark h')
      | _ => cases hmark
  | number h =>
      cases h' with
      | number h' => exact told_number hnumbers h h' hrest hrest' heq
      | _ => cases hmark.symm.trans (hnumbers.mark h)
  | string h =>
      cases h' with
      | string h' =>
          obtain ⟨rfl, hsame⟩ := h.append_inj h' heq
          exact ⟨rfl, hsame⟩
      | number h' => cases hmark.trans (hnumbers.mark h')
      | _ => cases hmark
  | array h =>
      cases h' with
      | array h' =>
          obtain ⟨rfl, hsame⟩ := h.append_inj ⟨by decide, by decide, by decide⟩
            (begins_reads hnumbers) htold h' (List.cons.inj heq).2
          exact ⟨rfl, hsame⟩
      | number h' => cases hmark.trans (hnumbers.mark h')
      | _ => cases hmark
  | @object _ members h =>
      cases h' with
      | object h' =>
          have hmembers : ∀ member ∈ members, Told (IsMember (Reads N)) member :=
            fun member hmember =>
              told_isMember hnumbers (htold member.2 (List.mem_map_of_mem hmember))
          obtain ⟨rfl, hsame⟩ := h.append_inj ⟨by decide, by decide, by decide⟩ begins_isMember
            hmembers h' (List.cons.inj heq).2
          exact ⟨rfl, hsame⟩
      | number h' => cases hmark.trans (hnumbers.mark h')
      | _ => cases hmark

/-- **A value in front of a text can be told**, if that text does not go on like a
number. -/
theorem told_reads (tree : Json) : Told (Reads N) tree := by
  induction tree using children_induction with
  | step tree htold => exact told_of_children hnumbers htold

end

/-! ### Documents -/

/-- A text that is the written form of a tree, with space around it. -/
def IsDocument (text : String) (tree : Json) : Prop :=
  ∃ before body after, text.toList = before ++ (body ++ after) ∧ Space before ∧ Space after ∧
    Reads IsNumber body tree

/-- **A text stands for one tree at most.** -/
theorem IsDocument.unique {text : String} {tree tree' : Json} (h : IsDocument text tree)
    (h' : IsDocument text tree') : tree = tree' := by
  obtain ⟨before, body, after, htext, hbefore, hafter, hbody⟩ := h
  obtain ⟨before', body', after', htext', hbefore', hafter', hbody'⟩ := h'
  have hbegins : Begins (Reads IsNumber) ']' := begins_reads tellsNumbers_isNumber
  have hsame := space_append_inj hbefore hbefore' (hbegins.isSpace_head hbody _)
    (hbegins.isSpace_head hbody' _) (htext.symm.trans htext')
  exact (told_reads tellsNumbers_isNumber tree hbody hbody' (ends_of_space hafter)
    (ends_of_space hafter') hsame).1

end Json

end SochoScript
