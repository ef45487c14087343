import SochoScript.Proofs.Rounding
import SochoScript.Proofs.Resumption
import SochoScript.Proofs.Complaints
import SochoScript.Proofs.Fragments
import SochoScript.Proofs.WellFormed
import SochoScript.Proofs.Dumps

/-!
# Numbers from the source to the output

What becomes of a number on its way.  The lexer comes to a run of digits and points, which
it takes as far as it goes.  The run denotes an integer if it has no point and fits into 64
bits with a sign, and otherwise the number of the format that is nearest to its exact
value; with two points it denotes nothing.  What it denotes is written into the program,
and a program that reads the text again finds the same number there.

* `Denotes`: the kind and the value of the token, said of the exact value of the run alone.
* `lexer_reads_numbers`: **numbers of any length are read exactly**, by every call of a
  lexer, and nothing else is refused as a number.
* `IsPositional`: digits, with at most one point between digits.
* `keeps_numeral`: the three forms that are written, which are an integer in full, a
  magnitude in plain digits and the name of what is infinite.
* `emitted_number_keeps_value`: **a number is written with the value that it had**, and the
  text is written as it is when it is read again.
-/

namespace SochoScript

open Number

/-! ### Runs of digits and points -/

/-- The text goes on with `run` and `rest`, where `run` begins with a digit and is the
longest run of digits and points there. -/
structure IsNumberRun (run rest : List Char) : Prop where
  first : ∃ c ∈ run.head?, c.isDigit = true
  parts : ∀ c ∈ run, c.isDigit = true ∨ c = '.'
  ends : ∀ c ∈ rest.head?, ¬ (c.isDigit = true ∨ c = '.')

/-- What a run denotes. -/
inductive Denotes (run : List Char) : Kind → Value → Prop
  | integer {n : Nat} (hpoints : run.count '.' = 0) (hvalue : decimalValue run = n)
      (hfits : n ≤ 2 ^ 63 - 1) : Denotes run .integer (.integer n)
  | large {n : Nat} {x : Binary64} (hpoints : run.count '.' = 0) (hvalue : decimalValue run = n)
      (hlarge : 2 ^ 63 - 1 < n) (hx : Binary64.IsNearest n x) : Denotes run .integer (.float x)
  | float {x : Binary64} (hpoints : run.count '.' = 1)
      (hx : Binary64.IsNearest (decimalValue run) x) : Denotes run .float (.float x)

/-- A run denotes one thing at most. -/
theorem Denotes.unique {run : List Char} {kind kind' : Kind} {value value' : Value}
    (h : Denotes run kind value) (h' : Denotes run kind' value') :
    kind' = kind ∧ value' = value := by
  have hsame : ∀ {n n' : Nat}, decimalValue run = n → decimalValue run = n' → n' = n := by
    intro n n' hn hn'
    rw [hn] at hn'
    exact_mod_cast hn'.symm
  cases h with
  | integer hpoints hvalue hfits =>
      cases h' with
      | integer _ hvalue' _ =>
          rw [hsame hvalue hvalue']
          exact ⟨rfl, rfl⟩
      | large _ hvalue' hlarge _ =>
          have hn := hsame hvalue hvalue'
          omega
      | float hpoints' _ => omega
  | large hpoints hvalue hlarge hx =>
      cases h' with
      | integer _ hvalue' hfits =>
          have hn := hsame hvalue hvalue'
          omega
      | large _ hvalue' _ hx' =>
          rw [hsame hvalue hvalue'] at hx'
          rw [hx.unique hx']
          exact ⟨rfl, rfl⟩
      | float hpoints' _ => omega
  | float hpoints hx =>
      cases h' with
      | integer hpoints' _ _ => omega
      | large hpoints' _ _ _ => omega
      | float _ hx' =>
          rw [hx.unique hx']
          exact ⟨rfl, rfl⟩

/-- The integers below the limit are those of 63 bits. -/
theorem lt_integerLimit_iff {n : Nat} : n < Lexeme.integerLimit ↔ n ≤ 2 ^ 63 - 1 := by
  rw [Lexeme.integerLimit]
  omega

/-- What a run is read as is what it denotes. -/
theorem denotes_numeralValue {run : List Char} {numeral : Numeral}
    (hparts : ∀ c ∈ run, c.isDigit = true ∨ c = '.') (hread : Numeral.read? run = some numeral) :
    Denotes run (Lexeme.numeralValue numeral).1 (Lexeme.numeralValue numeral).2 := by
  have hnearest := Numeral.isNearest_toBinary64 hparts hread
  have hpoints := Numeral.exists_read?_iff.mp ⟨_, hread⟩
  rcases digits_or_point hparts hpoints with
    ⟨hnone, hdigits⟩ | ⟨front, back, hone, hrun, hfront, hback⟩
  · rw [read?_digits hdigits, Option.some.injEq] at hread
    subst hread
    have hvalue := decimalValue_digits hdigits
    by_cases hfits : digitsValue run < Lexeme.integerLimit
    · rw [Lexeme.numeralValue, if_pos hfits]
      exact .integer hnone hvalue (lt_integerLimit_iff.mp hfits)
    · rw [Lexeme.numeralValue, if_neg hfits]
      rw [hvalue] at hnearest
      rw [lt_integerLimit_iff, Nat.not_le] at hfits
      exact .large hnone hvalue hfits hnearest
  · have hfractional := read?_point hfront hback
    rw [← hrun, hread, Option.some.injEq] at hfractional
    subst hfractional
    exact .float hone hnearest

namespace IsNumberRun

variable {run rest : List Char}

/-- A run of a number is the longest that can be taken. -/
theorem longest (h : IsNumberRun run rest) :
    Lexeme.Longest (Lexeme.All Lexeme.isNumberPart) (run ++ rest) run := by
  rw [Lexeme.longest_append_iff]
  refine ⟨?_, ?_⟩
  · intro c hc
    simpa [Lexeme.isNumberPart] using h.parts c hc
  · intro c hc
    simpa [Lexeme.isNumberPart] using h.ends c hc

/-- It begins with a digit. -/
theorem exists_head (h : IsNumberRun run rest) :
    ∃ c, (run ++ rest).head? = some c ∧ c.isDigit = true := by
  obtain ⟨c, hc, hdigit⟩ := h.first
  refine ⟨c, ?_, hdigit⟩
  rw [List.head?_append, Option.mem_def.mp hc]
  rfl

/-- A run without a second point begins a token. -/
theorem munch (h : IsNumberRun run rest) {numeral : Numeral}
    (hread : Numeral.read? run = some numeral) :
    Lexeme.Munch (run ++ rest) run (Lexeme.numeralValue numeral).1
      (Lexeme.numeralValue numeral).2 := by
  obtain ⟨c, hhead, hdigit⟩ := h.exists_head
  exact .number hhead hdigit h.longest hread

/-- A run with a second point is a fault. -/
theorem fault (h : IsNumberRun run rest) (policy : Policy) (hpoints : 2 ≤ run.count '.') :
    Lexeme.Fault policy (run ++ rest) run (.invalidNumber (String.ofList run)) := by
  obtain ⟨c, hhead, hdigit⟩ := h.exists_head
  exact .number hhead hdigit h.longest hpoints

/-- The longest run from a digit on is the run of a number. -/
theorem of_longest (hne : run ≠ []) {first : Char} (hhead : (run ++ rest).head? = some first)
    (hdigit : first.isDigit = true)
    (hrun : Lexeme.Longest (Lexeme.All Lexeme.isNumberPart) (run ++ rest) run) :
    IsNumberRun run rest := by
  rw [Lexeme.longest_append_iff] at hrun
  obtain ⟨hparts, hends⟩ := hrun
  obtain ⟨c, more, rfl⟩ := List.exists_cons_of_ne_nil hne
  cases hhead
  refine ⟨⟨_, rfl, hdigit⟩, ?_, ?_⟩
  · intro d hd
    simpa [Lexeme.isNumberPart] using hparts d hd
  · intro d hd
    simpa [Lexeme.isNumberPart] using hends d hd

end IsNumberRun

/-! ### Runs that a lexer meets -/

/-- A value that is no number with a minus and not the one that is no number. -/
inductive Value.IsUnsigned : Value → Prop
  | text (text : String) : IsUnsigned (.text text)
  | integer (n : Nat) : IsUnsigned (.integer n)
  | float {x : Binary64} (h : x.Unsigned) : IsUnsigned (.float x)

/-- No value that suits its kind has a minus. -/
theorem Expression.Carries.isUnsigned {kind : Kind} {value : Value} (h : Carries kind value) :
    value.IsUnsigned := by
  cases h with
  | text => exact .text _
  | integer => exact .integer _
  | large => exact .float (Binary64.unsigned_nearest _ _)
  | float => exact .float (Binary64.unsigned_nearest _ _)

namespace Lexer

/-- In its next call the lexer finds `earlier` and comes to `run`, which is a number behind
`before`. -/
structure Meets (l : Lexer) (earlier : List Piece) (before run rest : List Char) : Prop where
  passes : ∃ read, l.position = Position.origin.advanceAll read ∧
    Scan.Passes l.policy read l.rest earlier before (run ++ rest)
  run : IsNumberRun run rest

/-- The lexer finds the token `t` there, and goes on with `rest`. -/
structure Obtains (l : Lexer) (earlier : List Piece) (before run rest : List Char)
    (t : Token) : Prop where
  span : t.span = .covering before run
  scan : l.scan =
    { Scan.run l.policy (Position.origin.advanceAll (before ++ run)) rest with
      pieces := earlier ++ .token t ::
        (Scan.run l.policy (Position.origin.advanceAll (before ++ run)) rest).pieces }

variable {l : Lexer} {earlier : List Piece} {before run rest : List Char}

/-- The call finds what comes earlier, and then scans from the number on. -/
theorem Meets.scan_eq (h : l.Meets earlier before run rest) :
    l.scan = { Scan.run l.policy (Position.origin.advanceAll before) (run ++ rest) with
      pieces := earlier ++
        (Scan.run l.policy (Position.origin.advanceAll before) (run ++ rest)).pieces } := by
  obtain ⟨read, hposition, hpasses⟩ := h.passes
  rw [scan, hposition, Scan.run_of_passes hpasses]

/-- A run that can be read becomes one token. -/
theorem Meets.obtains (h : l.Meets earlier before run rest) {numeral : Numeral}
    (hread : Numeral.read? run = some numeral) :
    l.Obtains earlier before run rest ⟨(Lexeme.numeralValue numeral).1,
      (Lexeme.numeralValue numeral).2, .covering before run⟩ := by
  refine ⟨rfl, ?_⟩
  have hfinds : Scan.Finds l.policy before run rest _ := .token (h.run.munch hread)
  rw [h.scan_eq, hfinds.run_eq]
  rfl

/-- A run with a second point ends the call. -/
theorem Meets.outcome_tokenize (h : l.Meets earlier before run rest)
    (hpoints : 2 ≤ run.count '.') :
    l.tokenize.outcome =
      .error (.invalidNumber (String.ofList run) (.covering before run)) := by
  rw [Lexer.outcome_tokenize, h.scan_eq, Scan.run_fault _ (h.run.fault l.policy hpoints),
    ← Position.advanceAll_append]
  rfl

/-- What a lexer does with numbers when it is asked the next time. -/
structure ReadsNumbers (l : Lexer) : Prop where
  /-- A run without a second point becomes one token, which is the one that it denotes. -/
  accepts : ∀ earlier before run rest, l.Meets earlier before run rest → run.count '.' ≤ 1 →
    ∃ t, l.Obtains earlier before run rest t ∧
      ∀ kind value, Denotes run kind value ↔ kind = t.kind ∧ value = t.value
  /-- A run with a second point is refused as a whole. -/
  refuses : ∀ earlier before run rest, l.Meets earlier before run rest → 2 ≤ run.count '.' →
    l.tokenize.outcome = .error (.invalidNumber (String.ofList run) (.covering before run))
  /-- Nothing else is refused as a number. -/
  cause : ∀ text span, l.tokenize.outcome = .error (.invalidNumber text span) →
    ∃ earlier before run rest, l.Meets earlier before run rest ∧ 2 ≤ run.count '.' ∧
      text = String.ofList run ∧ span = .covering before run
  /-- No token has a number with a minus, or the one that is no number. -/
  unsigned : ∀ t ∈ l.scan.tokens, t.value.IsUnsigned

/-- A run without a second point becomes the one token that it denotes. -/
theorem Meets.exists_obtains (h : l.Meets earlier before run rest) (hpoints : run.count '.' ≤ 1) :
    ∃ t, l.Obtains earlier before run rest t ∧
      ∀ kind value, Denotes run kind value ↔ kind = t.kind ∧ value = t.value := by
  obtain ⟨numeral, hread⟩ := Numeral.exists_read?_iff.mpr hpoints
  have hdenotes := denotes_numeralValue h.run.parts hread
  refine ⟨_, h.obtains hread, ?_⟩
  intro kind value
  constructor
  · intro hother
    exact hdenotes.unique hother
  · rintro ⟨rfl, rfl⟩
    exact hdenotes

variable {source read : List Char} {policy : Policy}

/-- A call that fails on a number has come to a run with a second point. -/
theorem HasRead.exists_meets (h : HasRead source policy read l) {text : String} {span : Span}
    (herror : l.tokenize.outcome = .error (.invalidNumber text span)) :
    ∃ earlier before run rest, l.Meets earlier before run rest ∧ 2 ≤ run.count '.' ∧
      text = String.ofList run ∧ span = .covering before run := by
  obtain ⟨after, left, hpasses, hend⟩ := Scan.isWalk_run policy read l.rest
  rw [← h.scan_eq] at hpasses hend
  rw [Lexer.outcome_tokenize, Scan.outcome] at herror
  rcases hend with ⟨-, hnone⟩ | ⟨lexeme, rest, complaint, rfl, hfault, hsome⟩
  · rw [hnone] at herror
    cases herror
  · rw [hsome] at herror
    have hne := hfault.lexeme_ne_nil
    generalize htext : lexeme ++ rest = text at hfault
    cases hfault with
    | literal => cases herror
    | character => cases herror
    | number hfirst hstart hlexeme hpoints =>
        cases herror
        subst htext
        exact ⟨_, after, lexeme, rest, ⟨⟨read, h.position, h.policy ▸ hpasses⟩,
          .of_longest hne hfirst hstart hlexeme⟩, hpoints, rfl, rfl⟩

/-- No token of a lexer has a minus. -/
theorem HasRead.isUnsigned (h : HasRead source policy read l) {t : Token}
    (ht : t ∈ l.scan.tokens) : t.value.IsUnsigned := by
  obtain ⟨after, left, hpasses, -⟩ := Scan.isWalk_run policy read l.rest
  rw [← h.scan_eq] at hpasses
  obtain ⟨earlier, later, hsplit⟩ := List.append_of_mem (Scan.token_mem_of_mem_tokens ht)
  obtain ⟨place, lexeme, rest, -, hfinds, -⟩ := hpasses.split hsplit
  have hscanned : Expression.Scanned t := by
    cases hfinds with
    | token hmunch => exact ⟨lexeme ++ rest, lexeme, hmunch⟩
  exact hscanned.carries.isUnsigned

end Lexer

/-- The parser refuses no number. -/
theorem parse_ne_invalidNumber (tokens : List Token) (text : String) (span : Span) :
    (parse tokens).outcome ≠ .error (.invalidNumber text span) := by
  intro h
  obtain ⟨row, -, hraises⟩ := Parser.exists_raises (parse_eq_error_iff.mp h)
  have hblames := hraises.blames
  cases hblames

/-- **Numbers of any length are read exactly.**  Whatever calls there were before, a run of
digits and points that the lexer comes to is one token if it has at most one point: an
integer of its exact value if there is no point and it fits, and otherwise the number that
is nearest to that value.  A run with more points is refused, and neither the lexer nor
the parser refuses anything else as a number. -/
theorem lexer_reads_numbers (policy : Policy) (source : String) (calls : Nat) :
    (Lexer.next^[calls] (Lexer.ofSource source policy)).ReadsNumbers ∧
      ∀ tokens text span, (parse tokens).outcome ≠ .error (.invalidNumber text span) := by
  obtain ⟨read, hread⟩ := Lexer.exists_hasRead source policy calls
  refine ⟨⟨?_, ?_, ?_, ?_⟩, parse_ne_invalidNumber⟩
  · intro earlier before run rest hmeets hpoints
    exact hmeets.exists_obtains hpoints
  · intro earlier before run rest hmeets hpoints
    exact hmeets.outcome_tokenize hpoints
  · intro text span herror
    exact hread.exists_meets herror
  · intro t ht
    exact hread.isUnsigned ht

/-! ### Numbers that are written -/

/-- Digits, with at most one point between digits. -/
inductive IsPositional : List Char → Prop
  | whole {digits : List Char} (hne : digits ≠ []) (h : Digits digits) : IsPositional digits
  | point {front back : List Char} (hfrontNe : front ≠ []) (hfront : Digits front)
      (hbackNe : back ≠ []) (hback : Digits back) : IsPositional (front ++ '.' :: back)

/-- A size is written in the positional form. -/
theorem isPositional_plain (m : Magnitude) : IsPositional m.plain := by
  have hdigits := digits_digitsOf (m.shortest .up).strip.digits
  have hne := digitsOf_ne_nil (m.shortest .up).strip.digits
  rw [Magnitude.plain]
  by_cases hexp : 0 ≤ (m.shortest .up).strip.exponent
  · rw [positional_of_nonneg _ hexp]
    refine .whole ?_ (digits_append hdigits (digits_replicate_zero _))
    simp [hne]
  · rw [Int.not_le] at hexp
    obtain ⟨front, back, hsplit, hfrontNe, hfront, hback, -, hlength⟩ :=
      positional_of_neg hdigits hne hexp
    rw [hsplit]
    refine .point hfrontNe hfront ?_ hback
    rw [← List.length_pos_iff]
    omega

/-- A text of this form is a run of its own. -/
theorem IsPositional.isNumberRun {text : List Char} (h : IsPositional text) :
    IsNumberRun text [] := by
  cases h with
  | whole hne h =>
      obtain ⟨c, more, rfl⟩ := List.exists_cons_of_ne_nil hne
      exact ⟨⟨c, rfl, h c List.mem_cons_self⟩, fun d hd => .inl (h d hd), by simp⟩
  | point hfrontNe hfront hbackNe hback =>
      obtain ⟨c, more, rfl⟩ := List.exists_cons_of_ne_nil hfrontNe
      refine ⟨⟨c, rfl, hfront c List.mem_cons_self⟩, ?_, by simp⟩
      intro d hd
      rcases List.mem_append.mp hd with hd | hd
      · exact .inl (hfront d hd)
      · rcases List.mem_cons.mp hd with rfl | hd
        · exact .inr rfl
        · exact .inl (hback d hd)

open Expression in
/-- The parser writes the text for the token: as a piece of an expression, behind the sign
of a step, and as what is printed. -/
structure Token.IsWrittenAs (t : Token) (text : String) : Prop where
  piece : ∀ context more, pieces context (t :: more) = text :: pieces context more
  step : t.kind = .integer → ∀ step word sign more, IsSpelled step word →
    (word, sign) ∈ stepped .declaration →
    pieces .declaration (step :: t :: more) =
      (" " ++ sign ++ "= " ++ text) :: pieces .declaration more
  print : ∀ keyword more,
    Reading.Yields (Parser.print keyword (t :: more)) (.print text) more

open Expression in
/-- A number is written as it is displayed. -/
theorem Token.isWrittenAs_display {t : Token} (h : t.kind = .integer ∨ t.kind = .float) :
    t.IsWrittenAs t.value.display := by
  refine ⟨?_, ?_, ?_⟩
  · intro context more
    have hlowering : lowering? context t = none := by
      rcases h with h | h <;> simp [lowering?, h]
    rw [pieces, hlowering]
  · intro hinteger step word sign more hword hsign
    rw [pieces, lowering?_of_isSpelled hword, lower?_of_mem_stepped hsign]
    simp [hinteger, compoundStep, String.append_assoc]
  · intro keyword more
    rw [Parser.yields_print_iff]
    refine ⟨t, rfl, ?_, rfl⟩
    rcases h with h | h <;> simp [Parser.isPrintable, h]

/-- The text is a number that stands for `x`.  Whoever reads it finds one number there, and
writes it in the same way. -/
structure Keeps (x : Binary64) (text : String) : Prop where
  positional : IsPositional text.toList
  nearest : Binary64.IsNearest (decimalValue text.toList) x
  again : ∀ policy, ∃ t, (tokenize policy text).outcome = .ok [t] ∧
    (t.kind = .integer ∨ t.kind = .float) ∧ t.value.display = text ∧ t.IsWrittenAs text

/-- A text that is read and written again in the same way keeps its number. -/
theorem keeps_of_read {text : String} {numeral : Numeral} (hpositional : IsPositional text.toList)
    (hread : Numeral.read? text.toList = some numeral)
    (hdisplay : (Lexeme.numeralValue numeral).2.display = text) :
    Keeps numeral.toBinary64 text := by
  have hrun := hpositional.isNumberRun
  refine ⟨hpositional, Numeral.isNearest_toBinary64 hrun.parts hread, ?_⟩
  intro policy
  have hmunch := hrun.munch hread
  rw [List.append_nil] at hmunch
  have hkind := Lexeme.kind_numeral numeral
  exact ⟨_, tokenize_of_munch hmunch, hkind, hdisplay, hdisplay ▸ Token.isWrittenAs_display hkind⟩

/-- The text is that of the number `x`: it keeps a finite number, and it is the name of the
infinite one. -/
inductive Tells (text : String) : Binary64 → Prop
  | finite {m : Magnitude} (h : Keeps (.finite false m) text) : Tells text (.finite false m)
  | infinite (h : text = "Infinity") : Tells text (.infinite false)

/-- An integer below the limit is told by what is written for it. -/
theorem tells_display_integer {n : Nat} (h : n < Lexeme.integerLimit) :
    Tells (Value.integer n).display (Numeral.whole n).toBinary64 := by
  have hread := read?_digits (digits_digitsOf n)
  rw [digitsValue_digitsOf] at hread
  have hpositional := IsPositional.whole (digitsOf_ne_nil n) (digits_digitsOf n)
  have hdisplay : (Lexeme.numeralValue (.whole n)).2.display = String.ofList (digitsOf n) := by
    rw [Lexeme.numeralValue, if_pos h, display_integer]
  have hkeeps : Keeps (Numeral.whole n).toBinary64 (String.ofList (digitsOf n)) := by
    apply keeps_of_read _ _ hdisplay
    · rwa [String.toList_ofList]
    · rwa [String.toList_ofList]
  -- An integer that is written in full is far from the overflow.
  have hfinite : (Numeral.whole n).toBinary64 ≠ .infinite false := by
    apply hkeeps.nearest.ne_infinite (k := 63) (by decide)
    rw [String.toList_ofList, decimalValue_digits (digits_digitsOf n), digitsValue_digitsOf]
    rw [lt_integerLimit_iff] at h
    exact_mod_cast (by omega : n ≤ 2 ^ 63)
  rw [display_integer]
  have hunsigned : (Numeral.whole n).toBinary64.Unsigned := Binary64.unsigned_nearest n 1
  generalize (Numeral.whole n).toBinary64 = x at hkeeps hfinite hunsigned ⊢
  cases hunsigned with
  | finite m => exact .finite hkeeps
  | infinite => exact absurd rfl hfinite

/-- So is a number without a minus. -/
theorem tells_display_float {x : Binary64} (h : x.Unsigned) : Tells (Value.float x).display x := by
  cases h with
  | infinite => exact .infinite rfl
  | finite m =>
      obtain ⟨numeral, hread, hback, hdisplay⟩ := m.exists_read?_plain
      have hplain : (Value.float (.finite false m)).display = String.ofList m.plain := by
        simp [Value.display, Binary64.plain, signed]
      rw [hplain]
      refine .finite (hback ▸ keeps_of_read ?_ ?_ hdisplay)
      · rw [String.toList_ofList]
        exact isPositional_plain m
      · rwa [String.toList_ofList]

/-- The text of a numeral is that of the number that is nearest to it. -/
theorem tells_numeral (numeral : Numeral) :
    Tells (Lexeme.numeralValue numeral).2.display numeral.toBinary64 := by
  cases numeral with
  | fractional digits places => exact tells_display_float (Binary64.unsigned_nearest _ _)
  | whole n =>
      by_cases hlimit : n < Lexeme.integerLimit
      · rw [Lexeme.numeralValue, if_pos hlimit]
        exact tells_display_integer hlimit
      · rw [Lexeme.numeralValue, if_neg hlimit]
        exact tells_display_float (Binary64.unsigned_nearest _ _)

/-- **A number is written with the value that it had.**  The token that a lexer finds for a
run without a second point is written as it is displayed.  If the number of the format
that is nearest to the run is finite, this text has digits and at most one point between
digits; it is one number when it is read again, the same number is nearest to it, and it
is written so again.  If that number is infinite, the text is its name. -/
theorem emitted_number_keeps_value (policy : Policy) (source : String) (calls : Nat)
    (earlier : List Piece) (before run rest : List Char)
    (hmeets : (Lexer.next^[calls] (Lexer.ofSource source policy)).Meets earlier before run rest)
    (hpoints : run.count '.' ≤ 1) :
    ∃ t x, (Lexer.next^[calls] (Lexer.ofSource source policy)).Obtains earlier before run rest t ∧
      t.IsWrittenAs t.value.display ∧ Binary64.IsNearest (decimalValue run) x ∧
      Tells t.value.display x := by
  obtain ⟨numeral, hread⟩ := Numeral.exists_read?_iff.mpr hpoints
  exact ⟨_, numeral.toBinary64, hmeets.obtains hread,
    Token.isWrittenAs_display (Lexeme.kind_numeral numeral),
    Numeral.isNearest_toBinary64 hmeets.run.parts hread, tells_numeral numeral⟩

/-- A number with a point that lies halfway between two numbers of the format. -/
def halfwayRun : List Char := "9007199254740993.0".toList

/-- The lexer comes to the number at once. -/
theorem meets_halfwayRun :
    (Lexer.ofSource "9007199254740993.0;" .skip).Meets [] [] halfwayRun [';'] := by
  have hall : (halfwayRun.all fun c => c.isDigit || c = '.') = true := by decide
  refine ⟨⟨[], rfl, .here _ _⟩, ⟨⟨'9', rfl, rfl⟩, ?_, ?_⟩⟩
  · intro c hc
    simpa using List.all_eq_true.mp hall c hc
  · intro c hc
    cases hc
    decide

-- It goes to the even neighbour, which is written without a point.
example : (Value.float (Numeral.fractional 90071992547409930 1).toBinary64).display =
    "9007199254740992" := by
  decide +kernel

/-- A number between two binary ones is written as the one that it was read as. -/
theorem emitted_number_keeps_value_halfwayRun :
    (Lexer.ofSource "9007199254740993.0;" .skip).Meets [] [] halfwayRun [';'] ∧
      ∃ t x, (Lexer.ofSource "9007199254740993.0;" .skip).Obtains [] [] halfwayRun [';'] t ∧
        t.IsWrittenAs t.value.display ∧ Binary64.IsNearest (decimalValue halfwayRun) x ∧
        Tells t.value.display x :=
  ⟨meets_halfwayRun,
    emitted_number_keeps_value .skip _ 0 [] [] halfwayRun [';'] meets_halfwayRun (by decide)⟩

end SochoScript
