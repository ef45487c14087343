import SochoScript.Proofs.Walk
import SochoScript.Proofs.Numerals

/-!
# Texts that are read again

What happens when the written form of a token stands in another text.  Alone it
is one token that is written in the same way, `Munch.stands`; in front of
something else it is so as long as the next character does not extend it, and
which characters extend a lexeme is settled by its own first character.

`Reads text values` is a strict scan without places: the values of the tokens
that `text` is made of.  Blanks at the two ends of a text play no part in it.

* `munch_append_iff`: a lexeme is munched off a text exactly if it is one alone
  and the next character does not extend it.
* `reads_iff_tokenize`: reading is scanning with every other character rejected.
* `reads_trim`: blanks at the two ends may be dropped.
* `Munch.stands`: **the written form of a token is a token of its own.**
-/

namespace SochoScript

namespace Lexeme

/-- Whether one more character makes a lexeme longer. -/
def extends? (lexeme : List Char) (c : Char) : Bool :=
  match lexeme with
  | [] => false
  | first :: _ =>
    if isWordStart first then isWordPart c
    else if first.isDigit then isNumberPart c
    else Reserved.isSymbolOperator (lexeme ++ [c])

/-! ### A lexeme in front of a text -/

/-- The whole text is the longest part if it is one. -/
theorem longest_self_iff {P : List Char → Prop} {lexeme : List Char} :
    Longest P lexeme lexeme ↔ P lexeme := by
  apply Iff.intro
  · intro h
    exact h.holds
  · intro h
    exact ⟨List.prefix_refl lexeme, h, fun other hother _ => hother.length_le⟩

/-- A run is the longest exactly if the next character does not belong to it. -/
theorem longest_append_iff {p : Char → Bool} {lexeme rest : List Char} :
    Longest (All p) (lexeme ++ rest) lexeme ↔
      All p lexeme ∧ ∀ c ∈ rest.head?, p c = false := by
  apply Iff.intro
  · intro h
    refine ⟨h.holds, ?_⟩
    intro c hc
    obtain ⟨more, rfl⟩ := List.head?_eq_some_iff.mp hc
    cases hp : p c with
    | false => rfl
    | true =>
        have hall : All p (lexeme ++ [c]) := by
          intro d hd
          rcases List.mem_append.mp hd with hd | hd
          · exact h.holds d hd
          · rw [List.mem_singleton.mp hd]
            exact hp
        have hle := h.longest (lexeme ++ [c]) ⟨more, by simp⟩ hall
        rw [List.length_append, List.length_singleton] at hle
        omega
  · intro h
    obtain ⟨hall, hstops⟩ := h
    have hlongest := longest_takeWhile p (lexeme ++ rest)
    have hrest : rest.takeWhile p = [] := by
      cases rest with
      | nil => rfl
      | cons c rest => simp [hstops c rfl]
    rwa [List.takeWhile_append_of_pos hall, hrest, List.append_nil] at hlongest

/-- A symbol is the longest exactly if the next character makes no symbol of it. -/
theorem longest_symbol_append_iff {lexeme rest : List Char} :
    Longest (fun text => String.ofList text ∈ Reserved.symbolOperators) (lexeme ++ rest) lexeme ↔
      Reserved.isSymbolOperator lexeme = true ∧
        ∀ c ∈ rest.head?, Reserved.isSymbolOperator (lexeme ++ [c]) = false := by
  apply Iff.intro
  · intro h
    refine ⟨isSymbolOperator_iff.mpr h.holds, ?_⟩
    intro c hc
    obtain ⟨more, rfl⟩ := List.head?_eq_some_iff.mp hc
    cases hgrows : Reserved.isSymbolOperator (lexeme ++ [c]) with
    | false => rfl
    | true =>
        have hle := h.longest (lexeme ++ [c]) ⟨more, by simp⟩ (isSymbolOperator_iff.mp hgrows)
        rw [List.length_append, List.length_singleton] at hle
        omega
  · intro h
    exact longest_of_stops h.1 h.2

/-- Only operators grow into operators. -/
theorem isSymbolOperator_append_eq_false {first : Char} {more : List Char} (c : Char)
    (h : first ∉ operatorSigns) : Reserved.isSymbolOperator (first :: more ++ [c]) = false := by
  cases hgrows : Reserved.isSymbolOperator (first :: more ++ [c]) with
  | false => rfl
  | true => exact absurd (mem_operatorSigns hgrows (by simp)) h

/-- A word is extended by what can be in it. -/
theorem extends?_of_isWordStart {first c : Char} {more : List Char}
    (h : isWordStart first = true) : extends? (first :: more) c = isWordPart c := by
  simp [extends?, h]

/-- A number is extended by what can be in it. -/
theorem extends?_of_isDigit {first c : Char} {more : List Char} (h : first.isDigit = true) :
    extends? (first :: more) c = isNumberPart c := by
  simp [extends?, h, isWordStart_eq_false_of_isDigit h]

/-- A sign is extended by what makes a longer symbol of it. -/
theorem extends?_of_isSign {first c : Char} {more : List Char} (h : isSign first = true) :
    extends? (first :: more) c = Reserved.isSymbolOperator (first :: more ++ [c]) := by
  obtain ⟨hword, hdigit, -⟩ := isSign_iff.mp h
  simp [extends?, hword, hdigit]

/-- Literals, brackets and the end of a statement are never extended. -/
theorem extends?_of_mem_closed {first : Char} {more : List Char}
    (h : first ∈ Reserved.endOfStatement :: (Reserved.quoteMarks ++ Reserved.brackets))
    (c : Char) : extends? (first :: more) c = false := by
  have hclosed : ((Reserved.endOfStatement :: (Reserved.quoteMarks ++ Reserved.brackets)).all
      fun d => isSign d && !operatorSigns.contains d) = true := by
    decide
  have hfirst := List.all_eq_true.mp hclosed first h
  rw [Bool.and_eq_true, Bool.not_eq_true'] at hfirst
  rw [extends?_of_isSign hfirst.1]
  apply isSymbolOperator_append_eq_false
  intro hmem
  rw [List.contains_iff_mem.mpr hmem] at hfirst
  cases hfirst.2

/-- Nothing in a number is blank. -/
theorem isBlank_eq_false_of_isNumberPart {c : Char} (h : isNumberPart c = true) :
    Text.isBlank c = false := by
  rcases Bool.or_eq_true_iff.mp h with hdigit | hpoint
  · exact isBlank_eq_false_of_isDigit hdigit
  · rw [of_decide_eq_true hpoint]
    decide

/-- Nothing in a symbol is blank. -/
theorem isBlank_eq_false_of_mem_symbol {c : Char} {text : List Char}
    (h : Reserved.isSymbolOperator text = true) (hc : c ∈ text) : Text.isBlank c = false :=
  (isSign_iff.mp (isSign_of_mem_operatorSigns (mem_operatorSigns h hc)).1).2.2

/-- A character that is part of no word, number or operator extends nothing. -/
theorem extends?_eq_false {c : Char} (lexeme : List Char) (hword : isWordPart c = false)
    (hnumber : isNumberPart c = false) (hsign : c ∉ operatorSigns) :
    extends? lexeme c = false := by
  have hsymbol : Reserved.isSymbolOperator (lexeme ++ [c]) = false := by
    cases hgrows : Reserved.isSymbolOperator (lexeme ++ [c]) with
    | false => rfl
    | true =>
        have hmem : c ∈ lexeme ++ [c] := List.mem_append_right _ List.mem_cons_self
        exact absurd (mem_operatorSigns hgrows hmem) hsign
  cases lexeme with
  | nil => rfl
  | cons first more =>
      rw [List.cons_append] at hsymbol
      simp [extends?, hword, hnumber, hsymbol]

/-- A blank extends nothing. -/
theorem extends?_of_isBlank {c : Char} (lexeme : List Char) (h : Text.isBlank c = true) :
    extends? lexeme c = false := by
  have hword : isWordPart c = false := by
    cases hpart : isWordPart c with
    | false => rfl
    | true => exact absurd h (by simp [isBlank_eq_false_of_isWordPart hpart])
  have hnumber : isNumberPart c = false := by
    cases hpart : isNumberPart c with
    | false => rfl
    | true => exact absurd h (by simp [isBlank_eq_false_of_isNumberPart hpart])
  refine extends?_eq_false lexeme hword hnumber ?_
  intro hsign
  have hnotBlank := (isSign_iff.mp (isSign_of_mem_operatorSigns hsign).1).2.2
  rw [h] at hnotBlank
  cases hnotBlank

/-- **A lexeme in front of a text.**  It is munched exactly if it is a lexeme alone
and the next character does not extend it. -/
theorem munch_append_iff {lexeme rest : List Char} {kind : Kind} {value : Value} :
    Munch (lexeme ++ rest) lexeme kind value ↔
      Munch lexeme lexeme kind value ∧ ∀ c ∈ rest.head?, extends? lexeme c = false := by
  apply Iff.intro
  · intro h
    obtain ⟨first, more, -, rfl, -, -⟩ := h.exists_cons
    cases h with
    | word hfirst hstart hlexeme hkind =>
        cases hfirst
        obtain ⟨hall, hstops⟩ := longest_append_iff.mp hlexeme
        refine ⟨.word rfl hstart (longest_self_iff.mpr hall) hkind, ?_⟩
        intro c hc
        rw [extends?_of_isWordStart hstart]
        exact hstops c hc
    | number hfirst hstart hlexeme hread =>
        cases hfirst
        obtain ⟨hall, hstops⟩ := longest_append_iff.mp hlexeme
        refine ⟨.number rfl hstart (longest_self_iff.mpr hall) hread, ?_⟩
        intro c hc
        rw [extends?_of_isDigit hstart]
        exact hstops c hc
    | symbol hfirst hstart hlexeme =>
        cases hfirst
        obtain ⟨hsymbol, hstops⟩ := longest_symbol_append_iff.mp hlexeme
        refine ⟨.symbol rfl hstart (longest_self_iff.mpr ?_), ?_⟩
        · exact isSymbolOperator_iff.mp hsymbol
        · intro c hc
          have hsign := mem_operatorSigns (isSymbolOperator_iff.mpr hstart) List.mem_cons_self
          rw [extends?_of_isSign (isSign_of_mem_operatorSigns hsign).1]
          exact hstops c hc
    | literal hmark hbody hlexeme hbegins =>
        refine ⟨.literal hmark hbody hlexeme (List.prefix_refl _), ?_⟩
        intro c hc
        cases hlexeme
        exact extends?_of_mem_closed (by simp [hmark]) c
    | bracket hbracket hlexeme hbegins =>
        refine ⟨.bracket hbracket hlexeme (List.prefix_refl _), ?_⟩
        intro c hc
        cases hlexeme
        exact extends?_of_mem_closed (by simp [hbracket]) c
    | terminator hlexeme hbegins =>
        refine ⟨.terminator hlexeme (List.prefix_refl _), ?_⟩
        intro c hc
        cases hlexeme
        exact extends?_of_mem_closed List.mem_cons_self c
  · intro h
    obtain ⟨h, hstops⟩ := h
    cases h with
    | @word first kind hfirst hstart hlexeme hkind =>
        obtain ⟨more, rfl⟩ := List.head?_eq_some_iff.mp hfirst
        refine .word rfl hstart (longest_append_iff.mpr ⟨hlexeme.holds, ?_⟩) hkind
        intro c hc
        rw [← extends?_of_isWordStart hstart]
        exact hstops c hc
    | @number first numeral hfirst hstart hlexeme hread =>
        obtain ⟨more, rfl⟩ := List.head?_eq_some_iff.mp hfirst
        refine .number rfl hstart (longest_append_iff.mpr ⟨hlexeme.holds, ?_⟩) hread
        intro c hc
        rw [← extends?_of_isDigit hstart]
        exact hstops c hc
    | @symbol first hfirst hstart hlexeme =>
        obtain ⟨more, rfl⟩ := List.head?_eq_some_iff.mp hfirst
        have hsymbol := isSymbolOperator_iff.mpr hlexeme.holds
        refine .symbol rfl hstart (longest_symbol_append_iff.mpr ⟨hsymbol, ?_⟩)
        intro c hc
        have hsign := mem_operatorSigns (isSymbolOperator_iff.mpr hstart) List.mem_cons_self
        rw [← extends?_of_isSign (isSign_of_mem_operatorSigns hsign).1]
        exact hstops c hc
    | literal hmark hbody hlexeme hbegins =>
        exact .literal hmark hbody hlexeme (List.prefix_append _ _)
    | bracket hbracket hlexeme hbegins =>
        exact .bracket hbracket hlexeme (List.prefix_append _ _)
    | terminator hlexeme hbegins => exact .terminator hlexeme (List.prefix_append _ _)

/-! ### Reading a text -/

/-- The values of the tokens that a text is made of. -/
inductive Reads : List Char → List Value → Prop
  | nil : Reads [] []
  | blank {c : Char} {text : List Char} {values : List Value}
      (hblank : Text.isBlank c = true) (tail : Reads text values) : Reads (c :: text) values
  | munch {lexeme text : List Char} {kind : Kind} {value : Value} {values : List Value}
      (hmunch : Munch (lexeme ++ text) lexeme kind value) (tail : Reads text values) :
      Reads (lexeme ++ text) (value :: values)

/-- A text that begins with a blank is read as if it did not. -/
theorem Reads.of_blank {c : Char} {text : List Char} {values : List Value}
    (h : Reads (c :: text) values) (hblank : Text.isBlank c = true) : Reads text values := by
  generalize hwhole : c :: text = whole at h
  cases h with
  | nil => cases hwhole
  | blank hblank' tail =>
      cases hwhole
      exact tail
  | munch hmunch tail =>
      obtain ⟨d, more, rest, rfl, -, hnotBlank⟩ := hmunch.exists_cons
      rw [List.cons_append, List.cons.injEq] at hwhole
      rw [← hwhole.1, hblank] at hnotBlank
      cases hnotBlank

/-- A text that begins with no blank begins with the lexeme of its first token. -/
theorem Reads.exists_munch {c : Char} {text : List Char} {values : List Value}
    (h : Reads (c :: text) values) (hblank : Text.isBlank c = false) :
    ∃ lexeme rest kind value others, c :: text = lexeme ++ rest ∧
      Munch (lexeme ++ rest) lexeme kind value ∧ values = value :: others ∧
      Reads rest others := by
  generalize hwhole : c :: text = whole at h
  cases h with
  | nil => cases hwhole
  | blank hblank' tail =>
      cases hwhole
      rw [hblank'] at hblank
      cases hblank
  | munch hmunch tail => exact ⟨_, _, _, _, _, rfl, hmunch, rfl, tail⟩

/-- Blanks in front change nothing in what is read. -/
theorem reads_append_left {left text : List Char} {values : List Value}
    (hleft : ∀ c ∈ left, Text.isBlank c = true) :
    Reads (left ++ text) values ↔ Reads text values := by
  induction left with
  | nil => rfl
  | cons c left ih =>
      have hc := hleft c List.mem_cons_self
      have hrest := ih fun d hd => hleft d (List.mem_cons_of_mem c hd)
      apply Iff.intro
      · intro h
        exact hrest.mp (Reads.of_blank h hc)
      · intro h
        exact .blank hc (hrest.mpr h)

/-- Blanks alone are nothing. -/
theorem reads_blanks {blanks : List Char} {values : List Value}
    (hblanks : ∀ c ∈ blanks, Text.isBlank c = true) : Reads blanks values ↔ values = [] := by
  have hnil : Reads (blanks ++ []) values ↔ Reads [] values := reads_append_left hblanks
  rw [List.append_nil] at hnil
  rw [hnil]
  apply Iff.intro
  · intro h
    generalize hempty : ([] : List Char) = text at h
    cases h with
    | nil => rfl
    | blank hblank tail => cases hempty
    | munch hmunch tail =>
        obtain ⟨d, more, rest, rfl, -, -⟩ := hmunch.exists_cons
        cases hempty
  · intro h
    subst h
    exact .nil

/-- A lexeme does not end with a blank. -/
theorem Munch.isBlank_last {text front : List Char} {c : Char} {kind : Kind} {value : Value}
    (h : Munch text (front ++ [c]) kind value) : Text.isBlank c = false := by
  have hmem : c ∈ front ++ [c] := List.mem_append_right _ List.mem_cons_self
  cases h with
  | word hfirst hstart hlexeme hkind =>
      exact isBlank_eq_false_of_isWordPart (hlexeme.holds c hmem)
  | number hfirst hstart hlexeme hread =>
      exact isBlank_eq_false_of_isNumberPart (hlexeme.holds c hmem)
  | symbol hfirst hstart hlexeme =>
      exact isBlank_eq_false_of_mem_symbol (isSymbolOperator_iff.mpr hlexeme.holds) hmem
  | @literal mark body hmark hbody hlexeme hbegins =>
      have hlast : c = mark := by
        have hsplit : front ++ [c] = (mark :: body) ++ [mark] := by simpa using hlexeme
        exact (List.append_singleton_inj.mp hsplit).2
      rw [hlast]
      exact (isSign_iff.mp (isSign_of_isQuoteMark (List.contains_iff_mem.mpr hmark))).2.2
  | @bracket b hbracket hlexeme hbegins =>
      rw [hlexeme, List.mem_singleton] at hmem
      rw [hmem]
      exact (isSign_iff.mp (isSign_of_isBracket (List.contains_iff_mem.mpr hbracket)).1).2.2
  | terminator hlexeme hbegins =>
      rw [hlexeme, List.mem_singleton] at hmem
      rw [hmem]
      decide

/-- What is read with blanks behind is read without them. -/
theorem Reads.of_append_right {text right : List Char} {values : List Value}
    (hright : ∀ c ∈ right, Text.isBlank c = true) (h : Reads (text ++ right) values) :
    Reads text values := by
  generalize hwhole : text ++ right = whole at h
  induction h generalizing text with
  | nil =>
      rw [(List.append_eq_nil_iff.mp hwhole).1]
      exact .nil
  | @blank c rest values hblank tail ih =>
      cases text with
      | nil =>
          rw [List.nil_append] at hwhole
          subst hwhole
          have hnone := (reads_blanks hright).mp (.blank hblank tail)
          rw [hnone]
          exact .nil
      | cons d text =>
          rw [List.cons_append, List.cons.injEq] at hwhole
          obtain ⟨rfl, hrest⟩ := hwhole
          exact .blank hblank (ih hrest)
  | @munch lexeme rest kind value values hmunch tail ih =>
      -- The lexeme does not reach into the blanks, for it would end with one.
      have hinside : ∃ more, text = lexeme ++ more ∧ rest = more ++ right := by
        rcases List.append_eq_append_iff.mp hwhole with ⟨more, hlexeme, hmore⟩ | hinside
        · rcases List.eq_nil_or_concat more with hnil | ⟨front, c, hconcat⟩
          · subst hnil
            exact ⟨[], by simpa using hlexeme.symm, by simpa using hmore.symm⟩
          · rw [List.concat_eq_append] at hconcat
            subst hconcat
            rw [hlexeme, ← List.append_assoc] at hmunch
            have hblank := hright c (by simp [hmore])
            rw [hmunch.isBlank_last] at hblank
            cases hblank
        · exact hinside
      obtain ⟨more, rfl, rfl⟩ := hinside
      obtain ⟨halone, hstops⟩ := munch_append_iff.mp hmunch
      refine .munch (munch_append_iff.mpr ⟨halone, ?_⟩) (ih rfl)
      intro c hc
      apply hstops c
      rw [List.head?_append, Option.mem_def.mp hc]
      rfl

/-- Blanks behind change nothing in what is read. -/
theorem reads_append_right {text right : List Char} {values : List Value}
    (hright : ∀ c ∈ right, Text.isBlank c = true) :
    Reads (text ++ right) values ↔ Reads text values := by
  apply Iff.intro
  · exact Reads.of_append_right hright
  · intro h
    induction h with
    | nil => exact (reads_blanks hright).mpr rfl
    | blank hblank tail ih => exact .blank hblank ih
    | @munch lexeme rest kind value values hmunch tail ih =>
        obtain ⟨halone, hstops⟩ := munch_append_iff.mp hmunch
        rw [List.append_assoc]
        refine .munch (munch_append_iff.mpr ⟨halone, ?_⟩) ih
        intro c hc
        cases rest with
        | nil =>
            obtain ⟨others, rfl⟩ := List.head?_eq_some_iff.mp hc
            exact extends?_of_isBlank lexeme (hright c List.mem_cons_self)
        | cons d rest => exact hstops c hc

/-- **Blanks at the two ends of a text may be dropped.** -/
theorem reads_trim {text : List Char} {values : List Value} :
    Reads (Text.trim text) values ↔ Reads text values := by
  obtain ⟨left, right, htext, hleft, hright⟩ := Text.exists_blanks_trim text
  calc Reads (Text.trim text) values
      ↔ Reads (left ++ Text.trim text) values := (reads_append_left hleft).symm
    _ ↔ Reads (left ++ Text.trim text ++ right) values := (reads_append_right hright).symm
    _ ↔ Reads text values := by rw [← htext]

/-! ### Reading is scanning -/

section

open Scan

/-- What is read is found by a strict scan. -/
theorem Reads.exists_passes {text : List Char} {values : List Value} (h : Reads text values)
    (before : List Char) :
    ∃ pieces, Passes .reject before text pieces (before ++ text) [] ∧
      (pieces.filterMap Piece.token?).map Token.value = values := by
  induction h generalizing before with
  | nil => exact ⟨[], by simpa using Passes.here before [], rfl⟩
  | @blank c text values hblank tail ih =>
      obtain ⟨pieces, hpasses, hvalues⟩ := ih (before ++ [c])
      refine ⟨pieces, .blank hblank ?_, hvalues⟩
      simpa using hpasses
  | @munch lexeme text kind value values hmunch tail ih =>
      obtain ⟨pieces, hpasses, hvalues⟩ := ih (before ++ lexeme)
      refine ⟨_ :: pieces, .piece (.token hmunch) ?_, ?_⟩
      · simpa using hpasses
      · simp [Piece.token?, hvalues]

/-- What a strict scan finds is read. -/
theorem reads_of_passes {before text after : List Char} {pieces : List Piece}
    (h : Passes .reject before text pieces after []) :
    Reads text ((pieces.filterMap Piece.token?).map Token.value) := by
  generalize hleft : ([] : List Char) = left at h
  induction h with
  | here before text =>
      subst hleft
      exact .nil
  | blank hblank tail ih => exact .blank hblank (ih hleft)
  | piece hfinds tail ih =>
      cases hfinds with
      | token hmunch => exact .munch hmunch (ih hleft)
      | skipped hpolicy hnothing hlexeme => cases hpolicy

/-- **Reading is scanning with every other character rejected.** -/
theorem reads_iff_tokenize {source : String} {values : List Value} :
    Reads source.toList values ↔
      ∃ tokens, (tokenize .reject source).outcome = .ok tokens ∧
        tokens.map Token.value = values := by
  apply Iff.intro
  · intro h
    obtain ⟨pieces, hpasses, hvalues⟩ := h.exists_passes []
    exact ⟨_, tokenize_of_passes hpasses, hvalues⟩
  · intro h
    obtain ⟨tokens, hok, rfl⟩ := h
    obtain ⟨pieces, hpasses, rfl, -⟩ := exists_passes_of_tokenize hok
    exact reads_of_passes hpasses

end

/-! ### Written forms -/

/-- The text is one token, and that token is written so. -/
def Stands (text : String) : Prop :=
  ∃ kind value, Munch text.toList text.toList kind value ∧ value.display = text

/-- A number stands if it is written as it is read. -/
theorem stands_number {digits : List Char} {numeral : Number.Numeral}
    (hfirst : ∃ c more, digits = c :: more ∧ c.isDigit = true)
    (hall : ∀ c ∈ digits, c.isDigit = true ∨ c = '.')
    (hread : Number.Numeral.read? digits = some numeral)
    (hdisplay : (numeralValue numeral).2.display = String.ofList digits) :
    Stands (String.ofList digits) := by
  obtain ⟨c, more, hcons, hc⟩ := hfirst
  have hhead : digits.head? = some c := by
    rw [hcons]
    rfl
  have hparts : All isNumberPart digits := by
    intro d hd
    simpa [isNumberPart] using hall d hd
  refine ⟨(numeralValue numeral).1, (numeralValue numeral).2, ?_, hdisplay⟩
  rw [String.toList_ofList]
  exact .number hhead hc (longest_self_iff.mpr hparts) hread

/-- An integer below the limit stands. -/
theorem stands_integer {n : Nat} (h : n < integerLimit) : Stands (Value.integer n).display := by
  have hdigits := Number.digits_digitsOf n
  have hread := Number.read?_digits hdigits
  rw [Number.digitsValue_digitsOf] at hread
  obtain ⟨c, more, hcons⟩ := List.exists_cons_of_ne_nil (Number.digitsOf_ne_nil n)
  have hc : c.isDigit = true := hdigits c (by rw [hcons]; exact List.mem_cons_self)
  have hdisplay : (numeralValue (.whole n)).2.display = String.ofList (Number.digitsOf n) := by
    rw [← Number.display_integer]
    simp [numeralValue, h]
  rw [Number.display_integer]
  exact stands_number ⟨c, more, hcons, hc⟩ (fun d hd => .inl (hdigits d hd)) hread hdisplay

/-- A size stands. -/
theorem stands_plain (m : Number.Magnitude) : Stands (String.ofList m.plain) := by
  obtain ⟨numeral, hread, -, hdisplay⟩ := m.exists_read?_plain
  obtain ⟨hfirst, hall⟩ := Number.positional_parts
    (Number.digits_digitsOf (m.shortest .up).strip.digits) (Number.digitsOf_ne_nil _)
    (m.shortest .up).strip.exponent
  exact stands_number hfirst hall hread hdisplay

/-- A word stands. -/
theorem stands_word {word : String} {first : Char} {more : List Char}
    (hcons : word.toList = first :: more) (hstart : isWordStart first = true)
    (hall : word.toList.all isWordPart = true) : Stands word := by
  have hhead : word.toList.head? = some first := by
    rw [hcons]
    rfl
  exact ⟨_, _, .word hhead hstart (longest_self_iff.mpr (List.all_eq_true.mp hall))
    (isWordKind_iff.mpr rfl), String.ofList_toList⟩

/-- A symbol stands. -/
theorem stands_symbol {symbol : String} (h : symbol ∈ Reserved.symbolOperators) :
    Stands symbol := by
  have hoperator : Reserved.isSymbolOperator symbol.toList = true :=
    isSymbolOperator_iff.mpr (by rwa [String.ofList_toList])
  have hne : ∀ s ∈ Reserved.symbolOperators, s.toList ≠ [] := by decide
  obtain ⟨first, more, hcons⟩ := List.exists_cons_of_ne_nil (hne symbol h)
  have hbegins : [first] <+: symbol.toList := ⟨more, by simp [hcons]⟩
  have hfirst := isSymbolOperator_of_begins (by simp) hbegins hoperator
  have hhead : symbol.toList.head? = some first := by
    rw [hcons]
    rfl
  refine ⟨.operator, .text (String.ofList symbol.toList), ?_, String.ofList_toList⟩
  refine .symbol hhead (isSymbolOperator_iff.mp hfirst) (longest_self_iff.mpr ?_)
  exact isSymbolOperator_iff.mp hoperator

/-- What is too large is written as a word. -/
theorem stands_infinity : Stands "Infinity" :=
  stands_word rfl rfl (by decide)

/-- Whatever is written for a number stands. -/
theorem stands_numeral (numeral : Number.Numeral) : Stands (numeralValue numeral).2.display := by
  have hfloat : ∀ num den,
      Stands (Value.float (Number.Binary64.nearest false num den)).display := by
    intro num den
    unfold Number.Binary64.nearest
    split
    · simpa [Value.display, Number.Binary64.plain, Number.signed] using stands_plain _
    · exact stands_infinity
  cases numeral with
  | fractional digits places => exact hfloat _ _
  | whole n =>
      by_cases hlimit : n < integerLimit
      · have hvalue : (numeralValue (.whole n)).2 = .integer n := by simp [numeralValue, hlimit]
        rw [hvalue]
        exact stands_integer hlimit
      · have hvalue : (numeralValue (.whole n)).2 =
            .float (Number.Numeral.whole n).toBinary64 := by
          simp [numeralValue, hlimit]
        rw [hvalue]
        exact hfloat _ _

/-- **The written form of a token is a token of its own.** -/
theorem Munch.stands {text lexeme : List Char} {kind : Kind} {value : Value}
    (h : Munch text lexeme kind value) : Stands value.display := by
  obtain ⟨c, more, rest, -, rfl, -⟩ := h.exists_cons
  rcases h.text_or_number with rfl | ⟨first, numeral, -, -, -, rfl⟩
  · refine ⟨kind, .text (String.ofList lexeme), ?_, rfl⟩
    rw [Value.display, String.toList_ofList]
    exact (munch_append_iff.mp h).1
  · exact stands_numeral numeral

end Lexeme

end SochoScript
