import SochoScript.Proofs.Boundaries

/-!
# What stands outside of literals

A literal may hold any character but its own mark: line feeds, braces, whole
pieces of a program.  What an expression can do to the text around it is settled
by the characters that stand *outside* of its literals, when these are found as
the scanner finds them, from a mark to the next mark of the same kind.

`Text.Outside P text` says that the literals of `text` are all closed and that
the characters outside of them have the property `P`.

* `Outside.append_cons_inj`: a sign that does not occur outside of literals ends
  a text in one way only.
* `Outside.trim`: blanks at the two ends play no part.
* `Scanned.literal_or_plain`: the written form of a token is one literal, or it
  holds no mark and no blank at all.
* `outside_of_lowers`: an expression holds neither a line feed nor the sign that
  ends it, except in literals.
* `not_awaits_of_lowers`: no expression begins like the reading of a line of input,
  because a space stands only beside a lowered word.
-/

namespace SochoScript

namespace Text

/-- All literals of the text are closed, and the characters outside of them have
the property `P`. -/
inductive Outside (P : Char → Prop) : List Char → Prop
  | nil : Outside P []
  | plain {c : Char} {text : List Char} (hmark : Reserved.isQuoteMark c = false) (hc : P c)
      (tail : Outside P text) : Outside P (c :: text)
  | literal {mark : Char} {body text : List Char} (hmark : Reserved.isQuoteMark mark = true)
      (hbody : mark ∉ body) (tail : Outside P text) :
      Outside P (mark :: (body ++ mark :: text))

/-! ### Splitting a text -/

/-- A text is split in one way where a class of characters ends. -/
theorem append_inj_of_all {p : Char → Bool} {left right rest rest' : List Char}
    (hleft : Lexeme.All p left) (hright : Lexeme.All p right)
    (hrest : ∀ c ∈ rest.head?, p c = false) (hrest' : ∀ c ∈ rest'.head?, p c = false)
    (h : left ++ rest = right ++ rest') : left = right ∧ rest = rest' := by
  have hlongest := Lexeme.longest_append_iff.mpr ⟨hleft, hrest⟩
  have hlongest' := Lexeme.longest_append_iff.mpr ⟨hright, hrest'⟩
  rw [h] at hlongest
  have hsame := hlongest.unique hlongest'
  subst hsame
  exact ⟨rfl, List.append_cancel_left h⟩

/-- What stands before the first mark can be told, and what follows it. -/
theorem append_mark_inj {mark : Char} {body body' rest rest' : List Char}
    (hbody : mark ∉ body) (hbody' : mark ∉ body')
    (h : body ++ mark :: rest = body' ++ mark :: rest') : body = body' ∧ rest = rest' := by
  have hall : ∀ text : List Char, mark ∉ text → Lexeme.All (· ≠ mark) text := by
    intro text hmark c hc
    have hne : c ≠ mark := fun he => hmark (he ▸ hc)
    simpa using hne
  have hsplit := append_inj_of_all (hall body hbody) (hall body' hbody') (by simp) (by simp) h
  exact ⟨hsplit.1, (List.cons.inj hsplit.2).2⟩

namespace Outside

variable {P Q : Char → Prop}

/-- A weaker property holds outside as well. -/
theorem mono (hPQ : ∀ c, P c → Q c) {text : List Char} (h : Outside P text) :
    Outside Q text := by
  induction h with
  | nil => exact .nil
  | plain hmark hc tail ih => exact .plain hmark (hPQ _ hc) ih
  | literal hmark hbody tail ih => exact .literal hmark hbody ih

/-- Two texts whose quotes are closed can be joined. -/
theorem append {left right : List Char} (hleft : Outside P left) (hright : Outside P right) :
    Outside P (left ++ right) := by
  induction hleft with
  | nil => exact hright
  | plain hmark hc tail ih => exact .plain hmark hc ih
  | literal hmark hbody tail ih =>
      rw [List.cons_append, List.append_assoc, List.cons_append]
      exact .literal hmark hbody ih

/-- Without a mark everything is outside. -/
theorem of_forall {text : List Char}
    (h : ∀ c ∈ text, Reserved.isQuoteMark c = false ∧ P c) : Outside P text := by
  induction text with
  | nil => exact .nil
  | cons c text ih =>
      obtain ⟨hmark, hc⟩ := h c List.mem_cons_self
      exact .plain hmark hc (ih fun d hd => h d (List.mem_cons_of_mem c hd))

/-- **A sign that does not occur outside of literals ends a text in one way only.** -/
theorem append_cons_inj {stop : Char} (hstop : Reserved.isQuoteMark stop = false)
    {left right rest rest' : List Char} (hleft : Outside (· ≠ stop) left)
    (hright : Outside (· ≠ stop) right) (h : left ++ stop :: rest = right ++ stop :: rest') :
    left = right ∧ rest = rest' := by
  induction hleft generalizing right with
  | nil =>
      cases hright with
      | nil => exact ⟨rfl, (List.cons.inj h).2⟩
      | plain hmark hc tail => exact absurd (List.cons.inj h).1.symm hc
      | literal hmark hbody tail =>
          rw [← (List.cons.inj h).1, hstop] at hmark
          cases hmark
  | plain hmark hc tail ih =>
      cases hright with
      | nil => exact absurd (List.cons.inj h).1 hc
      | plain hmark' hc' tail' =>
          obtain ⟨rfl, hrest⟩ := List.cons.inj h
          obtain ⟨rfl, hsame⟩ := ih tail' hrest
          exact ⟨rfl, hsame⟩
      | literal hmark' hbody tail' =>
          rw [(List.cons.inj h).1, hmark'] at hmark
          cases hmark
  | @literal mark body text hmark hbody tail ih =>
      cases hright with
      | nil =>
          rw [(List.cons.inj h).1, hstop] at hmark
          cases hmark
      | plain hmark' hc' tail' =>
          rw [← (List.cons.inj h).1, hmark] at hmark'
          cases hmark'
      | literal hmark' hbody' tail' =>
          simp only [List.cons_append, List.append_assoc, List.cons.injEq] at h
          obtain ⟨rfl, h⟩ := h
          obtain ⟨rfl, hrest⟩ := append_mark_inj hbody hbody' h
          obtain ⟨rfl, hsame⟩ := ih tail' hrest
          exact ⟨rfl, hsame⟩

/-! ### Blanks at the two ends -/

/-- What stands in front without a mark can be taken away. -/
theorem of_append_left {left text : List Char}
    (hleft : ∀ c ∈ left, Reserved.isQuoteMark c = false) (h : Outside P (left ++ text)) :
    Outside P text := by
  induction left with
  | nil => exact h
  | cons c left ih =>
      have hc := hleft c List.mem_cons_self
      apply ih fun d hd => hleft d (List.mem_cons_of_mem c hd)
      generalize hwhole : c :: left ++ text = whole at h
      cases h with
      | nil => cases hwhole
      | plain hmark hp tail =>
          cases hwhole
          exact tail
      | literal hmark hbody tail =>
          rw [← (List.cons.inj hwhole).1, hc] at hmark
          cases hmark

/-- So can what stands behind. -/
theorem of_append_right {text right : List Char}
    (hright : ∀ c ∈ right, Reserved.isQuoteMark c = false) (h : Outside P (text ++ right)) :
    Outside P text := by
  generalize hwhole : text ++ right = whole at h
  induction h generalizing text with
  | nil =>
      rw [(List.append_eq_nil_iff.mp hwhole).1]
      exact .nil
  | plain hmark hc tail ih =>
      cases text with
      | nil => exact .nil
      | cons d text =>
          obtain ⟨rfl, hrest⟩ := List.cons.inj hwhole
          exact .plain hmark hc (ih hrest)
  | @literal mark body rest hmark hbody tail ih =>
      -- The closing mark does not stand among the last characters, so it is in `text`.
      have hnone : mark ∉ right := by
        intro hmem
        rw [hright mark hmem] at hmark
        cases hmark
      cases text with
      | nil =>
          rw [List.nil_append] at hwhole
          exact absurd (hwhole ▸ List.mem_cons_self) hnone
      | cons d text =>
          obtain ⟨rfl, hrest⟩ := List.cons.inj hwhole
          rcases List.append_eq_append_iff.mp hrest with ⟨more, rfl, hmore⟩ | ⟨more, rfl, hmore⟩
          · exact absurd (by simp [hmore]) hnone
          · cases more with
            | nil =>
                rw [List.nil_append] at hmore
                exact absurd (hmore ▸ List.mem_cons_self) hnone
            | cons e more =>
                obtain ⟨rfl, hbehind⟩ := List.cons.inj hmore
                exact .literal hmark hbody (ih hbehind.symm)

end Outside

/-- No blank is a mark. -/
theorem isQuoteMark_of_isBlank {c : Char} (h : isBlank c = true) :
    Reserved.isQuoteMark c = false := by
  cases hmark : Reserved.isQuoteMark c with
  | false => rfl
  | true =>
      rw [(Lexeme.isSign_iff.mp (Lexeme.isSign_of_isQuoteMark hmark)).2.2] at h
      cases h

/-- Trimming keeps the quotes closed. -/
theorem Outside.trim {P : Char → Prop} {text : List Char} (h : Outside P text) :
    Outside P (trim text) := by
  obtain ⟨left, right, htext, hleft, hright⟩ := exists_blanks_trim text
  rw [htext] at h
  have hfront := h.of_append_right fun c hc => isQuoteMark_of_isBlank (hright c hc)
  exact hfront.of_append_left fun c hc => isQuoteMark_of_isBlank (hleft c hc)

end Text

/-! ### The written forms of tokens -/

namespace Lexeme

/-- A word is a keyword, an operator or a name. -/
theorem IsWordKind.cases {word : String} {kind : Kind} (h : IsWordKind word kind) :
    kind = .keyword ∨ kind = .operator ∨ kind = .identifier := by
  by_cases hkeyword : kind = .keyword
  · exact .inl hkeyword
  · by_cases hoperator : kind = .operator
    · exact .inr (.inl hoperator)
    · exact .inr (.inr (h.identifier hkeyword hoperator))

/-- A number is an integer or a fraction. -/
theorem kind_numeral (numeral : Number.Numeral) :
    (numeralValue numeral).1 = .integer ∨ (numeralValue numeral).1 = .float := by
  cases numeral with
  | whole n =>
      by_cases hn : n < integerLimit
      · simp [numeralValue, hn]
      · simp [numeralValue, hn]
  | fractional digits places => exact .inr rfl

/-- A size is written with digits and points only. -/
theorem all_isNumberPart_plain (m : Number.Magnitude) : All isNumberPart m.plain := by
  intro c hc
  have hparts := (Number.positional_parts (Number.digits_digitsOf _)
    (Number.digitsOf_ne_nil _) _).2 c hc
  simpa [isNumberPart] using hparts

/-- A number is written with digits and points only, unless it is too large. -/
theorem display_numeral (numeral : Number.Numeral) :
    (numeralValue numeral).2.display = "Infinity" ∨
      All isNumberPart (numeralValue numeral).2.display.toList := by
  have hfloat : ∀ num den,
      (Value.float (Number.Binary64.nearest false num den)).display = "Infinity" ∨
        All isNumberPart (Value.float (Number.Binary64.nearest false num den)).display.toList := by
    intro num den
    unfold Number.Binary64.nearest
    split
    · refine .inr ?_
      simpa [Value.display, Number.Binary64.plain, Number.signed] using all_isNumberPart_plain _
    · exact .inl rfl
  cases numeral with
  | fractional digits places => exact hfloat _ _
  | whole n =>
      by_cases hlimit : n < integerLimit
      · refine .inr ?_
        intro c hc
        simp only [numeralValue, if_pos hlimit, Number.display_integer, String.toList_ofList] at hc
        simp [isNumberPart, Number.digits_digitsOf n c hc]
      · simp only [numeralValue, if_neg hlimit]
        exact hfloat _ _

/-- The characters of words, numbers and operators. -/
def isInk (c : Char) : Bool := isWordPart c || c = '.' || operatorSigns.contains c

/-- What is part of a word is ink. -/
theorem isInk_of_isWordPart {c : Char} (h : isWordPart c = true) : isInk c = true := by
  simp [isInk, h]

/-- So is what is part of a number. -/
theorem isInk_of_isNumberPart {c : Char} (h : isNumberPart c = true) : isInk c = true := by
  rcases Bool.or_eq_true_iff.mp h with hdigit | hpoint
  · exact isInk_of_isWordPart (by simp [isWordPart, Char.isAlphanum, hdigit])
  · simp [isInk, of_decide_eq_true hpoint]

/-- So is the sign of an operator. -/
theorem isInk_of_mem_operatorSigns {c : Char} (h : c ∈ operatorSigns) : isInk c = true := by
  simp [isInk, h]

/-- None of these is blank, a mark, a bracket or the end of a statement. -/
theorem not_isInk {c : Char}
    (h : Text.isBlank c = true ∨
      c ∈ Reserved.endOfStatement :: (Reserved.quoteMarks ++ Reserved.brackets)) :
    isInk c = false := by
  rcases h with hblank | hmem
  · have hword : isWordPart c = false := by
      cases hpart : isWordPart c with
      | false => rfl
      | true => exact absurd hblank (by simp [isBlank_eq_false_of_isWordPart hpart])
    have hpoint : c ≠ '.' := by
      rintro rfl
      exact absurd hblank (by decide)
    have hsign : c ∉ operatorSigns := by
      intro hsign
      exact absurd hblank (by simp [(isSign_iff.mp (isSign_of_mem_operatorSigns hsign).1).2.2])
    simp [isInk, hword, hpoint, hsign]
  · have hall : ((Reserved.endOfStatement :: (Reserved.quoteMarks ++ Reserved.brackets)).all
        fun d => !isInk d) = true := by
      decide
    simpa using List.all_eq_true.mp hall c hmem

end Lexeme

namespace Expression

open Lexeme

/-- What is known of a character that a token is written with, if the token is no
literal. -/
structure IsPlain (t : Token) (c : Char) : Prop where
  notMark : Reserved.isQuoteMark c = false
  notBlank : Text.isBlank c = false
  terminator : c = Reserved.endOfStatement → t.kind = .endOfStatement
  bracket : Reserved.isBracket c = true →
    t.kind = .bracket ∧ t.value = .text (String.ofList [c])

/-- Ink is plain in any token. -/
theorem isPlain_of_isInk {t : Token} {c : Char} (h : isInk c = true) : IsPlain t c := by
  have hother : ¬ (Text.isBlank c = true ∨
      c ∈ Reserved.endOfStatement :: (Reserved.quoteMarks ++ Reserved.brackets)) := by
    intro hother
    rw [not_isInk hother] at h
    cases h
  have hmark : Reserved.isQuoteMark c ≠ true := by
    intro hmark
    have hmem : c ∈ Reserved.quoteMarks := List.contains_iff_mem.mp hmark
    exact hother (.inr (by simp [hmem]))
  refine ⟨by simpa using hmark, by simpa using fun hblank => hother (.inl hblank), ?_, ?_⟩
  · intro hterminator
    exact absurd (.inr (by simp [hterminator])) hother
  · intro hbracket
    have hmem : c ∈ Reserved.brackets := List.contains_iff_mem.mp hbracket
    exact absurd (.inr (by simp [hmem])) hother

/-- A literal as it is written. -/
def IsLiteral (text : List Char) : Prop :=
  ∃ mark body, mark ∈ Reserved.quoteMarks ∧ mark ∉ body ∧ text = mark :: (body ++ [mark])

/-- In a literal nothing is outside. -/
theorem IsLiteral.outside {P : Char → Prop} {text : List Char} (h : IsLiteral text) :
    Text.Outside P text := by
  obtain ⟨mark, body, hmark, hbody, rfl⟩ := h
  exact .literal (List.contains_iff_mem.mpr hmark) hbody .nil

/-- **A token is written as one literal or without marks and blanks.** -/
theorem Scanned.literal_or_plain {t : Token} (h : Scanned t) :
    (t.kind = .string ∧ IsLiteral t.value.display.toList) ∨
      (t.kind ≠ .string ∧ ∀ c ∈ t.value.display.toList, IsPlain t c) := by
  obtain ⟨kind, value, span⟩ := t
  obtain ⟨text, lexeme, hmunch⟩ := h
  simp only at hmunch ⊢
  cases hmunch with
  | literal hmark hbody hlexeme hbegins =>
      exact .inl ⟨rfl, _, _, hmark, hbody, by rw [Value.display, String.toList_ofList, hlexeme]⟩
  | word hfirst hstart hlexeme hkind =>
      refine .inr ⟨?_, ?_⟩
      · rcases hkind.cases with rfl | rfl | rfl <;> simp
      · intro c hc
        rw [Value.display, String.toList_ofList] at hc
        exact isPlain_of_isInk (isInk_of_isWordPart (hlexeme.holds c hc))
  | @number first numeral hfirst hstart hlexeme hread =>
      refine .inr ⟨?_, ?_⟩
      · rcases kind_numeral numeral with hkind | hkind <;> simp [hkind]
      · intro c hc
        apply isPlain_of_isInk
        rcases display_numeral numeral with hword | hparts
        · rw [hword] at hc
          have hall : "Infinity".toList.all isInk = true := by decide
          exact List.all_eq_true.mp hall c hc
        · exact isInk_of_isNumberPart (hparts c hc)
  | symbol hfirst hstart hlexeme =>
      refine .inr ⟨by simp, ?_⟩
      intro c hc
      rw [Value.display, String.toList_ofList] at hc
      have hsymbol := isSymbolOperator_iff.mpr hlexeme.holds
      exact isPlain_of_isInk (isInk_of_mem_operatorSigns (mem_operatorSigns hsymbol hc))
  | @bracket b hbracket hlexeme hbegins =>
      refine .inr ⟨by simp, ?_⟩
      intro c hc
      rw [Value.display, String.toList_ofList, hlexeme, List.mem_singleton] at hc
      subst hc
      have hb : Reserved.isBracket c = true := List.contains_iff_mem.mpr hbracket
      obtain ⟨hsign, hmark, -⟩ := isSign_of_isBracket hb
      refine ⟨hmark, (isSign_iff.mp hsign).2.2, ?_, fun _ => ⟨rfl, by rw [hlexeme]⟩⟩
      rintro rfl
      exact absurd hb (by decide)
  | terminator hlexeme hbegins =>
      refine .inr ⟨by simp, ?_⟩
      intro c hc
      rw [Value.display, String.toList_ofList, hlexeme, List.mem_singleton] at hc
      subst hc
      exact ⟨by decide, by decide, fun _ => rfl, fun hb => absurd hb (by decide)⟩

/-- A token is not written with a blank in front. -/
theorem Scanned.exists_cons {t : Token} (h : Scanned t) :
    ∃ c more, t.value.display.toList = c :: more ∧ Text.isBlank c = false := by
  obtain ⟨text, lexeme, hmunch⟩ := h
  obtain ⟨c, more, hcons, hblank, -⟩ := exists_cons_of_stands hmunch.stands
  exact ⟨c, more, hcons, hblank⟩

/-! ### Expressions -/

/-- The sign that ends an expression. -/
def stopSign : Context → Char
  | .declaration => Reserved.endOfStatement
  | .condition => '\x7b'

/-- Whether a token ends an expression. -/
def endsAt : Context → Token → Bool
  | .declaration => Parser.endsStatement
  | .condition => Token.opensBlock

/-- The character is neither a line feed nor the sign that ends the expression. -/
def Inner (context : Context) (c : Char) : Prop := c ≠ stopSign context ∧ c ≠ '\n'

/-- Ink neither ends the expression nor breaks the line. -/
theorem inner_of_isInk {context : Context} {c : Char} (h : isInk c = true) : Inner context c := by
  refine ⟨?_, ?_⟩
  · rintro rfl
    cases context <;> exact absurd h (by decide)
  · rintro rfl
    exact absurd h (by decide)

/-- A token that does not end the expression is written without the sign that does. -/
theorem Scanned.outside {context : Context} {t : Token} (h : Scanned t)
    (hends : endsAt context t = false) :
    Text.Outside (Inner context) t.value.display.toList := by
  rcases h.literal_or_plain with ⟨-, hliteral⟩ | ⟨-, hplain⟩
  · exact hliteral.outside
  · apply Text.Outside.of_forall
    intro c hc
    have hp := hplain c hc
    refine ⟨hp.notMark, ?_, ?_⟩
    · rintro rfl
      cases context with
      | declaration =>
          have hkind := hp.terminator rfl
          simp [endsAt, Parser.endsStatement, hkind] at hends
      | condition =>
          obtain ⟨hkind, hvalue⟩ := hp.bracket rfl
          have hopen : String.ofList ['\x7b'] = Reserved.blockOpen := rfl
          simp [endsAt, Token.opensBlock, Token.isText, Token.text?, hkind, hvalue, stopSign,
            hopen] at hends
    · rintro rfl
      exact absurd hp.notBlank (by decide)

/-- What a word is lowered to is ink. -/
theorem IsLowered.all_isInk {text : String} (h : IsLowered text) : All isInk text.toList := by
  have hall : (Reserved.symbolOperators.all fun s => s.toList.all isInk) = true := by decide
  rcases h with hsymbol | rfl | rfl
  · exact List.all_eq_true.mp (List.all_eq_true.mp hall text hsymbol)
  · exact List.all_eq_true.mp (by decide)
  · exact List.all_eq_true.mp (by decide)

/-- No sign that ends the expression is outside in what is written for its tokens. -/
theorem outside_written {context : Context} {row : List Token}
    (h : ∀ t ∈ row, Scanned t ∧ endsAt context t = false) :
    Text.Outside (Inner context) (written (parts context row)) := by
  induction row with
  | nil => exact .nil
  | cons t rest ih =>
      obtain ⟨hscanned, hends⟩ := h t List.mem_cons_self
      refine .append ?_ (ih fun u hu => h u (List.mem_cons_of_mem t hu))
      rcases part_cases context t rest.head? with hpart | ⟨text, hpart, hlowered⟩
      · rw [hpart]
        exact hscanned.outside hends
      · rw [hpart]
        apply Text.Outside.of_forall
        intro c hc
        have hcases : c = ' ' ∨ isInk c = true := by
          simp only [Part.written, if_true, List.mem_cons, List.mem_append, List.not_mem_nil,
            or_false] at hc
          rcases hc with hc | hc | hc
          · exact .inl hc
          · exact .inr (hlowered.all_isInk c hc)
          · exact .inl hc
        rcases hcases with rfl | hink
        · refine ⟨by decide, ?_, by decide⟩
          cases context <;> decide
        · exact ⟨(isPlain_of_isInk (t := t) hink).notMark, inner_of_isInk hink⟩

/-- **Outside of its literals an expression holds neither a line feed nor the sign
that ends it.** -/
theorem outside_of_lowers {context : Context} {row : List Token} {text : String}
    (hrow : ∀ t ∈ row, Scanned t ∧ endsAt context t = false)
    (htext : Parser.Lowers context row text) : Text.Outside (Inner context) text.toList := by
  rw [toList_of_lowers htext]
  exact (outside_written hrow).trim

/-! ### Words with a space behind them -/

/-- A lowered word begins with an operator sign or as a truth value does. -/
theorem IsLowered.head {text : String} {c : Char} {more : List Char} (h : IsLowered text)
    (hcons : text.toList = c :: more) (hletter : isWordStart c = true) : c = 't' ∨ c = 'f' := by
  rcases h with hsymbol | rfl | rfl
  · have hoperator : Reserved.isSymbolOperator text.toList = true :=
      isSymbolOperator_iff.mpr (by rwa [String.ofList_toList])
    have hsign := mem_operatorSigns hoperator (by rw [hcons]; exact List.mem_cons_self)
    rw [(isSign_iff.mp (isSign_of_mem_operatorSigns hsign).1).1] at hletter
    cases hletter
  · cases hcons
    exact .inl rfl
  · cases hcons
    exact .inr rfl

/-- A token that begins like a word is no literal, and is written without a space. -/
theorem Scanned.space_not_mem {t : Token} (h : Scanned t) {c : Char} {more : List Char}
    (hcons : t.value.display.toList = c :: more) (hc : isWordPart c = true) :
    ' ' ∉ t.value.display.toList := by
  intro hspace
  rcases h.literal_or_plain with ⟨-, mark, body, hmark, -, htext⟩ | ⟨-, hplain⟩
  · rw [htext] at hcons
    have hnot : isInk mark = false := not_isInk (.inr (by simp [hmark]))
    rw [(List.cons.inj hcons).1, isInk_of_isWordPart hc] at hnot
    cases hnot
  · exact absurd (hplain _ hspace).notBlank (by decide)

/-- What is written of a row does not begin with a word, a space and a letter that
no lowered word begins with: the space would be that of a lowered word, either in
front of it or behind it. -/
theorem written_ne_word_space {context : Context} {row : List Token}
    (hrow : ∀ t ∈ row, Scanned t) {c : Char} (hletter : isWordStart c = true)
    (hc : c ≠ 't' ∧ c ≠ 'f') {word rest : List Char} (hword : All isWordPart word) :
    written (parts context row) ≠ word ++ ' ' :: c :: rest := by
  induction row generalizing word with
  | nil => simp [parts]
  | cons t row ih =>
      intro h
      have hrest : ∀ u ∈ row, Scanned u := fun u hu => hrow u (List.mem_cons_of_mem t hu)
      rw [parts, written_cons] at h
      rcases part_cases context t row.head? with hpart | ⟨text, hpart, hlowered⟩
      · rw [hpart] at h
        simp only [Part.written, Bool.false_eq_true, if_false] at h
        have hscanned := hrow t List.mem_cons_self
        obtain ⟨first, more, hcons, hblank⟩ := hscanned.exists_cons
        cases word with
        | nil =>
            rw [hcons] at h
            rw [(List.cons.inj h).1] at hblank
            exact absurd hblank (by decide)
        | cons d word =>
            -- The token begins like the word, so it ends before the space.
            have hnone : ' ' ∉ t.value.display.toList := by
              have hsame : first = d := by
                rw [hcons] at h
                exact (List.cons.inj h).1
              exact hscanned.space_not_mem hcons (hsame ▸ hword d List.mem_cons_self)
            rcases List.append_eq_append_iff.mp h with
              ⟨tail, htail, hbehind⟩ | ⟨tail, htail, hbehind⟩
            · refine ih hrest ?_ hbehind
              intro e he
              exact hword e (by rw [htail]; exact List.mem_append_right _ he)
            · have hnil : All isWordPart [] := by simp [All]
              cases tail with
              | nil => exact ih hrest hnil hbehind.symm
              | cons e tail =>
                  rw [List.cons_append, List.cons.injEq] at hbehind
                  exact hnone (by rw [htail, ← hbehind.1]; simp)
      · rw [hpart] at h
        simp only [Part.written, if_true, List.cons_append] at h
        cases word with
        | cons d word =>
            have hd := hword d List.mem_cons_self
            rw [← (List.cons.inj h).1] at hd
            exact absurd hd (by decide)
        | nil =>
            obtain ⟨first, more, hcons, -, -⟩ :=
              exists_cons_of_stands hlowered.sound.stands
            rw [hcons] at h
            simp only [List.nil_append, List.cons_append, List.cons.injEq, true_and] at h
            rw [h.1] at hcons
            rcases hlowered.head hcons hletter with ht | hf
            · exact hc.1 ht
            · exact hc.2 hf

/-- Dropping the blanks in front of what is written drops the space of the first
part at most. -/
theorem trimStart_written {context : Context} {t : Token} {rest : List Token}
    (h : Scanned t) :
    Text.trimStart (written (parts context (t :: rest))) = written (parts context (t :: rest)) ∨
      ∃ text more, IsLowered text ∧
        Text.trimStart (written (parts context (t :: rest))) = text.toList ++ more := by
  rw [parts, written_cons]
  rcases part_cases context t rest.head? with hpart | ⟨text, hpart, hlowered⟩
  · obtain ⟨first, more, hcons, hblank⟩ := h.exists_cons
    rw [hpart]
    refine .inl ?_
    simp [Part.written, hcons, Text.trimStart, hblank]
  · obtain ⟨first, more, hcons, hblank, -⟩ :=
      exists_cons_of_stands hlowered.sound.stands
    have hspace : Text.isBlank ' ' = true := by decide
    rw [hpart]
    refine .inr ⟨text, ' ' :: written (parts context rest), hlowered, ?_⟩
    simp [Part.written, hcons, Text.trimStart, hblank, hspace]

/-- **No expression begins like the reading of a line.** -/
theorem not_awaits_of_lowers {context : Context} {row : List Token} {text : String}
    (hrow : ∀ t ∈ row, Scanned t) (htext : Parser.Lowers context row text) :
    ¬ "await r".toList <+: text.toList := by
  intro hbegins
  have hfront : text.toList <+: Text.trimStart (written (parts context row)) := by
    rw [toList_of_lowers htext, Text.trim]
    exact ⟨_, Text.trimEnd_append_blanks _⟩
  obtain ⟨rest, hrest⟩ := hbegins.trans hfront
  cases row with
  | nil => simp [parts, Text.trimStart] at hrest
  | cons t row =>
      rcases trimStart_written (hrow t List.mem_cons_self) with hwhole |
          ⟨lowered, more, hlowered, hwhole⟩
      · rw [hwhole] at hrest
        have hword : All isWordPart "await".toList := List.all_eq_true.mp (by decide)
        exact written_ne_word_space hrow (c := 'r') (by decide) (by decide) hword hrest.symm
      · obtain ⟨first, others, hcons, -, -⟩ :=
          exists_cons_of_stands hlowered.sound.stands
        rw [hwhole, hcons] at hrest
        have hfirst : first = 'a' := ((List.cons.inj hrest).1).symm
        rw [hfirst] at hcons
        rcases hlowered.head hcons (by decide) with ht | hf
        · cases ht
        · cases hf

end Expression

end SochoScript
