import SochoScript.Token.Scan

/-!
# Maximal munch

The forms of lexemes, described without saying how they are cut.  A word, a
number and an operator are the *longest* beginning of the text that belongs to
their class, a literal is the beginning up to the next mark of its own kind, and
a bracket and the end of a statement are single characters.

`Munch text lexeme kind value` says that `text` begins with `lexeme` in this
sense, and that the token it stands for has the given kind and value.  No rule
looks at the other rules: which of them applies is settled by the first
character, because the classes of first characters have nothing in common.

* `Longest.unique`: there is one longest beginning at most.
* `longest_growSymbol`: adding sign after sign finds the longest operator.  It
  could stop too early only if some operator had a beginning that is none, and
  the table has no such operator.
* `Munch.exists_cut`, `Fault.exists_cut`: what the rules allow is what is cut.
* `munch_or_nothing_or_fault`: a text that does not begin with a blank begins with
  a token, with a character that begins nothing, or with a fault.
* `scan_induction`: induction on a text along these beginnings.

The last section turns this into one equation for each step of a scan, and no
later module looks at the cutting again.
-/

namespace SochoScript

namespace Lexeme

/-- The longest beginning of `text` that has the property `P`. -/
structure Longest (P : List Char → Prop) (text lexeme : List Char) : Prop where
  begins : lexeme <+: text
  holds : P lexeme
  longest : ∀ other, other <+: text → P other → other.length ≤ lexeme.length

/-- There is one longest beginning at most. -/
theorem Longest.unique {P : List Char → Prop} {text left right : List Char}
    (hleft : Longest P text left) (hright : Longest P text right) : left = right := by
  have hle : left.length ≤ right.length := hright.longest left hleft.begins hleft.holds
  have hge : right.length ≤ left.length := hleft.longest right hright.begins hright.holds
  have hbegins : left <+: right := List.prefix_of_prefix_length_le hleft.begins hright.begins hle
  exact hbegins.eq_of_length_le hge

/-- All characters of a text are in a class. -/
def All (p : Char → Bool) (text : List Char) : Prop := ∀ c ∈ text, p c = true

/-- The longest beginning with characters of one class. -/
theorem longest_takeWhile (p : Char → Bool) (text : List Char) :
    Longest (All p) text (text.takeWhile p) := by
  refine ⟨List.takeWhile_prefix p, ?_, ?_⟩
  · intro c hc
    exact List.all_eq_true.mp List.all_takeWhile c hc
  · intro other hother hall
    obtain ⟨more, rfl⟩ := hother
    rw [List.takeWhile_append_of_pos hall]
    simp

/-! ### Operators -/

/-- A symbol operator is one of the table. -/
theorem isSymbolOperator_iff {text : List Char} :
    Reserved.isSymbolOperator text = true ↔ String.ofList text ∈ Reserved.symbolOperators := by
  simp only [Reserved.isSymbolOperator, List.any_eq_true, decide_eq_true_eq]
  apply Iff.intro
  · intro h
    obtain ⟨operator, hmem, rfl⟩ := h
    simpa using hmem
  · intro h
    exact ⟨_, h, String.toList_ofList⟩

/-- A beginning of an operator is an operator. -/
theorem isSymbolOperator_of_begins {text longer : List Char} (hne : text ≠ [])
    (hbegins : text <+: longer) (hlonger : Reserved.isSymbolOperator longer = true) :
    Reserved.isSymbolOperator text = true := by
  simp only [Reserved.isSymbolOperator, List.any_eq_true, decide_eq_true_eq] at hlonger
  obtain ⟨operator, hmem, rfl⟩ := hlonger
  have hlength := hbegins.length_le
  have hpos : 0 < text.length := List.length_pos_iff.mpr hne
  have hinitial := Reserved.symbolOperators_initial operator hmem (text.length - 1)
    (List.mem_range.mpr (by omega))
  have htake : operator.toList.take (text.length - 1 + 1) = text := by
    rw [Nat.sub_add_cancel hpos]
    exact (List.prefix_iff_eq_take.mp hbegins).symm
  rwa [htake] at hinitial

/-- Growing an operator gives an operator, and it stops where one more sign would
not. -/
theorem growSymbol_stops {taken : List Char} (h : Reserved.isSymbolOperator taken = true)
    (cs : List Char) :
    Reserved.isSymbolOperator (taken ++ (growSymbol taken cs).1) = true ∧
      ∀ c ∈ (growSymbol taken cs).2.head?,
        Reserved.isSymbolOperator (taken ++ (growSymbol taken cs).1 ++ [c]) = false := by
  induction cs generalizing taken with
  | nil => simpa [growSymbol] using h
  | cons c cs ih =>
      unfold growSymbol
      by_cases hgrows : Reserved.isSymbolOperator (taken ++ [c]) = true
      · have hmore := ih hgrows
        simp only [if_pos hgrows]
        simpa using hmore
      · simp only [if_neg hgrows]
        refine ⟨by simpa using h, ?_⟩
        intro d hd
        cases hd
        simpa using hgrows

/-- An operator that no further sign extends is the longest one that a text
begins with. -/
theorem longest_of_stops {found rest : List Char}
    (hfound : Reserved.isSymbolOperator found = true)
    (hstops : ∀ c ∈ rest.head?, Reserved.isSymbolOperator (found ++ [c]) = false) :
    Longest (fun text => String.ofList text ∈ Reserved.symbolOperators) (found ++ rest) found := by
  refine ⟨List.prefix_append found rest, isSymbolOperator_iff.mp hfound, ?_⟩
  intro other hother hmem
  by_cases hle : other.length ≤ found.length
  · exact hle
  · cases rest with
    | nil =>
        rw [List.append_nil] at hother
        exact hother.length_le
    | cons c rest =>
        -- A longer operator would begin with the one found and the next sign.
        have hnext : found ++ [c] <+: found ++ c :: rest := ⟨rest, by simp⟩
        have hbegins : found ++ [c] <+: other :=
          List.prefix_of_prefix_length_le hnext hother (by simp; omega)
        have hgrows := isSymbolOperator_of_begins (by simp) hbegins (isSymbolOperator_iff.mpr hmem)
        rw [hstops c rfl] at hgrows
        cases hgrows

/-- **Adding sign after sign finds the longest operator.** -/
theorem longest_growSymbol {c : Char} (h : Reserved.isSymbolOperator [c] = true)
    (cs : List Char) :
    Longest (fun text => String.ofList text ∈ Reserved.symbolOperators) (c :: cs)
      (c :: (growSymbol [c] cs).1) := by
  have happend : c :: cs = c :: (growSymbol [c] cs).1 ++ (growSymbol [c] cs).2 := by
    rw [List.cons_append, growSymbol_append]
  obtain ⟨hoperator, hstops⟩ := growSymbol_stops h cs
  rw [happend]
  exact longest_of_stops hoperator hstops

/-! ### Classes of first characters -/

/-- What can begin a word can be in it. -/
theorem isWordPart_of_isWordStart {c : Char} (h : isWordStart c = true) : isWordPart c = true := by
  simp only [isWordStart, isWordPart, Char.isAlphanum, Bool.or_eq_true] at h ⊢
  rcases h with h | h
  · exact .inl (.inl h)
  · exact .inr h

/-- The digits by their numbers. -/
theorem isDigit_iff {c : Char} : c.isDigit = true ↔ 48 ≤ c.toNat ∧ c.toNat ≤ 57 := by
  simp [Char.isDigit, UInt32.le_iff_toNat_le]

/-- The letters and the underscore by their numbers. -/
theorem isWordStart_iff {c : Char} :
    isWordStart c = true ↔
      (65 ≤ c.toNat ∧ c.toNat ≤ 90) ∨ (97 ≤ c.toNat ∧ c.toNat ≤ 122) ∨ c.toNat = 95 := by
  have hunderscore : c = '_' ↔ c.toNat = 95 := by
    rw [← Char.toNat_inj]
    rfl
  have hupper : c.isUpper = decide (65 ≤ c.val ∧ c.val ≤ 90) := rfl
  have hlower : c.isLower = (decide (97 ≤ c.val) && decide (c.val ≤ 122)) := rfl
  have halpha : c.isAlpha = (c.isUpper || c.isLower) := rfl
  simp [isWordStart, halpha, hupper, hlower, UInt32.le_iff_toNat_le, hunderscore, or_assoc]

/-- The blanks by their numbers. -/
theorem isBlank_iff {c : Char} :
    Text.isBlank c = true ↔
      ∃ range ∈ Text.blankRanges, range.1 ≤ c.toNat ∧ c.toNat ≤ range.2 := by
  simp [Text.isBlank, Text.inRanges]

/-- No digit begins a word. -/
theorem isWordStart_eq_false_of_isDigit {c : Char} (h : c.isDigit = true) :
    isWordStart c = false := by
  rw [isDigit_iff] at h
  rw [← Bool.not_eq_true, isWordStart_iff]
  omega

/-- A letter, an underscore or a digit is not blank. -/
theorem isBlank_eq_false_of_isWordPart {c : Char} (h : isWordPart c = true) :
    Text.isBlank c = false := by
  have hcode : isWordStart c = true ∨ c.isDigit = true := by
    simp only [isWordPart, Char.isAlphanum, isWordStart, Bool.or_eq_true] at h ⊢
    rcases h with (h | h) | h
    · exact .inl (.inl h)
    · exact .inr h
    · exact .inl (.inr h)
  rw [isWordStart_iff, isDigit_iff] at hcode
  rw [← Bool.not_eq_true, isBlank_iff]
  simp only [Text.blankRanges, List.mem_cons, List.not_mem_nil, or_false, exists_eq_or_imp,
    exists_eq_left]
  omega

/-- No digit is blank. -/
theorem isBlank_eq_false_of_isDigit {c : Char} (h : c.isDigit = true) :
    Text.isBlank c = false := by
  apply isBlank_eq_false_of_isWordPart
  simp [isWordPart, Char.isAlphanum, h]

/-- The signs that begin an operator. -/
def operatorSigns : List Char := ['=', '!', '<', '>', '+', '-', '*', '/', '%', '&', '|']

/-- Operators are made of these signs only. -/
theorem symbolOperators_signs :
    (Reserved.symbolOperators.all fun operator =>
      operator.toList.all fun c => operatorSigns.contains c) = true := by
  decide

/-- An operator is made of the signs of operators. -/
theorem mem_operatorSigns {c : Char} {text : List Char}
    (h : Reserved.isSymbolOperator text = true) (hc : c ∈ text) : c ∈ operatorSigns := by
  rw [isSymbolOperator_iff] at h
  have hsigns := List.all_eq_true.mp symbolOperators_signs _ h
  rw [String.toList_ofList] at hsigns
  exact List.contains_iff_mem.mp (List.all_eq_true.mp hsigns c hc)

/-- The class of a first character that is neither a letter nor a digit. -/
def isSign (c : Char) : Bool :=
  !isWordStart c && !c.isDigit && !Text.isBlank c

/-- A sign begins no word and no number, and is not blank. -/
theorem isSign_iff {c : Char} :
    isSign c = true ↔ isWordStart c = false ∧ c.isDigit = false ∧ Text.isBlank c = false := by
  simp [isSign, and_assoc]

/-- A mark is a sign. -/
theorem isSign_of_isQuoteMark {c : Char} (h : Reserved.isQuoteMark c = true) :
    isSign c = true := by
  have hall : Reserved.quoteMarks.all isSign = true := by decide
  exact List.all_eq_true.mp hall c (List.contains_iff_mem.mp h)

/-- The sign of an operator is a sign and no mark. -/
theorem isSign_of_mem_operatorSigns {c : Char} (h : c ∈ operatorSigns) :
    isSign c = true ∧ Reserved.isQuoteMark c = false := by
  have hall : (operatorSigns.all fun c => isSign c && !Reserved.isQuoteMark c) = true := by
    decide
  have hc := List.all_eq_true.mp hall c h
  rwa [Bool.and_eq_true, Bool.not_eq_true'] at hc

/-- A bracket is a sign, and neither a mark nor an operator. -/
theorem isSign_of_isBracket {c : Char} (h : Reserved.isBracket c = true) :
    isSign c = true ∧ Reserved.isQuoteMark c = false ∧
      Reserved.isSymbolOperator [c] = false := by
  have hall : (Reserved.brackets.all fun c =>
      isSign c && (!Reserved.isQuoteMark c && !Reserved.isSymbolOperator [c])) = true := by
    decide
  have hc := List.all_eq_true.mp hall c (List.contains_iff_mem.mp h)
  rwa [Bool.and_eq_true, Bool.and_eq_true, Bool.not_eq_true', Bool.not_eq_true'] at hc

/-- The character is not blank and begins no token. -/
structure BeginsNothing (c : Char) : Prop where
  notBlank : Text.isBlank c = false
  notWord : isWordStart c = false
  notDigit : c.isDigit = false
  notQuote : Reserved.isQuoteMark c = false
  notSymbol : Reserved.isSymbolOperator [c] = false
  notBracket : Reserved.isBracket c = false
  notTerminator : c ≠ Reserved.endOfStatement

/-! ### How the first character decides -/

section

variable {c : Char} (cs : List Char)

/-- A letter or an underscore begins a word. -/
theorem cut_of_isWordStart (h : isWordStart c = true) :
    cut c cs = ⟨.word, (c :: cs).takeWhile isWordPart, (c :: cs).dropWhile isWordPart⟩ := by
  have hpart := isWordPart_of_isWordStart h
  simp [cut, h, hpart]

/-- A digit begins a number. -/
theorem cut_of_isDigit (h : c.isDigit = true) :
    cut c cs = ⟨.number, (c :: cs).takeWhile isNumberPart, (c :: cs).dropWhile isNumberPart⟩ := by
  have hstart := isWordStart_eq_false_of_isDigit h
  have hpart : isNumberPart c = true := by simp [isNumberPart, h]
  simp [cut, h, hstart, hpart]

/-- A mark begins a literal. -/
theorem cut_of_isQuoteMark (h : Reserved.isQuoteMark c = true) : cut c cs = cutLiteral c cs := by
  have hsign := isSign_of_isQuoteMark h
  simp only [isSign, Bool.and_eq_true, Bool.not_eq_true'] at hsign
  simp [cut, h, hsign]

/-- The sign of an operator begins an operator. -/
theorem cut_of_isSymbolOperator (h : Reserved.isSymbolOperator [c] = true) :
    cut c cs = ⟨.symbol, c :: (growSymbol [c] cs).1, (growSymbol [c] cs).2⟩ := by
  obtain ⟨hsign, hquote⟩ := isSign_of_mem_operatorSigns (mem_operatorSigns h List.mem_cons_self)
  simp only [isSign, Bool.and_eq_true, Bool.not_eq_true'] at hsign
  simp [cut, h, hsign, hquote]

/-- A bracket stands alone. -/
theorem cut_of_isBracket (h : Reserved.isBracket c = true) : cut c cs = ⟨.bracket, [c], cs⟩ := by
  obtain ⟨hsign, hquote, hsymbol⟩ := isSign_of_isBracket h
  simp only [isSign, Bool.and_eq_true, Bool.not_eq_true'] at hsign
  simp [cut, h, hsign, hquote, hsymbol]

/-- So does the end of a statement. -/
theorem cut_endOfStatement :
    cut Reserved.endOfStatement cs = ⟨.terminator, [Reserved.endOfStatement], cs⟩ := rfl

/-- So does a character that begins nothing. -/
theorem BeginsNothing.cut_eq (h : BeginsNothing c) : cut c cs = ⟨.unknown, [c], cs⟩ := by
  simp [cut, h.notWord, h.notDigit, h.notQuote, h.notSymbol, h.notBracket, h.notTerminator]

end

/-! ### The rules -/

/-- The kind of a word: a keyword if it is in the table of keywords, an operator
if it is in the table of word operators, and otherwise an identifier. -/
structure IsWordKind (word : String) (kind : Kind) : Prop where
  keyword : kind = .keyword ↔ word ∈ Keyword.all.map Keyword.spelling
  operator : kind = .operator ↔ word ∈ WordOperator.all.map WordOperator.spelling
  identifier : kind ≠ .keyword → kind ≠ .operator → kind = .identifier

/-- The text begins with a lexeme, which stands for a token of the given kind and
value. -/
inductive Munch (text lexeme : List Char) : Kind → Value → Prop
  | word {first : Char} {kind : Kind} (hfirst : text.head? = some first)
      (hstart : isWordStart first = true) (hlexeme : Longest (All isWordPart) text lexeme)
      (hkind : IsWordKind (String.ofList lexeme) kind) :
      Munch text lexeme kind (.text (String.ofList lexeme))
  | number {first : Char} {numeral : Number.Numeral} (hfirst : text.head? = some first)
      (hstart : first.isDigit = true) (hlexeme : Longest (All isNumberPart) text lexeme)
      (hread : Number.Numeral.read? lexeme = some numeral) :
      Munch text lexeme (numeralValue numeral).1 (numeralValue numeral).2
  | literal {mark : Char} {body : List Char} (hmark : mark ∈ Reserved.quoteMarks)
      (hbody : mark ∉ body) (hlexeme : lexeme = mark :: (body ++ [mark]))
      (hbegins : lexeme <+: text) : Munch text lexeme .string (.text (String.ofList lexeme))
  | symbol {first : Char} (hfirst : text.head? = some first)
      (hstart : String.ofList [first] ∈ Reserved.symbolOperators)
      (hlexeme : Longest (fun l => String.ofList l ∈ Reserved.symbolOperators) text lexeme) :
      Munch text lexeme .operator (.text (String.ofList lexeme))
  | bracket {c : Char} (hbracket : c ∈ Reserved.brackets) (hlexeme : lexeme = [c])
      (hbegins : lexeme <+: text) : Munch text lexeme .bracket (.text (String.ofList lexeme))
  | terminator (hlexeme : lexeme = [Reserved.endOfStatement]) (hbegins : lexeme <+: text) :
      Munch text lexeme .endOfStatement (.text (String.ofList lexeme))

/-- The text begins with something that ends the scan.  What was read of it is
`lexeme`, and the complaint only wants its place. -/
inductive Fault (policy : Policy) (text : List Char) : List Char → (Span → Diagnostic) → Prop
  | number {first : Char} {lexeme : List Char} (hfirst : text.head? = some first)
      (hstart : first.isDigit = true) (hlexeme : Longest (All isNumberPart) text lexeme)
      (hpoints : 2 ≤ lexeme.count '.') :
      Fault policy text lexeme (.invalidNumber (String.ofList lexeme))
  | literal {mark : Char} {body : List Char} (hmark : mark ∈ Reserved.quoteMarks)
      (htext : text = mark :: body) (hbody : mark ∉ body) :
      Fault policy text text (.unterminatedLiteral mark)
  | character {c : Char} {rest : List Char} (hpolicy : policy = .reject) (htext : text = c :: rest)
      (hc : BeginsNothing c) : Fault policy text [c] (.unexpectedCharacter c)

/-- No word is a keyword and an operator at once. -/
theorem keyword_not_operator :
    ∀ word ∈ Keyword.all.map Keyword.spelling,
      word ∉ WordOperator.all.map WordOperator.spelling := by
  decide

/-- Looking a word up in the two tables finds its kind. -/
theorem isWordKind_iff {word : String} {kind : Kind} :
    IsWordKind word kind ↔ kind = wordKind word := by
  have hkeyword : (Keyword.ofSpelling? word).isSome = true ↔
      word ∈ Keyword.all.map Keyword.spelling := by
    simp [Keyword.ofSpelling?]
  have hoperator : (WordOperator.ofSpelling? word).isSome = true ↔
      word ∈ WordOperator.all.map WordOperator.spelling := by
    simp [WordOperator.ofSpelling?]
  have hdisjoint := keyword_not_operator word
  simp only [wordKind, hkeyword, hoperator]
  apply Iff.intro
  · intro h
    by_cases hk : word ∈ Keyword.all.map Keyword.spelling
    · rw [if_pos hk]
      exact h.keyword.mpr hk
    · rw [if_neg hk]
      by_cases ho : word ∈ WordOperator.all.map WordOperator.spelling
      · rw [if_pos ho]
        exact h.operator.mpr ho
      · rw [if_neg ho]
        exact h.identifier (fun he => hk (h.keyword.mp he)) (fun he => ho (h.operator.mp he))
  · intro h
    by_cases hk : word ∈ Keyword.all.map Keyword.spelling
    · rw [if_pos hk] at h
      exact ⟨by simp [h, hk], by simp [h, hdisjoint hk], by simp [h]⟩
    · rw [if_neg hk] at h
      by_cases ho : word ∈ WordOperator.all.map WordOperator.spelling
      · rw [if_pos ho] at h
        exact ⟨by simp [h, hk], by simp [h, ho], by simp [h]⟩
      · rw [if_neg ho] at h
        exact ⟨by simp [h, hk], by simp [h, ho], by simp [h]⟩

/-! ### The rules and the cut -/

/-- A literal is cut at the next mark. -/
theorem cutLiteral_eq_literal {mark : Char} {body : List Char} (rest : List Char)
    (h : mark ∉ body) :
    cutLiteral mark (body ++ mark :: rest) =
      ⟨.literal mark, mark :: (body ++ [mark]), rest⟩ := by
  have hbody : ∀ c ∈ body, decide (c ≠ mark) = true := by
    intro c hc
    have hne : c ≠ mark := fun he => h (he ▸ hc)
    simpa using hne
  have htake : (body ++ mark :: rest).takeWhile (· ≠ mark) = body := by
    rw [List.takeWhile_append_of_pos hbody]
    simp
  have hdrop : (body ++ mark :: rest).dropWhile (· ≠ mark) = mark :: rest := by
    rw [List.dropWhile_append_of_pos hbody]
    simp
  simp only [cutLiteral, htake, hdrop]

/-- A literal without another mark reaches to the end. -/
theorem cutLiteral_eq_unclosed {mark : Char} {body : List Char} (h : mark ∉ body) :
    cutLiteral mark body = ⟨.unclosed mark, mark :: body, []⟩ := by
  have hbody : body.dropWhile (· ≠ mark) = [] := by
    rw [← List.append_nil body, List.dropWhile_append_of_pos]
    · rfl
    · intro c hc
      have hne : c ≠ mark := fun he => h (he ▸ hc)
      simpa using hne
  simp only [cutLiteral, hbody]

/-- What `text` begins with when it begins with a token: the lexeme is the one
that is cut, and the cut has the meaning of that token. -/
theorem Munch.exists_cut {text lexeme : List Char} {kind : Kind} {value : Value}
    (h : Munch text lexeme kind value) :
    ∃ c cs, text = c :: cs ∧ Text.isBlank c = false ∧ (cut c cs).text = lexeme ∧
      ∀ span, (cut c cs).meaning span = .token ⟨kind, value, span⟩ := by
  cases h with
  | word hfirst hstart hlexeme hkind =>
      obtain ⟨cs, rfl⟩ := List.head?_eq_some_iff.mp hfirst
      have htake := hlexeme.unique (longest_takeWhile isWordPart _)
      have hblank := isBlank_eq_false_of_isWordPart (isWordPart_of_isWordStart hstart)
      refine ⟨_, cs, rfl, hblank, ?_⟩
      rw [cut_of_isWordStart cs hstart]
      refine ⟨htake.symm, ?_⟩
      intro span
      rw [isWordKind_iff.mp hkind, htake]
      rfl
  | number hfirst hstart hlexeme hread =>
      obtain ⟨cs, rfl⟩ := List.head?_eq_some_iff.mp hfirst
      have htake := hlexeme.unique (longest_takeWhile isNumberPart _)
      have hblank := isBlank_eq_false_of_isDigit hstart
      refine ⟨_, cs, rfl, hblank, ?_⟩
      rw [cut_of_isDigit cs hstart]
      refine ⟨htake.symm, ?_⟩
      intro span
      rw [htake] at hread
      simp only [meaning, hread]
  | @literal mark body hmark hbody hlexeme hbegins =>
      subst hlexeme
      obtain ⟨rest, rfl⟩ := hbegins
      have hquote : Reserved.isQuoteMark mark = true := by simpa [Reserved.isQuoteMark] using hmark
      have hblank := (isSign_iff.mp (isSign_of_isQuoteMark hquote)).2.2
      refine ⟨mark, body ++ mark :: rest, by simp, hblank, ?_⟩
      rw [cut_of_isQuoteMark _ hquote, cutLiteral_eq_literal rest hbody]
      exact ⟨rfl, fun span => rfl⟩
  | symbol hfirst hstart hlexeme =>
      obtain ⟨cs, rfl⟩ := List.head?_eq_some_iff.mp hfirst
      rw [← isSymbolOperator_iff] at hstart
      have hgrow := hlexeme.unique (longest_growSymbol hstart cs)
      have hsign := (isSign_of_mem_operatorSigns (mem_operatorSigns hstart List.mem_cons_self)).1
      refine ⟨_, cs, rfl, (isSign_iff.mp hsign).2.2, ?_⟩
      rw [cut_of_isSymbolOperator cs hstart]
      refine ⟨hgrow.symm, ?_⟩
      intro span
      rw [hgrow]
      rfl
  | @bracket c hbracket hlexeme hbegins =>
      subst hlexeme
      obtain ⟨rest, rfl⟩ := hbegins
      have hc : Reserved.isBracket c = true := by simpa [Reserved.isBracket] using hbracket
      refine ⟨c, rest, rfl, (isSign_iff.mp (isSign_of_isBracket hc).1).2.2, ?_⟩
      rw [cut_of_isBracket rest hc]
      exact ⟨rfl, fun span => rfl⟩
  | terminator hlexeme hbegins =>
      subst hlexeme
      obtain ⟨rest, rfl⟩ := hbegins
      refine ⟨_, rest, rfl, by decide, ?_⟩
      rw [cut_endOfStatement rest]
      exact ⟨rfl, fun span => rfl⟩

/-- A lexeme begins where the text begins. -/
theorem Munch.exists_cons {text lexeme : List Char} {kind : Kind} {value : Value}
    (h : Munch text lexeme kind value) :
    ∃ c more rest, lexeme = c :: more ∧ text = lexeme ++ rest ∧ Text.isBlank c = false := by
  obtain ⟨c, cs, rfl, hblank, rfl, -⟩ := h.exists_cut
  obtain ⟨more, hmore⟩ := exists_text_eq c cs
  exact ⟨c, more, (cut c cs).rest, hmore, (text_append_rest c cs).symm, hblank⟩

/-- A text begins with one token at most. -/
theorem Munch.unique {text left right : List Char} {kind kind' : Kind} {value value' : Value}
    (hleft : Munch text left kind value) (hright : Munch text right kind' value') :
    left = right ∧ value = value' := by
  obtain ⟨c, cs, rfl, -, rfl, hmeaning⟩ := hleft.exists_cut
  obtain ⟨d, ds, hcons, -, rfl, hmeaning'⟩ := hright.exists_cut
  cases hcons
  have hsame := (hmeaning {}).symm.trans (hmeaning' {})
  cases hsame
  exact ⟨rfl, rfl⟩

/-- A token carries its lexeme as a text, or it is a number. -/
theorem Munch.text_or_number {text lexeme : List Char} {kind : Kind} {value : Value}
    (h : Munch text lexeme kind value) :
    value = .text (String.ofList lexeme) ∨
      ∃ first numeral, text.head? = some first ∧ first.isDigit = true ∧
        Longest (All isNumberPart) text lexeme ∧ value = (numeralValue numeral).2 := by
  cases h with
  | number hfirst hstart hlexeme hread => exact .inr ⟨_, _, hfirst, hstart, hlexeme, rfl⟩
  | _ => exact .inl rfl

/-- A token that carries a text carries its lexeme. -/
theorem Munch.text_eq {text lexeme : List Char} {kind : Kind} {value : Value} {word : String}
    (h : Munch text lexeme kind value) (hvalue : value = .text word) :
    word.toList = lexeme := by
  rcases h.text_or_number with htext | ⟨first, numeral, -, -, -, hnumeral⟩
  · rw [hvalue] at htext
    cases htext
    exact String.toList_ofList
  · rw [hvalue] at hnumeral
    cases numeral with
    | whole n => by_cases hn : n < integerLimit <;> simp [numeralValue, hn] at hnumeral
    | fractional digits places => cases hnumeral

/-- What `text` begins with when that ends the scan: either the cut has no
meaning, or a character that begins nothing is rejected. -/
theorem Fault.exists_cut {policy : Policy} {text lexeme : List Char}
    {complaint : Span → Diagnostic} (h : Fault policy text lexeme complaint) :
    ∃ c cs, text = c :: cs ∧ Text.isBlank c = false ∧ (cut c cs).text = lexeme ∧
      ((∀ span, (cut c cs).meaning span = .fault (complaint span)) ∨
        policy = .reject ∧ BeginsNothing c ∧ complaint = .unexpectedCharacter c) := by
  cases h with
  | number hfirst hstart hlexeme hpoints =>
      obtain ⟨cs, rfl⟩ := List.head?_eq_some_iff.mp hfirst
      have htake := hlexeme.unique (longest_takeWhile isNumberPart _)
      refine ⟨_, cs, rfl, isBlank_eq_false_of_isDigit hstart, ?_⟩
      rw [cut_of_isDigit cs hstart]
      refine ⟨htake.symm, .inl ?_⟩
      intro span
      rw [← Number.Numeral.read?_eq_none_iff] at hpoints
      simp only [meaning, ← htake, hpoints]
  | @literal mark body hmark htext hbody =>
      have hquote : Reserved.isQuoteMark mark = true := by simpa [Reserved.isQuoteMark] using hmark
      refine ⟨mark, body, htext, (isSign_iff.mp (isSign_of_isQuoteMark hquote)).2.2, ?_⟩
      rw [cut_of_isQuoteMark _ hquote, cutLiteral_eq_unclosed hbody]
      exact ⟨htext.symm, .inl fun span => rfl⟩
  | @character c rest hpolicy htext hc =>
      refine ⟨c, rest, htext, hc.notBlank, ?_⟩
      rw [hc.cut_eq rest]
      exact ⟨rfl, .inr ⟨hpolicy, hc, rfl⟩⟩

/-- **What a text can begin with.**  If it does not begin with a blank, it begins
with a token, with a character that begins nothing, or with a fault. -/
theorem munch_or_nothing_or_fault {c : Char} (hblank : Text.isBlank c = false) (cs : List Char) :
    (∃ kind value, Munch (c :: cs) (cut c cs).text kind value) ∨ BeginsNothing c ∨
      ∃ complaint, ∀ policy, Fault policy (c :: cs) (cut c cs).text complaint := by
  by_cases hword : isWordStart c = true
  · rw [cut_of_isWordStart cs hword]
    exact .inl ⟨_, _, .word rfl hword (longest_takeWhile _ _) (isWordKind_iff.mpr rfl)⟩
  by_cases hdigit : c.isDigit = true
  · rw [cut_of_isDigit cs hdigit]
    have hlongest := longest_takeWhile isNumberPart (c :: cs)
    cases hread : Number.Numeral.read? ((c :: cs).takeWhile isNumberPart) with
    | some numeral => exact .inl ⟨_, _, .number rfl hdigit hlongest hread⟩
    | none =>
        rw [Number.Numeral.read?_eq_none_iff] at hread
        exact .inr (.inr ⟨_, fun policy => .number rfl hdigit hlongest hread⟩)
  by_cases hquote : Reserved.isQuoteMark c = true
  · rw [cut_of_isQuoteMark cs hquote]
    have hmark : c ∈ Reserved.quoteMarks := by simpa [Reserved.isQuoteMark] using hquote
    by_cases hmem : c ∈ cs
    · obtain ⟨body, rest, rfl, hbody⟩ := List.eq_append_cons_of_mem hmem
      rw [cutLiteral_eq_literal rest hbody]
      exact .inl ⟨_, _, .literal hmark hbody rfl ⟨rest, by simp⟩⟩
    · rw [cutLiteral_eq_unclosed hmem]
      exact .inr (.inr ⟨_, fun policy => .literal hmark rfl hmem⟩)
  by_cases hsymbol : Reserved.isSymbolOperator [c] = true
  · rw [cut_of_isSymbolOperator cs hsymbol]
    have hlongest := longest_growSymbol hsymbol cs
    exact .inl ⟨_, _, .symbol rfl (isSymbolOperator_iff.mp hsymbol) hlongest⟩
  by_cases hbracket : Reserved.isBracket c = true
  · rw [cut_of_isBracket cs hbracket]
    have hmem : c ∈ Reserved.brackets := by simpa [Reserved.isBracket] using hbracket
    exact .inl ⟨_, _, .bracket hmem rfl ⟨cs, rfl⟩⟩
  by_cases hterminator : c = Reserved.endOfStatement
  · subst hterminator
    exact .inl ⟨_, _, .terminator rfl ⟨cs, rfl⟩⟩
  · refine .inr (.inl ⟨hblank, ?_, ?_, ?_, ?_, ?_, hterminator⟩)
    · simpa using hword
    · simpa using hdigit
    · simpa using hquote
    · simpa using hsymbol
    · simpa using hbracket

/-- The lexeme fixes what follows it. -/
theorem rest_eq_of_text_eq {c : Char} {cs lexeme rest : List Char}
    (htext : (cut c cs).text = lexeme) (h : lexeme ++ rest = c :: cs) :
    (cut c cs).rest = rest := by
  have happend := text_append_rest c cs
  rw [htext, ← h] at happend
  exact List.append_cancel_left happend

/-- **Induction along a scan.**  A text is empty, or it begins with a blank, with a
token, with a character that begins nothing or with a fault.  Behind a fault nothing
is scanned, and what stands behind the others is shorter. -/
@[elab_as_elim]
theorem scan_induction {motive : List Char → Prop} (nil : motive [])
    (blank : ∀ c rest, Text.isBlank c = true → motive rest → motive (c :: rest))
    (token : ∀ lexeme rest kind value, Munch (lexeme ++ rest) lexeme kind value →
      motive rest → motive (lexeme ++ rest))
    (nothing : ∀ c rest, BeginsNothing c → motive rest → motive (c :: rest))
    (fault : ∀ lexeme rest complaint,
      (∀ policy, Fault policy (lexeme ++ rest) lexeme complaint) → motive (lexeme ++ rest))
    (text : List Char) : motive text := by
  induction hn : text.length using Nat.strongRecOn generalizing text with
  | ind n ih =>
  cases text with
  | nil => exact nil
  | cons c cs =>
      rw [List.length_cons] at hn
      have happend := text_append_rest c cs
      have hshorter := length_rest_le c cs
      cases hblank : Text.isBlank c with
      | true => exact blank c cs hblank (ih cs.length (by omega) cs rfl)
      | false =>
          rcases munch_or_nothing_or_fault hblank cs with ⟨kind, value, hmunch⟩ | hnothing |
              ⟨complaint, hfault⟩
          · rw [← happend] at hmunch ⊢
            exact token _ _ kind value hmunch (ih _ (by omega) _ rfl)
          · exact nothing c cs hnothing (ih cs.length (by omega) cs rfl)
          · rw [← happend] at hfault ⊢
            exact fault _ _ complaint hfault

end Lexeme

namespace Scan

open Lexeme

variable {policy : Policy} (p : Position)

/-! ### One step of a scan -/

/-- At the end of the text nothing more is found. -/
@[simp] theorem run_nil : run policy p [] = ⟨[], none, [], p⟩ := by
  rw [run]

/-- A blank is passed over. -/
theorem run_blank {c : Char} (h : Text.isBlank c = true) (rest : List Char) :
    run policy p (c :: rest) = run policy (p.advance c) rest := by
  rw [run, if_pos h]

/-- A token is found, and the scan goes on behind it. -/
theorem run_munch {lexeme rest : List Char} {kind : Kind} {value : Value}
    (h : Munch (lexeme ++ rest) lexeme kind value) :
    run policy p (lexeme ++ rest) =
      found (.token ⟨kind, value, .between p (p.advanceAll lexeme)⟩)
        (run policy (p.advanceAll lexeme) rest) := by
  obtain ⟨c, cs, hcs, hblank, htext, hmeaning⟩ := h.exists_cut
  rw [hcs, run]
  simp only [hblank, Bool.false_eq_true, if_false, hmeaning, htext, rest_eq_of_text_eq htext hcs]

/-- A character that begins nothing is set aside. -/
theorem run_skip {c : Char} (h : BeginsNothing c) (rest : List Char) :
    run .skip p (c :: rest) =
      found (.skipped ⟨c, .between p (p.advance c)⟩) (run .skip (p.advance c) rest) := by
  rw [run]
  simp [h.notBlank, h.cut_eq, meaning]

/-- A fault ends the scan. -/
theorem run_fault {lexeme rest : List Char} {complaint : Span → Diagnostic}
    (h : Fault policy (lexeme ++ rest) lexeme complaint) :
    run policy p (lexeme ++ rest) =
      ⟨[], some (complaint (.between p (p.advanceAll lexeme))), rest, p.advanceAll lexeme⟩ := by
  obtain ⟨c, cs, hcs, hblank, htext, hmeaning⟩ := h.exists_cut
  rw [hcs, run]
  rcases hmeaning with hmeaning | ⟨rfl, hnothing, rfl⟩
  · simp only [hblank, Bool.false_eq_true, if_false, hmeaning, htext,
      rest_eq_of_text_eq htext hcs]
  · have hlexeme := htext
    have hrest := rest_eq_of_text_eq htext hcs
    rw [hnothing.cut_eq] at hlexeme hrest
    simp only [hblank, Bool.false_eq_true, if_false, hnothing.cut_eq, meaning]
    simp only at hlexeme hrest
    rw [hlexeme, hrest]

end Scan

end SochoScript
