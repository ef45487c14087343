import SochoScript.Proofs.Rereading
import SochoScript.Proofs.Grammar
import Mathlib.Data.List.Chain

/-!
# Token boundaries in lowered expressions

An expression is written without anything between its parts, except that a
lowered word has a space on either side.  Whether the tokens of the source are
still the tokens of what was written is therefore a matter of neighbours: two of
them that are both written as they are may grow together, as two signs `-` do,
or two numbers, or a name and a number.

`Expression.parts` says what each token of a row becomes, one part for one token,
and `Keeps` that scanning the written expression strictly gives exactly these
parts back.  The condition for it, `StaysApart`, looks at two neighbours at a time
and at one character of the second.

* `join_pieces`: the parts are what the parser writes.
* `not_readsAs_of_extends`: neighbours that fuse are not read back.  For numbers
  this takes an argument, because `0.1` and `0` fuse into `0.10`, which is written
  `0.1` again.
* `readsAs_written_iff`: parts are read back exactly if no two neighbours fuse.
* `keeps_iff_isChain`: the same for a lowered row of scanned tokens.
* `statements_keep_iff_isChain`: **every expression of a program keeps its
  boundaries exactly if no two neighbours in its row of tokens fuse.**
* `adjacent_signs_fuse`: a program with one that does not.
-/

namespace SochoScript

namespace Expression

open Lexeme

/-- What one token of an expression becomes. -/
structure Part where
  text : String
  /-- Whether it has a space on either side. -/
  spaced : Bool
deriving DecidableEq, Repr

/-- What the token `t` becomes when `next?` comes after it. -/
def part (context : Context) (t : Token) (next? : Option Token) : Part :=
  match lowering? context t with
  | none => ⟨t.value.display, false⟩
  | some (.padded symbol) => ⟨symbol, true⟩
  | some (.step compound unary) =>
    ⟨if next?.any fun amount => amount.kind = .integer then compound else unary, true⟩

/-- What the tokens of a row become. -/
def parts (context : Context) : List Token → List Part
  | [] => []
  | t :: rest => part context t rest.head? :: parts context rest

/-- A part as it is written. -/
def Part.written (p : Part) : List Char :=
  if p.spaced then ' ' :: (p.text.toList ++ [' ']) else p.text.toList

/-- Parts as they are written, one behind the other. -/
def written (parts : List Part) : List Char := parts.flatMap Part.written

@[simp] theorem written_nil : written [] = [] := rfl

@[simp] theorem written_cons (p : Part) (parts : List Part) :
    written (p :: parts) = p.written ++ written parts := rfl

/-- An integer is never lowered. -/
theorem lowering?_of_integer {context : Context} {t : Token} (h : t.kind = .integer) :
    lowering? context t = none := by
  simp [lowering?, h]

/-- The parts are what the parser writes. -/
theorem join_pieces (context : Context) (row : List Token) :
    (String.join (pieces context row)).toList = written (parts context row) := by
  fun_induction pieces context row with
  | case1 => rfl
  | case2 t rest hlowering ih =>
      rw [String.join_cons, String.toList_append, ih]
      simp [parts, part, Part.written, hlowering]
  | case3 t rest symbol hlowering ih =>
      rw [String.join_cons, String.toList_append, ih]
      simp [parts, part, Part.written, hlowering, padded]
  | case4 t compound unary hlowering =>
      simp [parts, part, Part.written, hlowering, padded]
  | case5 t compound unary hlowering amount more hinteger ih =>
      rw [String.join_cons, String.toList_append, ih]
      simp [parts, part, Part.written, hlowering, compoundStep, hinteger,
        lowering?_of_integer hinteger]
  | case6 t compound unary hlowering amount more hinteger ih =>
      rw [String.join_cons, String.toList_append, ih]
      simp [parts, part, Part.written, hlowering, padded, hinteger]

/-- Whether the second of two texts makes the first one longer when it stands
right behind it. -/
def fuses (left right : String) : Bool :=
  right.toList.head?.any (extends? left.toList)

/-- Two neighbours that stay apart. -/
def Part.Apart (p q : Part) : Prop :=
  p.spaced = true ∨ q.spaced = true ∨ fuses p.text q.text = false

/-- A part that is a token of its own, and is no number if it has spaces. -/
structure Part.Sound (p : Part) : Prop where
  stands : Stands p.text
  notNumber : p.spaced = true → ∀ c ∈ p.text.toList.head?, c.isDigit = false

/-! ### Numbers in a row -/

/-- The first character of a part. -/
theorem exists_cons_of_stands {text : String} (h : Stands text) :
    ∃ c more, text.toList = c :: more ∧ Text.isBlank c = false ∧ c ≠ '.' := by
  obtain ⟨kind, value, hmunch, -⟩ := h
  obtain ⟨c, more, -, hcons, -, hblank⟩ := hmunch.exists_cons
  refine ⟨c, more, hcons, hblank, ?_⟩
  intro hpoint
  have hnothing : BeginsNothing '.' := by
    refine ⟨?_, ?_, ?_, ?_, ?_, ?_, ?_⟩ <;> decide
  rw [hcons, hpoint] at hmunch
  exact Scan.not_munch_of_beginsNothing hnothing rfl hmunch

/-- A part that begins with a digit is a number. -/
theorem all_isNumberPart_of_stands {text : String} {c : Char} {more : List Char}
    (h : Stands text) (hcons : text.toList = c :: more) (hdigit : c.isDigit = true) :
    All isNumberPart text.toList := by
  obtain ⟨kind, value, hmunch, -⟩ := h
  obtain ⟨d, ds, hcut, -, htext, -⟩ := hmunch.exists_cut
  rw [hcons] at hcut
  cases hcut
  rw [cut_of_isDigit _ hdigit] at htext
  rw [← htext]
  exact (longest_takeWhile isNumberPart _).holds

/-- Behind the numbers that parts begin with, there is no number after blanks. -/
theorem not_isDigit_behind_numbers {parts : List Part} (h : ∀ p ∈ parts, p.Sound) :
    ∀ c ∈ (((written parts).dropWhile isNumberPart).dropWhile Text.isBlank).head?,
      c.isDigit = false := by
  induction parts with
  | nil => simp
  | cons p parts ih =>
      have hp := h p List.mem_cons_self
      have hrest := ih fun q hq => h q (List.mem_cons_of_mem p hq)
      obtain ⟨first, more, hcons, hblank, hpoint⟩ := exists_cons_of_stands hp.stands
      have hspace : isNumberPart ' ' = false ∧ Text.isBlank ' ' = true := by decide
      rw [written_cons, Part.written]
      by_cases hspaced : p.spaced = true
      · rw [if_pos hspaced, hcons]
        have hdigit := hp.notNumber hspaced first (by rw [hcons]; rfl)
        simpa [hspace, hblank] using hdigit
      · rw [if_neg hspaced]
        cases hdigit : first.isDigit with
        | true =>
            rw [List.dropWhile_append_of_pos (all_isNumberPart_of_stands hp.stands hcons hdigit)]
            exact hrest
        | false =>
            have hpart : isNumberPart first = false := by simp [isNumberPart, hdigit, hpoint]
            rw [hcons]
            simpa [hpart, hblank] using hdigit

/-- What is read from a text without a number in front is written with the first
character of the text. -/
theorem head_display_of_reads {text : List Char} {value : Value} {values : List Value}
    (h : Reads text (value :: values))
    (hdigit : ∀ c ∈ (text.dropWhile Text.isBlank).head?, c.isDigit = false) :
    ∀ c ∈ value.display.toList.head?, c.isDigit = false := by
  have hblanks : ∀ c ∈ text.takeWhile Text.isBlank, Text.isBlank c = true :=
    List.all_eq_true.mp List.all_takeWhile
  rw [← List.takeWhile_append_dropWhile (p := Text.isBlank) (l := text),
    reads_append_left hblanks] at h
  cases htext : text.dropWhile Text.isBlank with
  | nil =>
      rw [htext, reads_blanks (by simp)] at h
      cases h
  | cons d rest =>
      rw [htext] at h hdigit
      have hd : d.isDigit = false := hdigit d rfl
      have hblank : Text.isBlank d = false := by
        have hne : text.dropWhile Text.isBlank ≠ [] := by simp [htext]
        have hhead := List.head_dropWhile_not Text.isBlank hne
        simpa [htext] using hhead
      obtain ⟨lexeme, follow, kind, found, others, hsplit, hmunch, hvalues, -⟩ :=
        h.exists_munch hblank
      cases hvalues
      rcases hmunch.text_or_number with rfl | ⟨first, numeral, hfirst, hnumber, -, -⟩
      · obtain ⟨e, more, -, rfl, -, -⟩ := hmunch.exists_cons
        rw [List.cons_append, List.cons.injEq] at hsplit
        intro c hc
        rw [Value.display, String.toList_ofList, List.head?_cons, Option.mem_some_iff] at hc
        rw [← hc, ← hsplit.1]
        exact hd
      · rw [← hsplit] at hfirst
        cases hfirst
        rw [hd] at hnumber
        cases hnumber

/-! ### Neighbours -/

/-- Whether a part without spaces is extended by what is written behind it is
settled by the next part alone. -/
theorem stops_iff {text : String} {parts : List Part} (h : ∀ p ∈ parts, p.Sound) :
    (∀ c ∈ (written parts).head?, extends? text.toList c = false) ↔
      ∀ q ∈ parts.head?, q.spaced = true ∨ fuses text q.text = false := by
  cases parts with
  | nil => simp
  | cons q parts =>
      obtain ⟨first, more, hcons, -, -⟩ :=
        exists_cons_of_stands (h q List.mem_cons_self).stands
      have hspace : extends? text.toList ' ' = false := extends?_of_isBlank _ (by decide)
      rw [written_cons, Part.written]
      by_cases hspaced : q.spaced = true
      · simp [hspaced, hspace]
      · simp [hspaced, hcons, fuses]

/-- The text is made of tokens that are written as `texts` says. -/
def ReadsAs (text : List Char) (texts : List String) : Prop :=
  ∃ values, Reads text values ∧ values.map Value.display = texts

/-- A blank in front changes nothing in how a text is read. -/
theorem readsAs_blank {c : Char} {text : List Char} {texts : List String}
    (hblank : Text.isBlank c = true) : ReadsAs (c :: text) texts ↔ ReadsAs text texts := by
  apply Iff.intro
  · intro h
    obtain ⟨values, hreads, hvalues⟩ := h
    exact ⟨values, hreads.of_blank hblank, hvalues⟩
  · intro h
    obtain ⟨values, hreads, hvalues⟩ := h
    exact ⟨values, .blank hblank hreads, hvalues⟩

/-- The first token of a text is munched off its front. -/
theorem ReadsAs.exists_munch {c : Char} {text : List Char} {first : String}
    {texts : List String} (h : ReadsAs (c :: text) (first :: texts))
    (hblank : Text.isBlank c = false) :
    ∃ lexeme rest kind value, c :: text = lexeme ++ rest ∧
      Munch (lexeme ++ rest) lexeme kind value ∧ value.display = first ∧ ReadsAs rest texts := by
  obtain ⟨values, hreads, hvalues⟩ := h
  obtain ⟨lexeme, rest, kind, value, others, hsplit, hmunch, rfl, htail⟩ :=
    hreads.exists_munch hblank
  rw [List.map_cons, List.cons.injEq] at hvalues
  exact ⟨lexeme, rest, kind, value, hsplit, hmunch, hvalues.1, others, htail, hvalues.2⟩

/-- A token that is not extended is read off the front of a text. -/
theorem readsAs_append {first : String} {rest : List Char} {texts : List String}
    (hstands : Stands first) (hstops : ∀ c ∈ rest.head?, extends? first.toList c = false) :
    ReadsAs (first.toList ++ rest) (first :: texts) ↔ ReadsAs rest texts := by
  obtain ⟨c, more, hcons, hblank, -⟩ := exists_cons_of_stands hstands
  obtain ⟨kind, value, halone, hdisplay⟩ := hstands
  have hfirst := munch_append_iff.mpr ⟨halone, hstops⟩
  apply Iff.intro
  · intro h
    rw [hcons, List.cons_append] at h
    obtain ⟨lexeme, follow, kind', value', hsplit, hmunch, -, htail⟩ := h.exists_munch hblank
    rw [← List.cons_append, ← hcons] at hsplit
    rw [← hsplit] at hmunch
    obtain ⟨hlexeme, -⟩ := hmunch.unique hfirst
    subst hlexeme
    rwa [List.append_cancel_left hsplit]
  · intro h
    obtain ⟨values, hreads, hvalues⟩ := h
    exact ⟨value :: values, .munch hfirst hreads, by rw [List.map_cons, hdisplay, hvalues]⟩

/-- Parts that are written with the middle of a number in front begin with a number. -/
theorem exists_digit_part {parts : List Part} {c : Char} (h : ∀ p ∈ parts, p.Sound)
    (hc : c ∈ (written parts).head?) (hpart : isNumberPart c = true) :
    ∃ q others, parts = q :: others ∧ c ∈ q.text.toList.head? ∧ c.isDigit = true := by
  cases parts with
  | nil => cases hc
  | cons q others =>
      obtain ⟨first, more, hcons, -, hpoint⟩ :=
        exists_cons_of_stands (h q List.mem_cons_self).stands
      rw [written_cons, Part.written] at hc
      by_cases hspaced : q.spaced = true
      · rw [if_pos hspaced] at hc
        cases hc
        exact absurd hpart (by decide)
      · rw [if_neg hspaced, hcons] at hc
        cases hc
        refine ⟨q, others, rfl, by rw [hcons]; rfl, ?_⟩
        simpa [isNumberPart, hpoint] using hpart

/-- **Neighbours that fuse are not read back.**  The first token that is read is
longer than the part.  If it is a word or an operator, it is not written like the
part; if it is a number that happens to be, then the next token is no number, but
the next part is. -/
theorem not_readsAs_of_extends {first : String} {parts : List Part} {c : Char}
    (hstands : Stands first) (hparts : ∀ p ∈ parts, p.Sound)
    (hc : c ∈ (written parts).head?) (hextends : extends? first.toList c = true) :
    ¬ ReadsAs (first.toList ++ written parts) (first :: parts.map Part.text) := by
  intro h
  obtain ⟨d, more, hcons, hblank, -⟩ := exists_cons_of_stands hstands
  rw [hcons, List.cons_append] at h
  obtain ⟨lexeme, rest, kind, value, hsplit, hmunch, hdisplay, htail⟩ := h.exists_munch hblank
  rw [← List.cons_append, ← hcons] at hsplit
  rw [← hsplit] at hmunch
  rcases hmunch.text_or_number with rfl | ⟨e, numeral, he, hdigit, hlongest, -⟩
  · have hlexeme : lexeme = first.toList := by
      rw [← hdisplay, Value.display, String.toList_ofList]
    subst hlexeme
    have hstops := (munch_append_iff.mp hmunch).2 c hc
    rw [hextends] at hstops
    cases hstops
  · rw [hcons, List.cons_append, List.head?_cons, Option.some.injEq] at he
    subst he
    have hall := all_isNumberPart_of_stands hstands hcons hdigit
    -- What is left behind the number is what the parts leave behind their numbers.
    have hrest : rest = (written parts).dropWhile isNumberPart := by
      have hlexeme := hlongest.unique (longest_takeWhile isNumberPart _)
      have hdrop : lexeme ++ (first.toList ++ written parts).dropWhile isNumberPart =
          lexeme ++ rest := by
        rw [← hsplit, hlexeme, List.takeWhile_append_dropWhile]
      rw [← List.append_cancel_left hdrop, List.dropWhile_append_of_pos hall]
    rw [hcons, extends?_of_isDigit hdigit] at hextends
    obtain ⟨q, others, rfl, hq⟩ := exists_digit_part hparts hc hextends
    obtain ⟨values, hreads, hvalues⟩ := htail
    cases values with
    | nil => cases hvalues
    | cons next values =>
        rw [List.map_cons, List.map_cons, List.cons.injEq] at hvalues
        have hbehind := not_isDigit_behind_numbers hparts
        rw [← hrest] at hbehind
        have hnext := head_display_of_reads hreads hbehind c (hvalues.1 ▸ hq.1)
        rw [hq.2] at hnext
        cases hnext

/-- **Parts are read back exactly if no two neighbours fuse.** -/
theorem readsAs_written_iff {parts : List Part} (h : ∀ p ∈ parts, p.Sound) :
    ReadsAs (written parts) (parts.map Part.text) ↔ parts.IsChain Part.Apart := by
  induction parts with
  | nil => exact ⟨fun _ => .nil, fun _ => ⟨[], .nil, rfl⟩⟩
  | cons p parts ih =>
      have hp := h p List.mem_cons_self
      have hparts : ∀ q ∈ parts, q.Sound := fun q hq => h q (List.mem_cons_of_mem p hq)
      rw [List.isChain_cons, ← ih hparts, List.map_cons, written_cons, Part.written]
      by_cases hspaced : p.spaced = true
      · have hblank : Text.isBlank ' ' = true := by decide
        have hstops : ∀ c ∈ (' ' :: written parts).head?,
            extends? p.text.toList c = false := by
          intro c hc
          cases hc
          exact extends?_of_isBlank _ hblank
        have hrow : ' ' :: (p.text.toList ++ [' ']) ++ written parts =
            ' ' :: (p.text.toList ++ ' ' :: written parts) := by
          simp
        rw [if_pos hspaced, hrow, readsAs_blank hblank, readsAs_append hp.stands hstops,
          readsAs_blank hblank]
        have hapart : ∀ q ∈ parts.head?, p.Apart q := fun q _ => .inl hspaced
        exact ⟨fun htail => ⟨hapart, htail⟩, fun hboth => hboth.2⟩
      · have hapart : (∀ q ∈ parts.head?, p.Apart q) ↔
            ∀ c ∈ (written parts).head?, extends? p.text.toList c = false := by
          rw [stops_iff hparts]
          simp [Part.Apart, hspaced]
        rw [if_neg hspaced, hapart]
        apply Iff.intro
        · intro hreads
          have hstops : ∀ c ∈ (written parts).head?, extends? p.text.toList c = false := by
            intro c hc
            cases hextends : extends? p.text.toList c with
            | false => rfl
            | true => exact absurd hreads (not_readsAs_of_extends hp.stands hparts hc hextends)
          exact ⟨hstops, (readsAs_append hp.stands hstops).mp hreads⟩
        · intro hboth
          exact (readsAs_append hp.stands hboth.1).mpr hboth.2

/-! ### The parts of a scanned row -/

/-- The token was found in some text. -/
def Scanned (t : Token) : Prop := ∃ text lexeme, Munch text lexeme t.kind t.value

/-- The texts that a lowering writes. -/
def loweredTexts : Lowering → List String
  | .padded symbol => [symbol]
  | .step compound unary => [compound, unary]

/-- An operator or a truth value. -/
def IsLowered (text : String) : Prop :=
  text ∈ Reserved.symbolOperators ∨ text = "true" ∨ text = "false"

/-- Words are lowered to operators and truth values. -/
theorem isLowered_of_mem {operator : WordOperator} {context : Context} {lowering : Lowering}
    (h : operator.lowering context = some lowering) :
    ∀ text ∈ loweredTexts lowering, IsLowered text := by
  unfold IsLowered
  cases operator <;> cases context <;> cases h <;> decide

/-- What a word is lowered to is a token of its own and no number. -/
theorem IsLowered.sound {text : String} (h : IsLowered text) : Part.Sound ⟨text, true⟩ := by
  rcases h with hsymbol | rfl | rfl
  · refine ⟨stands_symbol hsymbol, ?_⟩
    intro _ c hc
    have hmem : c ∈ text.toList := List.mem_of_mem_head? hc
    have hoperator : Reserved.isSymbolOperator text.toList = true :=
      isSymbolOperator_iff.mpr (by rwa [String.ofList_toList])
    exact (isSign_iff.mp (isSign_of_mem_operatorSigns (mem_operatorSigns hoperator hmem)).1).2.1
  · exact ⟨stands_word rfl rfl (by decide), fun _ c hc => by cases hc; rfl⟩
  · exact ⟨stands_word rfl rfl (by decide), fun _ c hc => by cases hc; rfl⟩

/-- A token becomes itself, or it is lowered and set between spaces. -/
theorem part_cases (context : Context) (t : Token) (next? : Option Token) :
    part context t next? = ⟨t.value.display, false⟩ ∨
      ∃ text, part context t next? = ⟨text, true⟩ ∧ IsLowered text := by
  have htexts : ∀ lowering, lowering? context t = some lowering →
      ∀ text ∈ loweredTexts lowering, IsLowered text := by
    intro lowering hlowering
    rw [lowering?] at hlowering
    split at hlowering
    · obtain ⟨word, -, hword⟩ := Option.bind_eq_some_iff.mp hlowering
      obtain ⟨operator, -, hoperator⟩ := Option.bind_eq_some_iff.mp hword
      exact isLowered_of_mem hoperator
    · cases hlowering
  unfold part
  split
  · exact .inl rfl
  · rename_i symbol hlowering
    exact .inr ⟨symbol, rfl, htexts _ hlowering symbol List.mem_cons_self⟩
  · rename_i compound unary hlowering
    refine .inr ⟨_, rfl, htexts _ hlowering _ ?_⟩
    split <;> simp [loweredTexts]

/-- What a scanned token becomes is a token of its own. -/
theorem sound_part {t : Token} (h : Scanned t) (context : Context) (next? : Option Token) :
    (part context t next?).Sound := by
  obtain ⟨text, lexeme, hmunch⟩ := h
  rcases part_cases context t next? with hpart | ⟨lowered, hpart, hlowered⟩
  · rw [hpart]
    exact ⟨hmunch.stands, fun hspaced => by cases hspaced⟩
  · rw [hpart]
    exact hlowered.sound

/-- The parts of a row of scanned tokens are sound. -/
theorem sound_parts {row : List Token} (h : ∀ t ∈ row, Scanned t) (context : Context) :
    ∀ p ∈ parts context row, p.Sound := by
  induction row with
  | nil => simp [parts]
  | cons t rest ih =>
      intro p hp
      rcases List.mem_cons.mp hp with rfl | hp
      · exact sound_part (h t List.mem_cons_self) context rest.head?
      · exact ih (fun u hu => h u (List.mem_cons_of_mem t hu)) p hp

/-- Two neighbours in a row of tokens that stay apart: if both are written as they
are, the second does not make the first one longer. -/
def StaysApart (context : Context) (t u : Token) : Prop :=
  lowering? context t = none → lowering? context u = none →
    fuses t.value.display u.value.display = false

/-- Two neighbours in a row stay apart exactly if their parts do. -/
theorem apart_part_iff {context : Context} {t u : Token} {next? : Option Token} :
    (part context t (some u)).Apart (part context u next?) ↔ StaysApart context t u := by
  have hpart : ∀ t next?, (part context t next?).spaced = true ↔ lowering? context t ≠ none := by
    intro t next?
    unfold part
    split <;> simp_all
  have htext : ∀ t next?, lowering? context t = none →
      (part context t next?).text = t.value.display := by
    intro t next? hnone
    simp [part, hnone]
  unfold Part.Apart StaysApart
  rw [hpart, hpart]
  by_cases ht : lowering? context t = none
  · by_cases hu : lowering? context u = none
    · simp [ht, hu, htext]
    · simp [hu]
  · simp [ht]

/-- A row stays apart throughout exactly if its parts do. -/
theorem isChain_parts_iff {context : Context} {row : List Token} :
    (parts context row).IsChain Part.Apart ↔ row.IsChain (StaysApart context) := by
  induction row with
  | nil => simp [parts]
  | cons t rest ih =>
      cases rest with
      | nil => simp [parts]
      | cons u rest =>
          rw [parts, List.isChain_cons_cons, ← ih, parts, List.isChain_cons_cons,
            List.head?_cons, apart_part_iff]

/-! ### The expressions of a program -/

/-- Every token of a scan was found in some text. -/
theorem scanned_of_tokenize {policy : Policy} {source : String} {tokens : List Token}
    (h : (tokenize policy source).outcome = .ok tokens) : ∀ t ∈ tokens, Scanned t := by
  intro t ht
  obtain ⟨before, lexeme, rest, -, -, hmunch⟩ := exists_munch_of_tokenize h ht
  exact ⟨lexeme ++ rest, lexeme, hmunch⟩

/-- Scanned strictly, the text of an expression is made of exactly the tokens that
its row became, one for each, and they are written as they were. -/
def Keeps (context : Context) (row : List Token) (text : String) : Prop :=
  ∃ tokens, (tokenize .reject text).outcome = .ok tokens ∧
    tokens.map (fun t => t.value.display) = (parts context row).map Part.text

/-- A text keeps the boundaries of a row exactly if it is read as the parts of the row. -/
theorem keeps_iff_readsAs {context : Context} {row : List Token} {text : String} :
    Keeps context row text ↔ ReadsAs text.toList ((parts context row).map Part.text) := by
  apply Iff.intro
  · intro h
    obtain ⟨tokens, hok, hdisplay⟩ := h
    refine ⟨tokens.map Token.value, reads_iff_tokenize.mpr ⟨tokens, hok, rfl⟩, ?_⟩
    rw [List.map_map]
    exact hdisplay
  · intro h
    obtain ⟨values, hreads, hdisplay⟩ := h
    obtain ⟨tokens, hok, rfl⟩ := reads_iff_tokenize.mp hreads
    rw [List.map_map] at hdisplay
    exact ⟨tokens, hok, hdisplay⟩

/-- The text of an expression is what its parts are written as, without the blanks at
both ends. -/
theorem toList_of_lowers {context : Context} {row : List Token} {text : String}
    (h : Parser.Lowers context row text) :
    text.toList = Text.trim (written (parts context row)) := by
  rw [h.2, String.toList_ofList, Expression.text, join_pieces]

/-- **A lowered row keeps its boundaries exactly if its neighbours stay apart.** -/
theorem keeps_iff_isChain {context : Context} {row : List Token} {text : String}
    (hrow : ∀ t ∈ row, Scanned t) (htext : Parser.Lowers context row text) :
    Keeps context row text ↔ row.IsChain (StaysApart context) := by
  rw [keeps_iff_readsAs, toList_of_lowers htext, ← isChain_parts_iff,
    ← readsAs_written_iff (sound_parts hrow context)]
  simp only [ReadsAs, reads_trim]

/-- **Boundaries of expressions.**  In a program that was read from a source, every
value of a declaration and every test of a condition, at any depth, is the
lowered text of its row of tokens, and it keeps the boundaries of these tokens
exactly if no two neighbours that are both written as they are fuse. -/
theorem statements_keep_iff_isChain (policy : Policy) (source : String) (tokens : List Token)
    (program : Program) (htokens : (tokenize policy source).outcome = .ok tokens)
    (hprogram : (parse tokens).outcome = .ok program) :
    Grammar.Statements
      (fun context row text => Parser.Lowers context row text ∧
        (Keeps context row text ↔ row.IsChain (StaysApart context)))
      tokens program.body := by
  have hstatements := Grammar.statements_of_block (Grammar.parse_eq_ok_iff.mp hprogram)
  apply hstatements.mono _ (scanned_of_tokenize htokens)
  intro context row text hrow htext
  exact ⟨htext, keeps_iff_isChain hrow htext⟩

/-- The tokens of `socho x = a - - b;`. -/
def adjacentSigns : List Token :=
  [⟨.keyword, .text "socho", ⟨1, 1, 0, 5⟩⟩, ⟨.identifier, .text "x", ⟨1, 7, 6, 7⟩⟩,
   ⟨.operator, .text "=", ⟨1, 9, 8, 9⟩⟩, ⟨.identifier, .text "a", ⟨1, 11, 10, 11⟩⟩,
   ⟨.operator, .text "-", ⟨1, 13, 12, 13⟩⟩, ⟨.operator, .text "-", ⟨1, 15, 14, 15⟩⟩,
   ⟨.identifier, .text "b", ⟨1, 17, 16, 17⟩⟩, ⟨.endOfStatement, .text ";", ⟨1, 18, 17, 18⟩⟩]

/-- Scanning keeps the two signs apart. -/
theorem tokenize_adjacentSigns :
    (tokenize .reject "socho x = a - - b;").outcome = .ok adjacentSigns := by
  decide +kernel

/-- Lowering writes them one behind the other. -/
theorem parse_adjacentSigns :
    (parse adjacentSigns).outcome = .ok ⟨[.declaration "x" (some "a--b")]⟩ := by
  have hlowers : Parser.Lowers .declaration ((adjacentSigns.drop 3).take 4) "a--b" := by
    unfold Parser.Lowers
    decide +kernel
  have hend : Grammar.Statements Parser.Lowers (adjacentSigns.drop 7) [] := by
    refine .stray ?_ .nil
    intro keyword _ hkeyword
    exact absurd hkeyword.1 (by decide)
  apply Grammar.parse_eq_ok_iff.mpr
  apply Grammar.block_of_statements
  exact .simple (.initialized ⟨rfl, rfl⟩ rfl (by decide) (by decide) (by decide) hlowers) hend

/-- The equivalence for the program with two adjacent signs. -/
theorem statements_keep_iff_isChain_adjacentSigns :
    (tokenize .reject "socho x = a - - b;").outcome = .ok adjacentSigns ∧
      (parse adjacentSigns).outcome = .ok ⟨[.declaration "x" (some "a--b")]⟩ ∧
      Grammar.Statements
        (fun context row text => Parser.Lowers context row text ∧
          (Keeps context row text ↔ row.IsChain (StaysApart context)))
        adjacentSigns [.declaration "x" (some "a--b")] :=
  ⟨tokenize_adjacentSigns, parse_adjacentSigns,
    statements_keep_iff_isChain .reject "socho x = a - - b;" adjacentSigns
      ⟨[.declaration "x" (some "a--b")]⟩ tokenize_adjacentSigns parse_adjacentSigns⟩

/-- The value of a declaration in front is made from the tokens up to the end of
the statement. -/
theorem lowers_of_statements_declaration {lowers : Grammar.Rendering}
    {keyword name assignment : Token} {rest : List Token} {declared text : String}
    {body : List Statement} (hkeyword : keyword.IsKeyword .socho)
    (h : Grammar.Statements lowers (keyword :: name :: assignment :: rest)
      (.declaration declared (some text) :: body)) :
    lowers .declaration (Parser.leading Parser.endsStatement rest) text := by
  generalize htokens : keyword :: name :: assignment :: rest = tokens at h
  cases h with
  | stray hstray hrest =>
      cases htokens
      exact absurd hkeyword (hstray .socho List.mem_cons_self)
  | conditional hitem hrest => cases hitem
  | simple hitem hrest =>
      cases hitem with
      | initialized hkeyword' hname hassignment hrun hfollow htext =>
          simp only [List.cons_append, List.cons.injEq] at htokens
          obtain ⟨rfl, rfl, rfl, rfl⟩ := htokens
          have hleading := (Parser.leading_remaining_iff Parser.endsStatement _).mpr
            ⟨rfl, by simpa [Parser.endsStatement] using hrun,
              by simpa [Parser.endsStatement] using hfollow⟩
          rw [hleading.1]
          exact htext

/-- **Adjacent signs fuse.**  The two signs of `a - - b` become one, so that the value
of the declaration is read as three tokens and not as four. -/
theorem adjacent_signs_fuse :
    (tokenize .reject "socho x = a - - b;").outcome = .ok adjacentSigns ∧
      (parse adjacentSigns).outcome = .ok ⟨[.declaration "x" (some "a--b")]⟩ ∧
      ¬ Grammar.Statements
        (fun context row text => Parser.Lowers context row text ∧ Keeps context row text)
        adjacentSigns [.declaration "x" (some "a--b")] := by
  refine ⟨tokenize_adjacentSigns, parse_adjacentSigns, ?_⟩
  intro h
  obtain ⟨-, tokens, hok, hdisplay⟩ := lowers_of_statements_declaration ⟨rfl, rfl⟩ h
  have hscan : (tokenize .reject "a--b").outcome =
      .ok [⟨.identifier, .text "a", ⟨1, 1, 0, 1⟩⟩, ⟨.operator, .text "--", ⟨1, 2, 1, 3⟩⟩,
        ⟨.identifier, .text "b", ⟨1, 4, 3, 4⟩⟩] := by
    decide +kernel
  rw [hscan] at hok
  cases hok
  exact absurd hdisplay (by decide)

end Expression

end SochoScript
