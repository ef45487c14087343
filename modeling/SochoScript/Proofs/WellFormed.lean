import SochoScript.Proofs.Literals
import SochoScript.Compilation

/-!
# Well-formed programs

The texts in a program that was read from a source are not arbitrary.  A name is
a word that is not reserved, an expression is trimmed and holds only closed
literals, a printed value is one token, and a prompt is one literal.

What is demanded of the texts of a program, by where they stand, is a `Shape`;
`Statement.Fits` demands it at every depth.  `Grammar.Statements.fits` goes once
through the rules of the grammar, for any shape that the texts of single tokens and
of rows of tokens have, so that a shape is only ever checked on tokens.

* `Grammar.Statements.fits`: a shape that holds of the texts that tokens give rise
  to holds of all texts of the program.
* `admits_wellFormed`: the texts of scanned tokens are well formed.
* `parseSource_wellFormed`: **every program that was read from a source is well
  formed at every depth.**
-/

namespace SochoScript

/-- What is demanded of the texts in a program, by where they stand. -/
structure Shape where
  /-- The names of variables. -/
  name : String → Prop
  /-- The values of declarations. -/
  value : String → Prop
  /-- The values that are printed. -/
  printed : String → Prop
  /-- The prompts of inputs. -/
  prompt : String → Prop
  /-- The tests of conditions. -/
  test : String → Prop

namespace Statement

mutual

/-- All texts of a statement are as demanded, at any depth. -/
def Fits (shape : Shape) : Statement → Prop
  | declaration name value => shape.name name ∧ ∀ text ∈ value, shape.value text
  | print value => shape.printed value
  | input name prompt => shape.name name ∧ ∀ text ∈ prompt, shape.prompt text
  | condition test body otherwise =>
    shape.test test ∧ FitAll shape body ∧ FitAll shape otherwise

/-- All texts of the statements are as demanded. -/
def FitAll (shape : Shape) : List Statement → Prop
  | [] => True
  | s :: rest => Fits shape s ∧ FitAll shape rest

end

end Statement

open Statement (Fits FitAll)

/-! ### From tokens to programs -/

/-- The texts that tokens with the property `P` give rise to are as demanded. -/
structure Shape.Admits (shape : Shape) (lowers : Grammar.Rendering) (P : Token → Prop) :
    Prop where
  name : ∀ t, P t → t.kind = .identifier → shape.name t.value.display
  value : ∀ run text, (∀ t ∈ run, P t ∧ t.kind ≠ .endOfStatement) →
    lowers .declaration run text → shape.value text
  printed : ∀ t, P t → t.kind ≠ .endOfStatement ∧ t.kind ≠ .bracket →
    shape.printed t.value.display
  prompt : ∀ t, P t → t.kind = .string → shape.prompt t.value.display
  test : ∀ run text, (∀ t ∈ run, P t ∧ t.opensBlock = false) →
    lowers .condition run text → shape.test text

namespace Grammar

variable {shape : Shape} {lowers : Rendering} {P : Token → Prop}

/-- A simple statement has the shape that its tokens admit. -/
theorem Simple.fits (hshape : shape.Admits lowers P) {item follow : List Token} {s : Statement}
    (h : Simple lowers item follow s) (hitem : ∀ t ∈ item, P t) : Fits shape s := by
  cases h with
  | declared hkeyword hname hfollow =>
      exact ⟨hshape.name _ (hitem _ (by simp)) hname, by simp⟩
  | initialized hkeyword hname hassignment hrun hfollow htext =>
      refine ⟨hshape.name _ (hitem _ (by simp)) hname, ?_⟩
      intro text hmem
      cases hmem
      exact hshape.value _ _ (fun t ht => ⟨hitem t (by simp [ht]), hrun t ht⟩) htext
  | printed hkeyword hvalue => exact hshape.printed _ (hitem _ (by simp)) hvalue
  | unprompted hkeyword hname hfollow =>
      exact ⟨hshape.name _ (hitem _ (by simp)) hname, by simp⟩
  | prompted hkeyword hname hliteral =>
      refine ⟨hshape.name _ (hitem _ (by simp)) hname, ?_⟩
      intro text hmem
      cases hmem
      exact hshape.prompt _ (hitem _ (by simp)) hliteral

mutual

/-- **What holds of the texts that tokens give rise to holds at every depth.** -/
theorem Statements.fits (hshape : shape.Admits lowers P) {tokens : List Token}
    {body : List Statement} :
    Statements lowers tokens body → (∀ t ∈ tokens, P t) → FitAll shape body
  | .nil, _ => trivial
  | .stray _ hrest, htokens => hrest.fits hshape fun t ht => htokens t (List.mem_cons_of_mem _ ht)
  | .simple hitem hrest, htokens =>
      ⟨hitem.fits hshape fun t ht => htokens t (List.mem_append_left _ ht),
        hrest.fits hshape fun t ht => htokens t (List.mem_append_right _ ht)⟩
  | .conditional hitem hrest, htokens =>
      ⟨hitem.fits hshape fun t ht => htokens t (List.mem_append_left _ ht),
        hrest.fits hshape fun t ht => htokens t (List.mem_append_right _ ht)⟩

/-- So has a condition. -/
theorem Conditional.fits (hshape : shape.Admits lowers P) {item follow : List Token}
    {s : Statement} : Conditional lowers item follow s → (∀ t ∈ item, P t) → Fits shape s
  | .alone hhead _, htokens =>
      have ⟨htest, hbody⟩ := hhead.fits hshape htokens
      ⟨htest, hbody, trivial⟩
  | .otherwise hhead _ hother, htokens =>
      have ⟨htest, hbody⟩ := hhead.fits hshape fun t ht => htokens t (List.mem_append_left _ ht)
      ⟨htest, hbody, hother.fits hshape fun t ht => htokens t (by simp [ht])⟩
  | .chained hhead _ hother, htokens =>
      have ⟨htest, hbody⟩ := hhead.fits hshape fun t ht => htokens t (List.mem_append_left _ ht)
      ⟨htest, hbody, hother.fits hshape fun t ht => htokens t (by simp [ht]), trivial⟩

/-- So have the test and the statements in its head. -/
theorem Head.fits (hshape : shape.Admits lowers P) {head : List Token} {test : String}
    {body : List Statement} :
    Head lowers head test body → (∀ t ∈ head, P t) → shape.test test ∧ FitAll shape body
  | .mk _ hrun htest hbody, htokens =>
      ⟨hshape.test _ _ (fun t ht => ⟨htokens t (by simp [ht]), hrun t ht⟩) htest,
        hbody.fits hshape fun t ht => htokens t (by simp [ht])⟩

/-- So have the statements of a block. -/
theorem Braced.fits (hshape : shape.Admits lowers P) {braced : List Token}
    {body : List Statement} : Braced lowers braced body → (∀ t ∈ braced, P t) → FitAll shape body
  | .mk _ _ hinside _, htokens => hinside.fits hshape fun t ht => htokens t (by simp [ht])

end

end Grammar

/-- A source is parsed exactly if it is tokenized and its tokens are parsed. -/
theorem parseSource_eq_ok_iff {policy : Policy} {source : String} {program : Program} :
    (parseSource policy source).outcome = .ok program ↔
      ∃ tokens, (tokenize policy source).outcome = .ok tokens ∧
        (parse tokens).outcome = .ok program := by
  rw [outcome_parseSource, bind_eq_ok_iff]

/-- A program that was read from a source fits every shape that scanned tokens
admit. -/
theorem fitAll_of_parseSource {shape : Shape}
    (hshape : shape.Admits Parser.Lowers Expression.Scanned) {policy : Policy} {source : String}
    {program : Program} (h : (parseSource policy source).outcome = .ok program) :
    FitAll shape program.body := by
  obtain ⟨tokens, htokens, hprogram⟩ := parseSource_eq_ok_iff.mp h
  have hstatements := Grammar.statements_of_block (Grammar.parse_eq_ok_iff.mp hprogram)
  exact hstatements.fits hshape (Expression.scanned_of_tokenize htokens)

/-! ### The texts of a program -/

open Lexeme Expression

/-- A word that is not reserved. -/
structure IsName (name : String) : Prop where
  word : ∃ first more, name.toList = first :: more ∧ isWordStart first = true ∧
    ∀ c ∈ more, isWordPart c = true
  notKeyword : name ∉ Keyword.all.map Keyword.spelling
  notOperator : name ∉ WordOperator.all.map WordOperator.spelling

/-- A text without blanks at its ends, all of whose literals are closed.  Outside of
them there is neither a line feed nor the sign that ends the expression. -/
structure IsExpression (context : Context) (text : String) : Prop where
  nonempty : text ≠ ""
  first : ∀ c ∈ text.toList.head?, Text.isBlank c = false
  last : ∀ c ∈ text.toList.getLast?, Text.isBlank c = false
  outside : Text.Outside (Inner context) text.toList

/-- The text of exactly one token, which neither ends a statement nor is a
bracket. -/
structure IsPrinted (text : String) : Prop where
  nonempty : text ≠ ""
  single : ∃ t, (tokenize .reject text).outcome = .ok [t] ∧ t.value.display = text ∧
    t.kind ≠ .endOfStatement ∧ t.kind ≠ .bracket
  outside : Text.Outside (Inner .declaration) text.toList

/-- The shape of the programs that are read from sources. -/
def wellFormed : Shape where
  name := IsName
  value := IsExpression .declaration
  printed := IsPrinted
  prompt text := IsLiteral text.toList
  test := IsExpression .condition

/-- A scanned name is a word that is not reserved. -/
theorem isName_of_scanned {t : Token} (h : Scanned t) (hkind : t.kind = .identifier) :
    IsName t.value.display := by
  obtain ⟨kind, value, span⟩ := t
  obtain ⟨text, lexeme, hmunch⟩ := h
  simp only at hkind hmunch ⊢
  subst hkind
  obtain ⟨first, more, rest, rfl, rfl, -⟩ := hmunch.exists_cons
  generalize hidentifier : Kind.identifier = kind at hmunch
  cases hmunch with
  | word hfirst hstart hlexeme hword =>
      subst hidentifier
      cases hfirst
      refine ⟨⟨first, more, ?_, hstart, ?_⟩, ?_, ?_⟩
      · rw [Value.display, String.toList_ofList]
      · intro c hc
        exact hlexeme.holds c (List.mem_cons_of_mem _ hc)
      · intro hmem
        cases hword.keyword.mpr hmem
      · intro hmem
        cases hword.operator.mpr hmem
  | @number _ numeral hfirst hstart hlexeme hread =>
      rcases kind_numeral numeral with hkind | hkind <;> simp [hkind] at hidentifier
  | literal => cases hidentifier
  | symbol => cases hidentifier
  | bracket => cases hidentifier
  | terminator => cases hidentifier

/-- A lowered row is an expression. -/
theorem isExpression_of_lowers {context : Context} {row : List Token} {text : String}
    (hrow : ∀ t ∈ row, Scanned t ∧ endsAt context t = false)
    (htext : Parser.Lowers context row text) : IsExpression context text := by
  have hlist := toList_of_lowers htext
  refine ⟨?_, ?_, ?_, outside_of_lowers hrow htext⟩
  · intro hempty
    rw [htext.2] at hempty
    exact htext.1 (by simpa using congrArg String.toList hempty)
  · rw [hlist]
    exact Text.isBlank_head_trim
  · rw [hlist]
    exact Text.isBlank_getLast_trim

/-- A text that is one token is scanned as that token. -/
theorem tokenize_of_munch {policy : Policy} {text : String} {kind : Kind} {value : Value}
    (h : Munch text.toList text.toList kind value) :
    (tokenize policy text).outcome = .ok [⟨kind, value, .covering [] text.toList⟩] := by
  have hfinds : Scan.Finds policy [] text.toList []
      (.token ⟨kind, value, .covering [] text.toList⟩) := .token (by rwa [List.append_nil])
  have hpasses := Scan.Passes.piece hfinds (.here _ [])
  rw [List.append_nil] at hpasses
  exact tokenize_of_passes hpasses

/-- A token that ends a statement or is a bracket is one sign. -/
theorem single_of_munch {text lexeme : List Char} {kind : Kind} {value : Value}
    (h : Munch text lexeme kind value) (hkind : kind = .endOfStatement ∨ kind = .bracket) :
    ∃ c, lexeme = [c] ∧ (c = Reserved.endOfStatement ∨ Reserved.isBracket c = true) := by
  cases h with
  | word hfirst hstart hlexeme hword => rcases hword.cases with rfl | rfl | rfl <;> simp at hkind
  | @number _ numeral hfirst hstart hlexeme hread =>
      rcases kind_numeral numeral with hnumber | hnumber <;> simp [hnumber] at hkind
  | literal => simp at hkind
  | symbol => simp at hkind
  | bracket hbracket hlexeme hbegins =>
      exact ⟨_, hlexeme, .inr (List.contains_iff_mem.mpr hbracket)⟩
  | terminator hlexeme hbegins => exact ⟨_, hlexeme, .inl rfl⟩

/-- A scanned token that may be printed is written as one token of that sort. -/
theorem isPrinted_of_scanned {t : Token} (h : Scanned t)
    (hkind : t.kind ≠ .endOfStatement ∧ t.kind ≠ .bracket) : IsPrinted t.value.display := by
  have hends : endsAt .declaration t = false := by simp [endsAt, Parser.endsStatement, hkind.1]
  obtain ⟨c, more, hcons, -⟩ := h.exists_cons
  refine ⟨?_, ?_, h.outside hends⟩
  · intro hempty
    rw [hempty] at hcons
    cases hcons
  · have hwritten := h.literal_or_plain
    obtain ⟨text, lexeme, hmunch⟩ := h
    obtain ⟨kind, value, hstands, hdisplay⟩ := hmunch.stands
    -- Of these two kinds, the token would be written as one sign that only they have.
    have hother : ¬ (kind = .endOfStatement ∨ kind = .bracket) := by
      intro hsingle
      obtain ⟨sign, hsign, hreserved⟩ := single_of_munch hstands hsingle
      rcases hwritten with ⟨-, mark, body, -, -, htext⟩ | ⟨-, hplain⟩
      · rw [hsign] at htext
        simp at htext
      · have hp := hplain sign (by rw [hsign]; exact List.mem_cons_self)
        rcases hreserved with hterminator | hbracket
        · exact hkind.1 (hp.terminator hterminator)
        · exact hkind.2 (hp.bracket hbracket).1
    exact ⟨_, tokenize_of_munch hstands, hdisplay, fun hk => hother (.inl hk),
      fun hk => hother (.inr hk)⟩

/-- **The texts of scanned tokens are well formed.** -/
theorem admits_wellFormed : wellFormed.Admits Parser.Lowers Scanned where
  name _ := isName_of_scanned
  value _ _ hrun := isExpression_of_lowers fun t ht =>
    ⟨(hrun t ht).1, by simp [endsAt, Parser.endsStatement, (hrun t ht).2]⟩
  printed _ := isPrinted_of_scanned
  prompt t ht hkind := by
    rcases ht.literal_or_plain with ⟨-, hliteral⟩ | ⟨hnot, -⟩
    · exact hliteral
    · exact absurd hkind hnot
  test _ _ hrun := isExpression_of_lowers hrun

/-- **Every program that was read from a source is well formed at every depth.**  Its
names are words that are not reserved; its values and tests are trimmed, hold only
closed literals, and hold no line feed and no sign that would end them outside of
these; what is printed is the text of one token; and a prompt is one literal. -/
theorem parseSource_wellFormed (policy : Policy) (source : String) (program : Program)
    (h : (parseSource policy source).outcome = .ok program) :
    FitAll wellFormed program.body :=
  fitAll_of_parseSource admits_wellFormed h

/-- A condition whose literals hold line feeds, braces and the end of a statement. -/
def bracedSource : String :=
  "agar x \x7b likho '\x7b;\n' \x7d warna \x7b socho y = a plus \"\x7d\" \x7d"

/-- Its tokens. -/
def bracedTokens : List Token :=
  [⟨.keyword, .text "agar", ⟨1, 1, 0, 4⟩⟩, ⟨.identifier, .text "x", ⟨1, 6, 5, 6⟩⟩,
   ⟨.bracket, .text "\x7b", ⟨1, 8, 7, 8⟩⟩, ⟨.keyword, .text "likho", ⟨1, 10, 9, 14⟩⟩,
   ⟨.string, .text "'\x7b;\n'", ⟨1, 16, 15, 20⟩⟩, ⟨.bracket, .text "\x7d", ⟨2, 3, 21, 22⟩⟩,
   ⟨.keyword, .text "warna", ⟨2, 5, 23, 28⟩⟩, ⟨.bracket, .text "\x7b", ⟨2, 11, 29, 30⟩⟩,
   ⟨.keyword, .text "socho", ⟨2, 13, 31, 36⟩⟩, ⟨.identifier, .text "y", ⟨2, 19, 37, 38⟩⟩,
   ⟨.operator, .text "=", ⟨2, 21, 39, 40⟩⟩, ⟨.identifier, .text "a", ⟨2, 23, 41, 42⟩⟩,
   ⟨.operator, .text "plus", ⟨2, 25, 43, 47⟩⟩, ⟨.string, .text "\"\x7d\"", ⟨2, 30, 48, 51⟩⟩,
   ⟨.bracket, .text "\x7d", ⟨2, 34, 52, 53⟩⟩]

/-- The braces inside the literals are no tokens. -/
theorem tokenize_bracedSource : (tokenize .reject bracedSource).outcome = .ok bracedTokens := by
  decide +kernel

/-- A source with braces inside its literals. -/
theorem parseSource_bracedSource :
    (parseSource .reject bracedSource).outcome =
      .ok ⟨[.condition "x" [.print "'\x7b;\n'"] [.declaration "y" (some "a + \"\x7d\"")]]⟩ := by
  have hprogram : (parse bracedTokens).outcome =
      .ok ⟨[.condition "x" [.print "'\x7b;\n'"] [.declaration "y" (some "a + \"\x7d\"")]]⟩ := by
    with_unfolding_all rfl
  exact parseSource_eq_ok_iff.mpr ⟨bracedTokens, tokenize_bracedSource, hprogram⟩

/-- Its program is well-formed, with the braces inside the literals. -/
theorem parseSource_wellFormed_bracedSource :
    (parseSource .reject bracedSource).outcome =
        .ok ⟨[.condition "x" [.print "'\x7b;\n'"] [.declaration "y" (some "a + \"\x7d\"")]]⟩ ∧
      FitAll wellFormed
        [.condition "x" [.print "'\x7b;\n'"] [.declaration "y" (some "a + \"\x7d\"")]] :=
  ⟨parseSource_bracedSource, parseSource_wellFormed _ _ _ parseSource_bracedSource⟩

end SochoScript
