import SochoScript.Proofs.Fallbacks

/-!
# What a complaint points to

A parser knows the row that it was given and the token that it read last.  This file
follows every complaint back to the parser that raised it and says which token of that
parser's row it points to.

The readers come first: each one fails for one or two reasons, and which of them it was
can be read off the row.  A complaint about a token names that token; one about an empty
expression points to what announced the expression, the keyword of a condition or the
sign of an assignment; and one about missing tokens points just past the last token of
the row.

The last case could go wrong in two ways.  A parser of an empty row would have no token
to point behind, but such a parser never complains.  And what is missing after a keyword
is reported just past that keyword; the keyword is then the last token of the row, so
that the end of the row is the same place.  That nothing else would be reported by a parser
which falls back on other places in these cases is `Parser.parseIn_eq`.

* `expect_eq_error_iff`, `expression_eq_error_iff`, `initializer_eq_error_iff`,
  `Block.read_eq_error_iff`: why a reader fails.
* `fails_iff`: why a statement that is no condition cannot be read.
* `exists_raises`: every complaint is raised by the parser of some row.
* `Raises.blames`: what the parser of a row points to.
* `parse_error_points_to_token`: **every complaint points to a token that the parser was
  given**, or just past the last one of its row.
-/

namespace SochoScript

/-! ### Why a reader fails -/

/-- A block cannot be read: nothing is there, or something else, or its end is missing. -/
theorem Block.read_eq_error_iff {previous : Token} {tokens : List Token} {d : Diagnostic} :
    Block.read previous tokens = .error d ↔
      (tokens = [] ∧ d = .endOfInput .blockOpening previous.span.after) ∨
        ∃ t rest, tokens = t :: rest ∧
          ((t.opensBlock = false ∧ d = .unexpectedToken .blockOpening t) ∨
            (t.opensBlock = true ∧ Block.close? 0 rest = none ∧
              d = .endOfInput .blockClosing (rest.getLastD t).span.after)) := by
  cases tokens with
  | nil => simp [Block.read, eq_comm (a := d)]
  | cons t rest =>
      by_cases hopens : t.opensBlock = true
      · unfold Block.read
        simp only [if_pos hopens]
        split
        · rename_i hclose
          simp [hopens, hclose]
        · rename_i hclose
          apply Iff.intro
          · intro h
            cases h
            exact .inr ⟨t, rest, rfl, .inr ⟨hopens, hclose, rfl⟩⟩
          · intro h
            rcases h with ⟨hnil, -⟩ | ⟨_, _, hsplit, ⟨hother, -⟩ | ⟨-, -, rfl⟩⟩
            · cases hnil
            · cases hsplit
              rw [hopens] at hother
              cases hother
            · cases hsplit
              rfl
      · simp only [Block.read, if_neg hopens]
        apply Iff.intro
        · intro h
          cases h
          exact .inr ⟨t, rest, rfl, .inl ⟨by simpa using hopens, rfl⟩⟩
        · intro h
          rcases h with ⟨hnil, -⟩ | ⟨_, _, hsplit, ⟨-, rfl⟩ | ⟨hother, -⟩⟩
          · cases hnil
          · cases hsplit
            rfl
          · cases hsplit
            exact absurd hother hopens

/-- What a block encloses is a part of the row. -/
theorem Block.Encloses.isInfix {tokens inside follow : List Token}
    (h : Encloses tokens inside follow) : inside <:+: tokens := by
  obtain ⟨opening, closing, rfl, -⟩ := h
  exact ⟨[opening], closing :: follow, by simp⟩

/-- The signs of an assignment are `=` and `equals`. -/
theorem Token.assigns_iff {t : Token} :
    t.assigns = true ↔ t.kind = .operator ∧ (t.value = .text "=" ∨ t.value = .text "equals") := by
  unfold Token.assigns Token.text?
  cases t.value with
  | text word => simp [Reserved.assignments, WordOperator.spelling]
  | _ => simp

namespace Parser

/-- A token that is expected is missing, or another one is there. -/
theorem expect_eq_error_iff {expected : Expectation} {accepts : Token → Bool} {previous : Token}
    {tokens : List Token} {d : Diagnostic} :
    expect expected accepts previous tokens = .error d ↔
      (tokens = [] ∧ d = .endOfInput expected previous.span.after) ∨
        ∃ t rest, tokens = t :: rest ∧ accepts t = false ∧ d = .unexpectedToken expected t := by
  cases tokens with
  | nil => simp [expect, eq_comm (a := d)]
  | cons t rest =>
      by_cases haccepts : accepts t = true
      · simp [expect, haccepts]
      · simp [expect, haccepts, eq_comm (a := d)]

/-- An expression cannot be read if nothing is written for it. -/
theorem expression_eq_error_iff {context : Context} {anchor : Span} {run : List Token}
    {d : Diagnostic} :
    expression context anchor run = .error d ↔
      Expression.text context run = [] ∧ d = .emptyExpression context anchor := by
  unfold expression
  cases Expression.text context run with
  | nil => simp [eq_comm (a := d)]
  | cons c more => simp

/-- The value of a declaration cannot be read if its sign announces nothing. -/
theorem initializer_eq_error_iff {tokens : List Token} {d : Diagnostic} :
    initializer tokens = .error d ↔
      ∃ assignment rest, tokens = assignment :: rest ∧ assignment.assigns = true ∧
        Expression.text .declaration (leading endsStatement rest) = [] ∧
        d = .emptyExpression .declaration assignment.span := by
  cases tokens with
  | nil => simp [initializer]
  | cons first rest =>
      by_cases hassigns : first.assigns = true
      · rw [initializer_of_assigns hassigns, bind_eq_error_iff, expression_eq_error_iff]
        apply Iff.intro
        · intro h
          rcases h with ⟨htext, hd⟩ | ⟨text, -, hnone⟩
          · exact ⟨first, rest, rfl, hassigns, htext, hd⟩
          · cases hnone
        · intro h
          obtain ⟨assignment, more, hsplit, -, htext, hd⟩ := h
          cases hsplit
          exact .inl ⟨htext, hd⟩
      · simp only [initializer, if_neg hassigns, reduceCtorEq, false_iff]
        intro h
        obtain ⟨assignment, more, hsplit, hassigns', -⟩ := h
        cases hsplit
        exact hassigns hassigns'

/-- The statement that a token opens, which is no condition, cannot be read. -/
inductive Fails (t : Token) (rest : List Token) (d : Diagnostic) : Prop
  /-- Its name is missing. -/
  | name {keyword : Keyword} (hnamed : keyword = .socho ∨ keyword = .pucho)
      (hkeyword : t.IsKeyword keyword)
      (hfails : expect (.nameAfter keyword) isName t rest = .error d)
  /-- What is printed is missing. -/
  | printed (hkeyword : t.IsKeyword .likho)
      (hfails : expect .printedValue isPrintable t rest = .error d)
  /-- The value after its name is empty. -/
  | value {name : Token} {more : List Token} (hkeyword : t.IsKeyword .socho)
      (hname : isName name = true) (hrest : rest = name :: more)
      (hfails : initializer more = .error d)

/-- Every way in which a statement that is no condition cannot be read. -/
theorem fails_iff {t : Token} {rest : List Token} {d : Diagnostic} :
    Fails t rest d ↔ statement? t rest = some (.error d) ∧ ¬ t.IsKeyword .agar := by
  rw [← Token.keyword?_eq_some_iff]
  apply Iff.intro
  · intro h
    cases h with
    | @name keyword hnamed hkeyword hfails =>
        rw [← Token.keyword?_eq_some_iff] at hkeyword
        rcases hnamed with rfl | rfl
        · simp only [statement?, hkeyword, Option.some.injEq, reduceCtorEq, not_false_eq_true,
            and_true]
          exact bind_eq_error_iff.mpr (.inl hfails)
        · simp only [statement?, hkeyword, Option.some.injEq, reduceCtorEq, not_false_eq_true,
            and_true]
          exact bind_eq_error_iff.mpr (.inl hfails)
    | printed hkeyword hfails =>
        rw [← Token.keyword?_eq_some_iff] at hkeyword
        simp only [statement?, hkeyword, Option.some.injEq, reduceCtorEq, not_false_eq_true,
          and_true]
        exact bind_eq_error_iff.mpr (.inl hfails)
    | @value name more hkeyword hname hrest hfails =>
        rw [← Token.keyword?_eq_some_iff] at hkeyword
        subst hrest
        simp only [statement?, hkeyword, Option.some.injEq, reduceCtorEq, not_false_eq_true,
          and_true]
        refine bind_eq_error_iff.mpr (.inr ⟨⟨name, more, Nat.le_succ _⟩, if_pos hname, ?_⟩)
        exact bind_eq_error_iff.mpr (.inl hfails)
  · intro h
    obtain ⟨hfails, hagar⟩ := h
    unfold statement? at hfails
    split at hfails
    · rename_i hkeyword
      rw [Token.keyword?_eq_some_iff] at hkeyword
      rw [Option.some.injEq] at hfails
      rcases bind_eq_error_iff.mp hfails with hname | ⟨⟨name, more, hlength⟩, hname, hvalue⟩
      · exact .name (.inl rfl) hkeyword hname
      · obtain ⟨hrest, haccepts⟩ := yields_expect_iff.mp ⟨_, hname, rfl, rfl⟩
        rcases bind_eq_error_iff.mp hvalue with hvalue | ⟨value, -, hnone⟩
        · exact .value hkeyword haccepts hrest hvalue
        · cases hnone
    · rename_i hkeyword
      rw [Token.keyword?_eq_some_iff] at hkeyword
      rw [Option.some.injEq] at hfails
      rcases bind_eq_error_iff.mp hfails with hvalue | ⟨printed, -, hnone⟩
      · exact .printed hkeyword hvalue
      · cases hnone
    · rename_i hkeyword
      rw [Token.keyword?_eq_some_iff] at hkeyword
      rw [Option.some.injEq] at hfails
      rcases bind_eq_error_iff.mp hfails with hname | ⟨name, -, hnone⟩
      · exact .name (.inr rfl) hkeyword hname
      · cases hnone
    · exact absurd ‹_› hagar
    · cases hfails
    · cases hfails

/-! ### Who raises a complaint -/

/-- A row that is handed on is a part of the row that it comes from. -/
theorem Hands.isInfix {row inside : List Token} (h : Hands row inside) : inside <:+: row := by
  cases h with
  | @body keyword tokens head htests hhead =>
      obtain ⟨run, _, hsplit, -, -, hencloses⟩ := guarded_eq_ok_iff.mp hhead
      have hbraced : _ <:+ tokens := ⟨run, hsplit.symm⟩
      have htokens := (List.suffix_cons keyword tokens).trans htests.suffix
      exact hencloses.isInfix.trans (hbraced.trans htokens).isInfix
  | other hawaits hother =>
      have hrest := (List.suffix_cons _ _).trans hawaits.suffix
      exact (Block.read_eq_ok_iff.mp hother).isInfix.trans hrest.isInfix

/-- However often a row is handed on, it stays a part of the whole. -/
theorem isInfix_of_handed {row inside : List Token} (h : Relation.ReflTransGen Hands row inside) :
    inside <:+: row := by
  induction h with
  | refl => exact List.infix_refl _
  | tail _ hhands ih => exact hhands.isInfix.trans ih

/-- **Every complaint is raised by the parser of some row**: of the whole one, or of one
that was handed on. -/
theorem exists_raises {row : List Token} {d : Diagnostic} (h : (block row).outcome = .error d) :
    ∃ inner, Relation.ReflTransGen Hands row inner ∧ Raises inner d := by
  rcases outcome_block_eq_error_iff.mp h with hraises | ⟨inside, hhands, hinside⟩
  · exact ⟨row, .refl, hraises⟩
  · have hshorter := hhands.length_lt
    obtain ⟨inner, hinner, hraises⟩ := exists_raises hinside
    exact ⟨inner, hinner.head hhands, hraises⟩
termination_by row.length

/-! ### What it points to -/

/-- The place just past a row, and the beginning of a source for a row without tokens. -/
def rowEnd (row : List Token) : Span :=
  (row.getLast?.map fun last => last.span.after).getD {}

/-- What a complaint of the parser of `row` points to. -/
inductive Blames (row : List Token) : Diagnostic → Prop
  /-- A token of the row, which is another one than was expected. -/
  | token {expected : Expectation} {t : Token} (ht : t ∈ row) :
      Blames row (.unexpectedToken expected t)
  /-- The keyword of a condition without a test. -/
  | test {t : Token} (ht : t ∈ row) (hkeyword : t.IsKeyword .agar) :
      Blames row (.emptyExpression .condition t.span)
  /-- The sign of an assignment without a value. -/
  | value {t : Token} (ht : t ∈ row) (hkind : t.kind = .operator)
      (htext : t.value = .text "=" ∨ t.value = .text "equals") :
      Blames row (.emptyExpression .declaration t.span)
  /-- Just past a keyword without its name, at which the parser stands and behind which
  the row ends. -/
  | name {t : Token} {keyword : Keyword} (hnamed : keyword = .socho ∨ keyword = .pucho)
      (hkeyword : t.IsKeyword keyword) (hlast : Visits row [t]) :
      Blames row (.endOfInput (.nameAfter keyword) t.span.after)
  /-- Just past the keyword of a printed value that is missing, likewise. -/
  | printed {t : Token} (hkeyword : t.IsKeyword .likho) (hlast : Visits row [t]) :
      Blames row (.endOfInput .printedValue t.span.after)
  /-- Just past the last token of a row in which a brace is missing. -/
  | brace {expected : Expectation} {t : Token}
      (hexpected : expected = .blockOpening ∨ expected = .blockClosing)
      (hlast : row.getLast? = some t) : Blames row (.endOfInput expected t.span.after)

section

variable {row : List Token} {d : Diagnostic}

/-- A condition is read behind its keyword. -/
theorem Tests.isKeyword {keyword : Token} {tokens : List Token} (h : Tests row keyword tokens) :
    keyword.IsKeyword .agar := by
  cases h with
  | opened _ hkeyword => exact hkeyword
  | chained _ _ _ hbranch =>
      obtain ⟨_, -, -, hnext⟩ := cons_of_branch_eq_chained hbranch
      exact hnext

/-- What the reader of a block complains about, behind a token of the row. -/
theorem blames_of_read {previous : Token} {tokens : List Token}
    (hsuffix : previous :: tokens <:+ row) (h : Block.read previous tokens = .error d) :
    Blames row d := by
  rcases Block.read_eq_error_iff.mp h with ⟨rfl, rfl⟩ |
      ⟨t, rest, rfl, ⟨-, rfl⟩ | ⟨hopens, hclose, rfl⟩⟩
  · exact .brace (.inl rfl) (getLast?_of_suffix hsuffix rfl)
  · exact .token (hsuffix.subset (by simp))
  · refine .brace (.inr rfl) (getLast?_of_suffix hsuffix ?_)
    rw [List.getLast?_cons_cons, List.getLast?_cons, List.getLastD_eq_getLast?]

/-- What the reader of one token complains about, behind a keyword of the row. -/
theorem blames_of_expect {expected : Expectation} {accepts : Token → Bool} {t : Token}
    {rest : List Token} (hvisits : Visits row (t :: rest))
    (hmissing : Visits row [t] → Blames row (.endOfInput expected t.span.after))
    (h : expect expected accepts t rest = .error d) : Blames row d := by
  rcases expect_eq_error_iff.mp h with ⟨rfl, rfl⟩ | ⟨found, more, rfl, -, rfl⟩
  · exact hmissing hvisits
  · exact .token (hvisits.suffix.subset (by simp))

/-- What a statement that is no condition complains about. -/
theorem Fails.blames {t : Token} {rest : List Token} (hvisits : Visits row (t :: rest))
    (h : Fails t rest d) : Blames row d := by
  cases h with
  | name hnamed hkeyword hfails => exact blames_of_expect hvisits (.name hnamed hkeyword) hfails
  | printed hkeyword hfails => exact blames_of_expect hvisits (.printed hkeyword) hfails
  | value hkeyword hname hrest hfails =>
      obtain ⟨assignment, more, rfl, hassigns, -, rfl⟩ := initializer_eq_error_iff.mp hfails
      subst hrest
      obtain ⟨hkind, htext⟩ := Token.assigns_iff.mp hassigns
      exact .value (hvisits.suffix.subset (by simp)) hkind htext

/-- **What the parser of a row points to.** -/
theorem Raises.blames (h : Raises row d) : Blames row d := by
  cases h with
  | statement hvisits hkeyword hfails => exact (fails_iff.mpr ⟨hfails, hkeyword⟩).blames hvisits
  | @head keyword tokens htests hfails =>
      rcases bind_eq_error_iff.mp hfails with htest | ⟨test, -, hfails⟩
      · obtain ⟨-, rfl⟩ := expression_eq_error_iff.mp htest
        exact .test (htests.suffix.subset List.mem_cons_self) htests.isKeyword
      rcases bind_eq_error_iff.mp hfails with hblock | ⟨block, -, hnone⟩
      · have hlast := getLastD_leading_suffix Token.opensBlock keyword tokens
        exact blames_of_read (hlast.trans htests.suffix) hblock
      · cases hnone
  | other hawaits hfails => exact blames_of_read hawaits.suffix hfails

/-- Whatever is missing, the place is the end of a row that is not empty. -/
theorem Blames.rowEnd {expected : Expectation} {span : Span}
    (h : Blames row (.endOfInput expected span)) : row ≠ [] ∧ span = rowEnd row := by
  have hend : ∀ {last : Token}, row.getLast? = some last →
      row ≠ [] ∧ last.span.after = Parser.rowEnd row := by
    intro last hlast
    refine ⟨?_, by rw [Parser.rowEnd, hlast]; rfl⟩
    intro hnil
    rw [hnil] at hlast
    cases hlast
  cases h with
  | name _ _ hlast | printed _ hlast => exact hend (getLast?_of_suffix hlast.suffix rfl)
  | brace _ hlast => exact hend hlast

end

end Parser

/-- **Every complaint points to a token that the parser was given.**  It is raised by the
parser of some row, which is the whole one or the inside of a block, and points to what
`Parser.Blames` says: a token of that row, the keyword or the sign that announced an
expression, or the place just past the last token of the row.  That row is never empty,
and where a name or a value is missing, its last token is the keyword itself.  So a parser
that knows its rows only, and falls back on something else where they tell too little, makes
the same complaint whatever it falls back on. -/
theorem parse_error_points_to_token (tokens : List Token) (d : Diagnostic)
    (h : (parse tokens).outcome = .error d) :
    (∃ row, Relation.ReflTransGen Parser.Hands tokens row ∧ row <:+: tokens ∧
      Parser.Raises row d ∧ Parser.Blames row d ∧
      ∀ expected span, d = .endOfInput expected span →
        row ≠ [] ∧ span = Parser.rowEnd row) ∧
      ∀ fallbacks : Parser.Fallbacks, Parser.parseIn fallbacks tokens = parse tokens := by
  obtain ⟨row, hhanded, hraises⟩ := Parser.exists_raises (parse_eq_error_iff.mp h)
  refine ⟨⟨row, hhanded, Parser.isInfix_of_handed hhanded, hraises, hraises.blames, ?_⟩,
    fun fallbacks => Parser.parseIn_eq fallbacks tokens⟩
  intro expected span hmissing
  subst hmissing
  exact hraises.blames.rowEnd

/-- A condition whose block ends behind the keyword of a declaration. -/
def namelessBlock : List Token :=
  [⟨.keyword, .text "agar", ⟨1, 1, 0, 4⟩⟩, ⟨.identifier, .text "x", ⟨1, 6, 5, 6⟩⟩,
    ⟨.bracket, .text "\x7b", ⟨1, 8, 7, 8⟩⟩, ⟨.keyword, .text "socho", ⟨1, 10, 9, 14⟩⟩,
    ⟨.bracket, .text "\x7d", ⟨1, 16, 15, 16⟩⟩]

/-- The keyword that lacks its name is the last token of the inner row. -/
theorem parse_namelessBlock :
    (parse namelessBlock).outcome = .error (.endOfInput (.nameAfter .socho) ⟨1, 15, 14, 14⟩) := by
  with_unfolding_all rfl

/-- A complaint from inside a block points behind the keyword there and not behind the block. -/
theorem parse_error_points_to_token_namelessBlock :
    (parse namelessBlock).outcome = .error (.endOfInput (.nameAfter .socho) ⟨1, 15, 14, 14⟩) ∧
      (∃ row, Relation.ReflTransGen Parser.Hands namelessBlock row ∧ row <:+: namelessBlock ∧
        Parser.Raises row (.endOfInput (.nameAfter .socho) ⟨1, 15, 14, 14⟩) ∧
        Parser.Blames row (.endOfInput (.nameAfter .socho) ⟨1, 15, 14, 14⟩) ∧
        ∀ expected span, Diagnostic.endOfInput (.nameAfter .socho) ⟨1, 15, 14, 14⟩ =
          .endOfInput expected span → row ≠ [] ∧ span = Parser.rowEnd row) ∧
      ∀ fallbacks : Parser.Fallbacks,
        Parser.parseIn fallbacks namelessBlock = parse namelessBlock :=
  ⟨parse_namelessBlock, parse_error_points_to_token _ _ parse_namelessBlock⟩

end SochoScript
