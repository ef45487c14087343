import SochoScript.Proofs.Layout
import SochoScript.Proofs.Places
import SochoScript.Compilation
import Mathlib.Data.String.Basic

/-!
# Where failures point

A failure of the lexer points to the lexeme that it stumbled over, and a failure
of the parser to a token, or just past one when the tokens have run out.  All of
these places lie between characters of the source, and the line and the column
are those that a reader counts, with one exception.

The place just past a token is not counted: its column is that of the token moved
by the number of bytes of the lexeme, and its line is that of the token.  This is
right exactly if the lexeme stays in its line and is made of single bytes only.
Literals need not be so.

* `placed_after_covering_iff`: when the place just past a lexeme is right.
* `exists_blamed`: every complaint of the parser goes back to a token.
* `compile_error_placed_iff`: **a failure points to a true place, unless the tokens
  have run out behind a lexeme with a line feed or a wide character.**
-/

namespace SochoScript

/-! ### Just past a lexeme -/

/-- The bytes of a text are those of its characters. -/
theorem byteCount_toList (text : String) : byteCount text.toList = text.utf8ByteSize := by
  have hlist : ∀ cs : List Char, byteCount cs = String.utf8Len cs := by
    intro cs
    induction cs with
    | nil => rfl
    | cons c cs ih => rw [byteCount, String.utf8Len_cons, ih, Nat.add_comm]
  rw [hlist, ← String.utf8ByteSize_ofList, String.ofList_toList]

/-- A text has no more characters than bytes. -/
theorem length_le_byteCount (text : List Char) : text.length ≤ byteCount text := by
  induction text with
  | nil => simp
  | cons c text ih =>
      have hsize := c.utf8Size_pos
      rw [List.length_cons, byteCount]
      omega

/-- It has as many exactly if each character takes one byte. -/
theorem byteCount_eq_length_iff {text : List Char} :
    byteCount text = text.length ↔ ∀ c ∈ text, c.utf8Size = 1 := by
  induction text with
  | nil => simp
  | cons c text ih =>
      have hsize := c.utf8Size_pos
      have hle := length_le_byteCount text
      rw [byteCount, List.length_cons, List.forall_mem_cons, ← ih]
      omega

/-- Without a line break the last line goes on. -/
theorem lastLine_append {left right : List Char} (h : '\n' ∉ right) :
    lastLine (left ++ right) = lastLine left ++ right := by
  have hall : ∀ c ∈ right.reverse, decide (c ≠ '\n') = true := by
    intro c hc
    rw [decide_eq_true_eq]
    rintro rfl
    exact h (List.mem_reverse.mp hc)
  rw [lastLine, List.reverse_append, List.takeWhile_append_of_pos hall, List.reverse_append,
    List.reverse_reverse, lastLine]

/-- A text of single bytes that stays in its line. -/
def IsNarrow (text : List Char) : Prop := ∀ c ∈ text, c ≠ '\n' ∧ c.utf8Size = 1

namespace Span

/-- A place is right exactly if it is right for the one beginning of the source that
has its number of bytes. -/
theorem placed_iff {span : Span} {before after : List Char}
    (hstart : span.start = byteCount before) :
    span.Placed (before ++ after) ↔
      span.line = 1 + before.count '\n' ∧ span.column = 1 + (lastLine before).length := by
  apply Iff.intro
  · intro h
    obtain ⟨before', after', hsource, hstart', hline, hcolumn⟩ := h
    rw [eq_of_byteCount_eq hsource (hstart.symm.trans hstart')]
    exact ⟨hline, hcolumn⟩
  · intro h
    exact ⟨before, after, rfl, hstart, h.1, h.2⟩

/-- **The place just past a lexeme is right exactly if the lexeme is narrow.** -/
theorem placed_after_covering_iff (before lexeme rest : List Char) :
    (covering before lexeme).after.Placed (before ++ (lexeme ++ rest)) ↔ IsNarrow lexeme := by
  rw [← List.append_assoc, placed_iff (by simp [after])]
  simp only [after, covering, between, advanceAll_origin, byteCount_append, List.count_append]
  by_cases hfeed : '\n' ∈ lexeme
  · have hcount := List.count_pos_iff.mpr hfeed
    apply iff_of_false
    · omega
    · intro h
      exact (h '\n' hfeed).1 rfl
  · have hcount := List.count_eq_zero.mpr hfeed
    have hnarrow : IsNarrow lexeme ↔ byteCount lexeme = lexeme.length := by
      rw [byteCount_eq_length_iff]
      grind [IsNarrow]
    rw [hnarrow, lastLine_append hfeed, List.length_append]
    omega

/-- The place just past a part of the source covers nothing there. -/
theorem Covers.after {span : Span} {source text : List Char} (h : span.Covers source text) :
    span.after.Covers source [] := by
  obtain ⟨before, rest, rfl, -, hstop⟩ := h
  exact ⟨before ++ text, rest, by simp, hstop, by rwa [List.append_nil]⟩

/-- A stretch between characters ends behind its beginning and within the source. -/
theorem Covers.bounds {span : Span} {source text : List Char} (h : span.Covers source text) :
    span.start ≤ span.stop ∧ span.stop ≤ byteCount source := by
  obtain ⟨before, rest, rfl, hstart, hstop⟩ := h
  rw [hstart, hstop, byteCount_append, byteCount_append, byteCount_append]
  omega

end Span

/-! ### What the parser complains about -/

/-- A complaint hands on a place that the tokens had, or moves just past one. -/
theorem Diagnostic.Alike.exists_span {P : Span → Span → Prop} {d d' : Diagnostic}
    (h : d.Alike P d') :
    ∃ span span', P span span' ∧
      ((d.span? = some span ∧ ∀ expected other, d ≠ .endOfInput expected other) ∨
        ∃ expected, d = .endOfInput expected span.after) := by
  cases h with
  | endOfInput hspan => exact ⟨_, _, hspan, .inr ⟨_, rfl⟩⟩
  | unexpectedToken ht => exact ⟨_, _, ht.span, .inl ⟨rfl, by simp⟩⟩
  | emptyExpression hspan => exact ⟨_, _, hspan, .inl ⟨rfl, by simp⟩⟩

/-- **Every complaint of the parser goes back to a token.**  It points to the token,
or just past it if the tokens have run out. -/
theorem exists_blamed {tokens : List Token} {d : Diagnostic}
    (h : (parse tokens).outcome = .error d) :
    ∃ t ∈ tokens, (d.span? = some t.span ∧ ∀ expected other, d ≠ .endOfInput expected other) ∨
      ∃ expected, d = .endOfInput expected t.span.after := by
  -- The row is compared with itself, and only the places of its tokens are allowed.
  have hself : Alikes (fun span _ => ∃ t ∈ tokens, t.span = span) tokens tokens :=
    List.forall₂_same.mpr fun t ht => ⟨rfl, rfl, t, ht, rfl⟩
  have hagree := parse_agree hself
  rw [h] at hagree
  cases hagree with
  | error halike =>
      obtain ⟨span, -, ⟨t, ht, rfl⟩, hspan⟩ := halike.exists_span
      exact ⟨t, ht, hspan⟩

/-! ### The place of a failure -/

/-- The place is just past a token of the source whose lexeme is narrow. -/
def PastNarrowToken (policy : Policy) (source : String) (span : Span) : Prop :=
  ∃ tokens t lexeme, (tokenize policy source).outcome = .ok tokens ∧ t ∈ tokens ∧
    t.span.Covers source.toList lexeme ∧ span = t.span.after ∧ IsNarrow lexeme

/-- The place past a token is the true one exactly if the token is narrow. -/
theorem placed_after_iff {policy : Policy} {source : String} {tokens : List Token} {t : Token}
    (htokens : (tokenize policy source).outcome = .ok tokens) (ht : t ∈ tokens) :
    t.span.after.Placed source.toList ↔ PastNarrowToken policy source t.span.after := by
  apply Iff.intro
  · intro h
    obtain ⟨before, lexeme, rest, hsource, hspan, -⟩ := exists_munch_of_tokenize htokens ht
    refine ⟨tokens, t, lexeme, htokens, ht, ?_, rfl, ?_⟩
    · rw [hsource, hspan]
      exact Span.covers_covering before lexeme rest
    · rwa [hsource, hspan, Span.placed_after_covering_iff] at h
  · intro h
    obtain ⟨tokens', t', lexeme, htokens', ht', hcovers, hafter, hnarrow⟩ := h
    obtain ⟨before, found, rest, hsource, hspan, -⟩ := exists_munch_of_tokenize htokens' ht'
    have hfound := Span.covers_covering before found rest
    rw [hsource, hspan] at hcovers
    rw [hafter, hsource, hspan, Span.placed_after_covering_iff, ← hcovers.unique hfound]
    exact hnarrow

/-- No fault in the text complains that tokens are missing. -/
theorem Lexeme.Fault.ne_endOfInput {policy : Policy} {text lexeme : List Char}
    {complaint : Span → Diagnostic} (h : Fault policy text lexeme complaint) (span other : Span)
    (expected : Expectation) : complaint span ≠ .endOfInput expected other := by
  cases h <;> simp

/-- The diagnostic points to a part of the source, and not just past one. -/
def Diagnostic.PointsInto (source : List Char) (d : Diagnostic) : Prop :=
  ∃ before lexeme rest, source = before ++ (lexeme ++ rest) ∧
    d.span? = some (.covering before lexeme) ∧ ∀ expected other, d ≠ .endOfInput expected other

/-- A failure of the lexer points to what it stumbled over. -/
theorem pointsInto_of_tokenize {policy : Policy} {source : String} {d : Diagnostic}
    (h : (tokenize policy source).outcome = .error d) : d.PointsInto source.toList := by
  rw [tokenize_eq_error_iff, Scan.fault?_run_eq_some_iff] at h
  obtain ⟨before, lexeme, rest, complaint, ⟨pieces, hwalk⟩, hfault, rfl⟩ := h
  exact ⟨before, lexeme, rest, hwalk.append_eq, hfault.span?_eq _,
    fun expected other => hfault.ne_endOfInput _ other expected⟩

/-- A failure points into the source, or just past one of its tokens. -/
theorem pointsInto_or_past {settings : Settings} {source : String} {d : Diagnostic}
    (h : (compile settings source).outcome = .error d) :
    d.PointsInto source.toList ∨
      ∃ tokens t expected, (tokenize settings.policy source).outcome = .ok tokens ∧ t ∈ tokens ∧
        d = .endOfInput expected t.span.after := by
  rw [outcome_compile] at h
  cases htokens : (tokenize settings.policy source).outcome with
  | error e =>
      rw [htokens] at h
      cases h
      exact .inl (pointsInto_of_tokenize htokens)
  | ok tokens =>
      rw [htokens] at h
      cases hprogram : (parse tokens).outcome with
      | ok program =>
          simp only [hprogram, bind, Except.bind] at h
          cases h
      | error e =>
          simp only [hprogram, bind, Except.bind] at h
          cases h
          obtain ⟨t, ht, ⟨hspan, hother⟩ | ⟨expected, hpast⟩⟩ := exists_blamed hprogram
          · obtain ⟨before, lexeme, rest, hsource, hcovering, -⟩ :=
              exists_munch_of_tokenize htokens ht
            exact .inl ⟨before, lexeme, rest, hsource, hcovering ▸ hspan, hother⟩
          · exact .inr ⟨tokens, t, expected, rfl, ht, hpast⟩

section

variable {settings : Settings} {source : String} {d : Diagnostic} {span : Span}

/-- The place of a failure lies between characters of the source. -/
theorem exists_covers_of_compile (h : (compile settings source).outcome = .error d)
    (hspan : d.span? = some span) : ∃ text, span.Covers source.toList text := by
  rcases pointsInto_or_past h with ⟨before, lexeme, rest, hsource, hcovering, -⟩ |
      ⟨tokens, t, expected, htokens, ht, rfl⟩
  · rw [hspan, Option.some.injEq] at hcovering
    rw [hsource, hcovering]
    exact ⟨lexeme, Span.covers_covering before lexeme rest⟩
  · cases hspan
    obtain ⟨before, lexeme, rest, hsource, hcovering, -⟩ := exists_munch_of_tokenize htokens ht
    rw [hsource, hcovering]
    exact ⟨[], (Span.covers_covering before lexeme rest).after⟩

/-- The place of a failure is right exactly if it is not just past a wide token. -/
theorem placed_iff_of_compile (h : (compile settings source).outcome = .error d)
    (hspan : d.span? = some span) :
    span.Placed source.toList ↔ ∀ expected, d = .endOfInput expected span →
      PastNarrowToken settings.policy source span := by
  rcases pointsInto_or_past h with ⟨before, lexeme, rest, hsource, hcovering, hother⟩ |
      ⟨tokens, t, expected, htokens, ht, rfl⟩
  · rw [hspan, Option.some.injEq] at hcovering
    apply iff_of_true
    · rw [hsource, hcovering]
      exact Span.placed_covering before lexeme rest
    · intro expected hpast
      exact absurd hpast (hother expected span)
  · cases hspan
    rw [placed_after_iff htokens ht]
    simp

end

/-- **Where failures point.**  The place of a failure lies between characters of the
source.  Its line and its column are those of its beginning, unless the tokens have
run out and the last one that was read is not narrow. -/
theorem compile_error_placed_iff (settings : Settings) (source : String) (d : Diagnostic)
    (span : Span) (h : (compile settings source).outcome = .error d)
    (hspan : d.span? = some span) :
    span.start ≤ span.stop ∧ span.stop ≤ source.utf8ByteSize ∧
      (∃ text, span.Covers source.toList text) ∧
      (span.Placed source.toList ↔ ∀ expected, d = .endOfInput expected span →
        PastNarrowToken settings.policy source span) := by
  obtain ⟨text, hcovers⟩ := exists_covers_of_compile h hspan
  have hbounds := hcovers.bounds
  rw [byteCount_toList] at hbounds
  exact ⟨hbounds.1, hbounds.2, ⟨text, hcovers⟩, placed_iff_of_compile h hspan⟩

/-- A condition whose test is a literal with a wide character and whose block is
missing. -/
theorem compile_wide_test :
    (compile {} "agar \"é\"").outcome = .error (.endOfInput .blockOpening ⟨1, 10, 9, 9⟩) := by
  have htokens : (tokenize .skip "agar \"é\"").outcome = .ok
      [⟨.keyword, .text "agar", ⟨1, 1, 0, 4⟩⟩, ⟨.string, .text "\"é\"", ⟨1, 6, 5, 9⟩⟩] := by
    decide +kernel
  have hprogram : (parse [⟨.keyword, .text "agar", ⟨1, 1, 0, 4⟩⟩,
      ⟨.string, .text "\"é\"", ⟨1, 6, 5, 9⟩⟩]).outcome =
        .error (.endOfInput .blockOpening ⟨1, 10, 9, 9⟩) := by
    with_unfolding_all rfl
  simp only [outcome_compile, htokens, bind, Except.bind, hprogram]

/-- **The column just past a wide literal is counted in bytes.**  The reader of this
source would count nine columns up to its end, and is sent to the tenth. -/
theorem wide_test_misplaced :
    (compile {} "agar \"é\"").outcome = .error (.endOfInput .blockOpening ⟨1, 10, 9, 9⟩) ∧
      ¬ (⟨1, 10, 9, 9⟩ : Span).Placed "agar \"é\"".toList := by
  refine ⟨compile_wide_test, ?_⟩
  have hcount : (9 : Nat) = byteCount "agar \"é\"".toList := by decide
  rw [← List.append_nil "agar \"é\"".toList, Span.placed_iff hcount]
  decide

/-- The condition for the test with a wide character, which it does not meet. -/
theorem compile_error_placed_iff_wide_test :
    (compile {} "agar \"é\"").outcome = .error (.endOfInput .blockOpening ⟨1, 10, 9, 9⟩) ∧
      (Diagnostic.endOfInput .blockOpening ⟨1, 10, 9, 9⟩).span? = some ⟨1, 10, 9, 9⟩ ∧
      (9 ≤ 9 ∧ 9 ≤ "agar \"é\"".utf8ByteSize ∧
        (∃ text, (⟨1, 10, 9, 9⟩ : Span).Covers "agar \"é\"".toList text) ∧
        ((⟨1, 10, 9, 9⟩ : Span).Placed "agar \"é\"".toList ↔
          ∀ expected, Diagnostic.endOfInput .blockOpening ⟨1, 10, 9, 9⟩ =
            .endOfInput expected ⟨1, 10, 9, 9⟩ →
            PastNarrowToken .skip "agar \"é\"" ⟨1, 10, 9, 9⟩)) :=
  ⟨compile_wide_test, rfl, compile_error_placed_iff {} _ _ _ compile_wide_test rfl⟩

end SochoScript
