import SochoScript.Proofs.WellFormed
import SochoScript.Proofs.Policies

/-!
# Programs one after the other

Two sources can be put one after the other, with the end of a statement and a line
feed between them, and each is read as if the other were not there.

For the tokens this is so because nothing that the parser looks for reaches over the
end of a statement.  A value ends there, and neither an assignment, a prompt nor
another branch can begin with it, so that whatever was read without looking further is
read again.  What is asked is that the first row is a program of its own; the second
one may be anything, and a complaint about it is the complaint about the whole.

For the texts it is so because neither sign extends a lexeme.  The second source then
stands at the beginning of a line, and its places are those that it has alone, moved
down by the lines and bytes before it.

* `Statements.block_terminated`: a row of statements and the end of one may stand in
  front of anything.
* `tokenize_terminated`: the tokens of both sources, with one between them.
* `parse_terminated`: **programs one after the other are one program**, and a failure
  of the second one is only moved.
-/

namespace SochoScript

/-! ### Rows of tokens -/

namespace Grammar

open SochoScript.Parser (Lowers)

variable {lowers : Rendering} {t : Token}

/-- The first token behind a row is the first one behind the end of it, or that end. -/
theorem mem_head?_append_cons {follow rest : List Token} {first : Token}
    (h : first ∈ (follow ++ t :: rest).head?) : first ∈ follow.head? ∨ first = t := by
  cases follow with
  | nil => exact .inr (Option.some.inj h).symm
  | cons other follow => exact .inl h

/-- What a statement looks for behind itself is not the end of a statement. -/
theorem Simple.terminated {item follow : List Token} {s : Statement}
    (h : Simple lowers item follow s) (ht : t.kind = .endOfStatement) (rest : List Token) :
    Simple lowers item (follow ++ t :: rest) s := by
  cases h with
  | declared hkeyword hname hfollow =>
      refine .declared hkeyword hname ?_
      intro first hfirst
      rcases mem_head?_append_cons hfirst with hfirst | rfl
      · exact hfollow first hfirst
      · simp [Token.assigns, ht]
  | initialized hkeyword hname hassignment hrun hfollow htext =>
      refine .initialized hkeyword hname hassignment hrun ?_ htext
      intro first hfirst
      rcases mem_head?_append_cons hfirst with hfirst | rfl
      · exact hfollow first hfirst
      · exact ht
  | printed hkeyword hvalue => exact .printed hkeyword hvalue
  | unprompted hkeyword hname hfollow =>
      refine .unprompted hkeyword hname ?_
      intro first hfirst
      rcases mem_head?_append_cons hfirst with hfirst | rfl
      · exact hfollow first hfirst
      · simp [ht]
  | prompted hkeyword hname hliteral => exact .prompted hkeyword hname hliteral

/-- The end of a statement opens no other branch. -/
theorem Conditional.terminated {item follow : List Token} {s : Statement}
    (h : Conditional lowers item follow s) (ht : t.kind = .endOfStatement) (rest : List Token) :
    Conditional lowers item (follow ++ t :: rest) s := by
  induction hlength : item.length using Nat.strongRecOn generalizing item s with
  | ind n ih =>
      cases h with
      | alone hhead hfollow =>
          refine .alone hhead ?_
          intro first hfirst
          rcases mem_head?_append_cons hfirst with hfirst | rfl
          · exact hfollow first hfirst
          · simp [Token.IsKeyword, ht]
      | otherwise hhead hopening hother => exact .otherwise hhead hopening hother
      | @chained head chain _ opening _ _ _ hhead hopening hother =>
          simp only [List.length_append, List.length_cons] at hlength
          exact .chained hhead hopening (ih chain.length (by omega) hother rfl)

/-- A statement that can be read is the first one of its row. -/
theorem outcome_block_of_opens {first : Token} {rest follow : List Token} {s : Statement}
    (h : Parser.Opens first rest s follow) :
    (Parser.block (first :: rest)).outcome = do
      let more ← (Parser.block follow).outcome
      return s :: more := by
  obtain ⟨reading, hsome, read, hread, rfl, rfl⟩ := Parser.opens_iff.mp h
  rw [Parser.outcome_block_cons, hsome, hread]
  rfl

/-- A token that is passed over has no influence on the outcome. -/
theorem outcome_block_of_stray {first : Token} (h : Parser.Stray first) (rest : List Token) :
    (Parser.block (first :: rest)).outcome = (Parser.block rest).outcome := by
  rw [Parser.outcome_block_cons, (Parser.statement?_eq_none_iff first rest).mpr h]

/-- **A row of statements and the end of one may stand in front of anything.** -/
theorem Statements.block_terminated (ht : t.kind = .endOfStatement) (rest : List Token)
    {tokens : List Token} {body : List Statement} :
    Statements Lowers tokens body →
      (Parser.block (tokens ++ t :: rest)).outcome = do
        let more ← (Parser.block rest).outcome
        return body ++ more
  | .nil => by
      -- Here the row ends, and the end of a statement opens nothing itself.
      have hstray : Parser.Stray t := by
        intro keyword _ hkeyword
        have hkind := hkeyword.1
        rw [ht] at hkind
        cases hkind
      rw [List.nil_append, outcome_block_of_stray hstray]
      exact (bind_pure _).symm
  | .stray hstray hrest => by
      rw [List.cons_append, outcome_block_of_stray hstray, hrest.block_terminated ht rest]
  | .simple hitem hrest => by
      obtain ⟨first, more, hsplit, hopens⟩ := (hitem.terminated ht rest).opens
      rw [List.append_assoc, hsplit, outcome_block_of_opens hopens,
        hrest.block_terminated ht rest, bind_assoc]
      rfl
  | .conditional hitem hrest => by
      obtain ⟨first, more, hsplit, hkeyword, hread⟩ :=
        (hitem.terminated ht rest).yields (fun inside body _ => block_of_statements) (Nat.le_refl _)
      rw [List.append_assoc, hsplit, outcome_block_of_opens (.condition hkeyword hread),
        hrest.block_terminated ht rest, bind_assoc]
      rfl

end Grammar

section

variable {tokens : List Token} {t : Token} {program : Program}

/-- Behind the end of a statement the rest is parsed on its own. -/
theorem outcome_parse_terminated (h : (parse tokens).outcome = .ok program)
    (ht : t.kind = .endOfStatement) (rest : List Token) :
    (parse (tokens ++ [t] ++ rest)).outcome = do
      let other ← (parse rest).outcome
      return ⟨program.body ++ other.body⟩ := by
  have hstatements := Grammar.statements_of_block (Grammar.parse_eq_ok_iff.mp h)
  rw [outcome_parse, outcome_parse, List.append_assoc, List.singleton_append,
    hstatements.block_terminated ht rest]
  simp only [bind_assoc, pure_bind]

end

/-! ### Texts -/

namespace Scan

open Lexeme

variable {policy : Policy} {before text after left : List Char} {pieces : List Piece}

/-- Walks can be joined. -/
theorem Passes.trans {further left' : List Char} {more : List Piece}
    (h : Passes policy before text pieces after left)
    (hmore : Passes policy after left more further left') :
    Passes policy before text (pieces ++ more) further left' := by
  induction h with
  | here before text => exact hmore
  | blank hblank tail ih => exact .blank hblank (ih hmore)
  | piece hfinds tail ih => exact .piece hfinds (ih hmore)

/-- A lexeme is found also when more text follows, unless its first character extends it. -/
theorem Finds.append {lexeme extra : List Char} {piece : Piece}
    (h : Finds policy before lexeme text piece)
    (hextra : ∀ c ∈ extra.head?, extends? lexeme c = false) :
    Finds policy before lexeme (text ++ extra) piece := by
  cases h with
  | token hmunch =>
      obtain ⟨halone, hstops⟩ := munch_append_iff.mp hmunch
      refine .token (munch_append_iff.mpr ⟨halone, ?_⟩)
      intro c hc
      cases text with
      | nil => exact hextra c hc
      | cons d text => exact hstops c hc
  | skipped hpolicy hnothing hlexeme => exact .skipped hpolicy hnothing hlexeme

/-- A walk stays one if more text follows, as long as that extends no lexeme. -/
theorem Passes.append {extra : List Char} (h : Passes policy before text pieces after left)
    (hextra : ∀ lexeme, ∀ c ∈ extra.head?, extends? lexeme c = false) :
    Passes policy before (text ++ extra) pieces after (left ++ extra) := by
  induction h with
  | here before text => exact .here before (text ++ extra)
  | blank hblank tail ih => exact .blank hblank ih
  | piece hfinds tail ih =>
      rw [List.append_assoc]
      exact .piece (hfinds.append (hextra _)) ih

/-- The end of a statement and a line feed behind a walk to the end of a text. -/
theorem Passes.terminated (h : Passes policy [] text pieces text []) (more : List Char) :
    Passes policy [] (text ++ [';', '\n'] ++ more)
      (pieces ++ [.token ⟨.endOfStatement, .text ";", .covering text [';']⟩])
      (text ++ [';', '\n']) more := by
  have hextends : ∀ lexeme, ∀ c ∈ (';' :: '\n' :: more).head?, extends? lexeme c = false := by
    intro lexeme c hc
    cases hc
    exact extends?_eq_false lexeme (by decide) (by decide) (by decide)
  have hmunch : Munch ([';'] ++ '\n' :: more) [';'] .endOfStatement (.text ";") :=
    .terminator rfl ⟨_, rfl⟩
  have hfeed : Passes policy (text ++ [';']) ('\n' :: more) [] (text ++ [';'] ++ ['\n']) more :=
    .blank (by decide) (.here _ _)
  have hsign : Passes policy text (';' :: '\n' :: more) _ (text ++ [';'] ++ ['\n']) more :=
    .piece (.token hmunch) hfeed
  have hall := (h.append hextends).trans hsign
  simpa using hall

end Scan

/-- A stretch that stands `lines` lines and `bytes` bytes further down, in the same
column. -/
def Span.down (lines bytes : Nat) (s : Span) : Span :=
  { s with line := s.line + lines, start := s.start + bytes, stop := s.stop + bytes }

/-- Moving down and pointing behind can be done in either order. -/
theorem Span.down_after (lines bytes : Nat) (s : Span) :
    down lines bytes s.after = (down lines bytes s).after := by
  simp only [down, after, mk.injEq, true_and, and_true]
  omega

/-- The place behind the end of a statement and a line feed. -/
theorem advanceAll_terminated (text : List Char) :
    Position.origin.advanceAll (text ++ [';', '\n']) =
      ⟨1 + (text.count '\n' + 1), 1, byteCount text + 2⟩ := by
  have hsplit : text ++ [';', '\n'] = text ++ [';'] ++ ['\n'] := by simp
  have hcount : byteCount [';', '\n'] = 2 := by decide
  rw [advanceAll_origin, hsplit, lastLine_concat, if_pos rfl, ← hsplit, byteCount_append, hcount,
    List.count_append]
  rfl

/-- Behind a line feed, moving is moving down. -/
theorem shift_terminated (text : List Char) :
    Span.shift (Position.origin.advanceAll (text ++ [';', '\n'])) =
      Span.down (text.count '\n' + 1) (byteCount text + 2) := by
  funext s
  rw [advanceAll_terminated]
  simp only [Span.shift, Span.down, Nat.add_sub_cancel_left, Nat.sub_self, Nat.add_zero, ite_self]

section

variable {policy : Policy} {a : String} {tokens : List Token}

/-- The tokens of two sources, with one between them. -/
theorem tokenize_terminated (h : (tokenize policy a).outcome = .ok tokens) (b : String) :
    ∃ t : Token, t.kind = .endOfStatement ∧
      (tokenize policy (a ++ ";\n" ++ b)).outcome = do
        let more ← relocateOutcome (Span.down (a.toList.count '\n' + 1) (a.utf8ByteSize + 2))
          (tokenize policy b).outcome
        return tokens ++ [t] ++ more := by
  obtain ⟨pieces, hpasses, rfl, -⟩ := exists_passes_of_tokenize h
  refine ⟨⟨.endOfStatement, .text ";", .covering a.toList [';']⟩, rfl, ?_⟩
  have hsource : (a ++ ";\n" ++ b).toList = a.toList ++ [';', '\n'] ++ b.toList := by
    rw [String.toList_append, String.toList_append]
    rfl
  have hrun := Scan.run_of_passes (hpasses.terminated b.toList)
  rw [Position.advanceAll_nil, Scan.run_behind] at hrun
  rw [outcome_tokenize, outcome_tokenize, hsource, hrun, Scan.outcome_prepend,
    Scan.outcome_shift, shift_terminated, byteCount_toList, List.filterMap_append]
  rfl

/-- What two sources say is what the second one says, behind what the first one says. -/
theorem outcome_parseSource_terminated {p : Program}
    (h : (parseSource policy a).outcome = .ok p) (b : String) :
    (parseSource policy (a ++ ";\n" ++ b)).outcome = do
      let q ← (parseSource policy b).outcome.mapError
        (Diagnostic.relocate (Span.down (a.toList.count '\n' + 1) (a.utf8ByteSize + 2)))
      return ⟨p.body ++ q.body⟩ := by
  obtain ⟨tokens, htokens, hprogram⟩ := parseSource_eq_ok_iff.mp h
  obtain ⟨t, ht, hall⟩ := tokenize_terminated htokens b
  rw [outcome_parseSource, outcome_parseSource, hall]
  cases (tokenize policy b).outcome with
  | error e => rfl
  | ok more =>
      -- The tokens of the second source have moved, and the parser only repeats places.
      have hparse := outcome_parse_terminated hprogram ht
        (more.map (Token.relocate (Span.down (a.toList.count '\n' + 1) (a.utf8ByteSize + 2))))
      rw [parse_relocate (Span.down_after _ _)] at hparse
      exact hparse

end

/-- **Programs one after the other are one program.**  Where a source is a program and
another one stands behind it, with the end of a statement and a line feed between them,
the statements of the one are followed by those of the other.  If the other one is no
program, the complaint about it is that about the whole, moved down by the lines and
bytes before it.  So it is for rows of tokens, of which the first one is a program, with
any end of a statement between them; there nothing is moved. -/
theorem parse_terminated :
    (∀ (policy : Policy) (a b : String) (p : Program), (parseSource policy a).outcome = .ok p →
      (∀ q, (parseSource policy b).outcome = .ok q →
        (parseSource policy (a ++ ";\n" ++ b)).outcome = .ok ⟨p.body ++ q.body⟩) ∧
      ∀ e, (parseSource policy b).outcome = .error e →
        (parseSource policy (a ++ ";\n" ++ b)).outcome =
          .error (e.relocate (Span.down (a.toList.count '\n' + 1) (a.utf8ByteSize + 2)))) ∧
    ∀ (tokens rest : List Token) (t : Token) (p : Program), (parse tokens).outcome = .ok p →
      t.kind = .endOfStatement →
      (∀ q, (parse rest).outcome = .ok q →
        (parse (tokens ++ [t] ++ rest)).outcome = .ok ⟨p.body ++ q.body⟩) ∧
      ∀ e, (parse rest).outcome = .error e →
        (parse (tokens ++ [t] ++ rest)).outcome = .error e := by
  refine ⟨?_, ?_⟩
  · intro policy a b p h
    rw [outcome_parseSource_terminated h b]
    refine ⟨?_, ?_⟩
    · intro q hq
      rw [hq]
      rfl
    · intro e he
      rw [he]
      rfl
  · intro tokens rest t p h ht
    rw [outcome_parse_terminated h ht rest]
    refine ⟨?_, ?_⟩
    · intro q hq
      rw [hq]
      rfl
    · intro e he
      rw [he]
      rfl

/-- A program whose last statement is a condition without another branch. -/
theorem parseSource_last_condition :
    (parseSource .reject "agar x \x7b\x7d\n").outcome = .ok ⟨[.condition "x" [] []]⟩ := by
  refine parseSource_eq_ok_iff.mpr
    ⟨[⟨.keyword, .text "agar", ⟨1, 1, 0, 4⟩⟩, ⟨.identifier, .text "x", ⟨1, 6, 5, 6⟩⟩,
      ⟨.bracket, .text "\x7b", ⟨1, 8, 7, 8⟩⟩, ⟨.bracket, .text "\x7d", ⟨1, 9, 8, 9⟩⟩], ?_, ?_⟩
  · decide +kernel
  · with_unfolding_all rfl

/-- Read on its own, the second source fails. -/
theorem parseSource_stray_branch :
    (parseSource .reject "warna agar").outcome =
      .error (.emptyExpression .condition ⟨1, 7, 6, 10⟩) := by
  have htokens : (tokenize .reject "warna agar").outcome = .ok
      [⟨.keyword, .text "warna", ⟨1, 1, 0, 5⟩⟩, ⟨.keyword, .text "agar", ⟨1, 7, 6, 10⟩⟩] := by
    decide +kernel
  rw [outcome_parseSource, htokens]
  with_unfolding_all rfl

/-- What begins like another branch is not one of the condition before it, and its
complaint is two lines and twelve bytes further down. -/
theorem parse_terminated_stray_branch :
    (parseSource .reject "agar x \x7b\x7d\n").outcome = .ok ⟨[.condition "x" [] []]⟩ ∧
      (parseSource .reject "warna agar").outcome =
        .error (.emptyExpression .condition ⟨1, 7, 6, 10⟩) ∧
      (parseSource .reject ("agar x \x7b\x7d\n" ++ ";\n" ++ "warna agar")).outcome =
        .error (.emptyExpression .condition ⟨3, 7, 18, 22⟩) :=
  ⟨parseSource_last_condition, parseSource_stray_branch,
    (parse_terminated.1 _ _ _ _ parseSource_last_condition).2 _ parseSource_stray_branch⟩

end SochoScript
