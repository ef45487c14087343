import SochoScript.Proofs.Complaints

/-!
# More tokens behind a complaint

A parser decides from left to right, but some of its decisions look ahead: whether an
assignment, a prompt or another branch follows, and where a value or a block ends.  The
end of the row is an answer to all of these questions, and it is the one answer that more
tokens can change.

So what a parser did before it came to some token of its row, it does again if more tokens
stand behind the row.  It comes to the same places, hands on the same rows and stumbles
over the same token.  A block is found up to its own brace and does not change at all,
and neither does what the parser of its inside complains about.

* `Simple.of_head?_eq`, `Conditional.of_head?_eq`: a statement looks at the first token
  behind it at most.
* `Opens.append`: a statement that does not reach the end of the row stays as it is.
* `Visits.append`, `Tests.append`, `Awaits.append`, `Hands.append`: so does the way of the
  parser, step by step.
* `parse_append_of_unexpectedToken`: **a wrong token stays wrong whatever follows.**
-/

namespace SochoScript

/-- What is appended to a row with a token does not change its first token. -/
theorem head?_append_of_ne_nil {tokens : List Token} (h : tokens ≠ []) (more : List Token) :
    (tokens ++ more).head? = tokens.head? := by
  rw [List.head?_append, List.head?_eq_some_head h, Option.some_or]

/-! ### Blocks -/

namespace Block

/-- A block in front stays the same block when more tokens follow. -/
theorem Encloses.append {tokens inside follow : List Token} (h : Encloses tokens inside follow)
    (more : List Token) : Encloses (tokens ++ more) inside (follow ++ more) := by
  obtain ⟨opening, closing, rfl, hblock⟩ := h
  exact ⟨opening, closing, by simp, hblock⟩

/-- A block with more behind it. -/
def append {tokens : List Token} (block : Block tokens) (more : List Token) :
    Block (tokens ++ more) where
  inside := block.inside
  rest := block.rest ++ more
  shorter := by
    have hshorter := block.shorter
    simp only [List.length_append]
    omega

/-- A block that was read is read again when more tokens follow. -/
theorem read_append {previous : Token} {tokens : List Token} {block : Block tokens}
    (h : read previous tokens = .ok block) (more : List Token) :
    read previous (tokens ++ more) = .ok (block.append more) :=
  read_eq_ok_iff.mpr ((read_eq_ok_iff.mp h).append more)

end Block

/-! ### Statements -/

namespace Grammar

section

variable {lowers : Rendering} {follow follow' : List Token}

/-- A statement looks at the first token behind it at most. -/
theorem Simple.of_head?_eq {item : List Token} {s : Statement} (h : Simple lowers item follow s)
    (hhead : follow'.head? = follow.head?) : Simple lowers item follow' s := by
  cases h with
  | declared hkeyword hname hfollow => exact .declared hkeyword hname (hhead ▸ hfollow)
  | initialized hkeyword hname hassignment hrun hfollow htext =>
      exact .initialized hkeyword hname hassignment hrun (hhead ▸ hfollow) htext
  | printed hkeyword hvalue => exact .printed hkeyword hvalue
  | unprompted hkeyword hname hfollow => exact .unprompted hkeyword hname (hhead ▸ hfollow)
  | prompted hkeyword hname hliteral => exact .prompted hkeyword hname hliteral

/-- A condition looks at no more than the first token of what follows it. -/
theorem Conditional.of_head?_eq (hhead : follow'.head? = follow.head?) {item : List Token}
    {s : Statement} : Conditional lowers item follow s → Conditional lowers item follow' s
  | .alone hguard hfollow => .alone hguard (hhead ▸ hfollow)
  | .otherwise hguard hopening hother => .otherwise hguard hopening hother
  | .chained hguard hopening hother => .chained hguard hopening (hother.of_head?_eq hhead)

end

end Grammar

namespace Parser

open Grammar (Simple Conditional)
open Reading (Yields)

/-- What a token opens is a statement of the grammar. -/
theorem Opens.exists_item {t : Token} {rest follow : List Token} {s : Statement}
    (h : Opens t rest s follow) :
    ∃ item, t :: rest = item ++ follow ∧
      (Simple Lowers item follow s ∨ Conditional Lowers item follow s) := by
  cases h with
  | declaration hkeyword hread =>
      obtain ⟨item, hsplit, hitem⟩ := Grammar.simple_of_declaration hkeyword hread
      exact ⟨item, hsplit, .inl hitem⟩
  | print hkeyword hread =>
      obtain ⟨item, hsplit, hitem⟩ := Grammar.simple_of_print hkeyword hread
      exact ⟨item, hsplit, .inl hitem⟩
  | input hkeyword hread =>
      obtain ⟨item, hsplit, hitem⟩ := Grammar.simple_of_input hkeyword hread
      exact ⟨item, hsplit, .inl hitem⟩
  | condition hkeyword hread =>
      obtain ⟨item, hsplit, hitem⟩ := Grammar.conditional_of_condition
        (fun _ _ _ => Grammar.statements_of_block) (Nat.le_refl _) hkeyword hread
      exact ⟨item, hsplit, .inr hitem⟩

/-- A statement of the grammar is opened by its first token. -/
theorem opens_of_item {t : Token} {item rest follow : List Token} {s : Statement}
    (hsplit : t :: rest = item ++ follow)
    (hitem : Simple Lowers item follow s ∨ Conditional Lowers item follow s) :
    Opens t rest s follow := by
  rcases hitem with hitem | hitem
  · obtain ⟨first, more, hfirst, hopens⟩ := hitem.opens
    cases hsplit.trans hfirst
    exact hopens
  · obtain ⟨first, more, hfirst, hkeyword, hread⟩ :=
      hitem.yields (fun _ _ _ => Grammar.block_of_statements) (Nat.le_refl _)
    cases hsplit.trans hfirst
    exact .condition hkeyword hread

/-- **A statement that does not reach the end of the row stays as it is.** -/
theorem Opens.append {t : Token} {rest follow : List Token} {s : Statement}
    (h : Opens t rest s follow) (hfollow : follow ≠ []) (more : List Token) :
    Opens t (rest ++ more) s (follow ++ more) := by
  have hhead := head?_append_of_ne_nil hfollow more
  obtain ⟨item, hsplit, hitem⟩ := h.exists_item
  have hlonger : t :: (rest ++ more) = item ++ (follow ++ more) := by
    rw [← List.append_assoc, ← hsplit, List.cons_append]
  exact opens_of_item hlonger
    (hitem.imp (Simple.of_head?_eq · hhead) (Conditional.of_head?_eq hhead))

/-! ### Branches -/

/-- The test and the block of a condition stay the same when more tokens follow. -/
theorem Guards.append {tokens inside rest : List Token} {test : String}
    (h : Guards tokens test inside rest) (more : List Token) :
    Guards (tokens ++ more) test inside (rest ++ more) := by
  obtain ⟨run, braced, rfl, hrun, htest, hblock⟩ := h
  exact ⟨run, braced ++ more, List.append_assoc _ _ _, hrun, htest, hblock.append more⟩

/-- The head of a condition, with more behind it. -/
def Guarded.append {tokens : List Token} (head : Guarded tokens) (more : List Token) :
    Guarded (tokens ++ more) where
  test := head.test
  inside := head.inside
  rest := head.rest ++ more
  shorter := by
    have hshorter := head.shorter
    simp only [List.length_append]
    omega

/-- So does what is read of them. -/
theorem guarded_append {keyword : Token} {tokens : List Token} {head : Guarded tokens}
    (h : guarded keyword tokens = .ok head) (more : List Token) :
    guarded keyword (tokens ++ more) = .ok (head.append more) :=
  guarded_eq_ok_iff.mpr ((guarded_eq_ok_iff.mp h).append more)

/-- A condition that goes on with another one does so when more tokens follow. -/
theorem branch_append_chained {tokens rest : List Token} {next : Token}
    {hlt : rest.length < tokens.length} (h : branch tokens = .chained next rest hlt)
    (more : List Token) :
    ∃ hlt', branch (tokens ++ more) = .chained next (rest ++ more) hlt' := by
  obtain ⟨opening, rfl, hopening, hnext⟩ := cons_of_branch_eq_chained h
  exact ⟨_, branch_eq_chained hopening hnext⟩

/-- Where a block is awaited and something follows, that is not another condition. -/
theorem branch_append_block {tokens rest : List Token} {opening : Token}
    {hlt : rest.length < tokens.length} (h : branch tokens = .block opening rest hlt)
    (hrest : rest ≠ []) (more : List Token) :
    ∃ hlt', branch (tokens ++ more) = .block opening (rest ++ more) hlt' := by
  obtain ⟨rfl, hopening, hfirst⟩ := cons_of_branch_eq_block h
  rw [← head?_append_of_ne_nil hrest more] at hfirst
  exact ⟨_, branch_eq_block hopening hfirst⟩

/-! ### The way of the parser -/

section

variable {row : List Token}

/-- Where the parser comes with a token left, it comes when more tokens follow. -/
theorem Visits.append {here : List Token} (h : Visits row here) (hhere : here ≠ [])
    (more : List Token) : Visits (row ++ more) (here ++ more) := by
  induction h with
  | start => exact .start
  | @stray t rest _ hstray ih =>
      rw [statement?_eq_none_iff, ← statement?_eq_none_iff t (rest ++ more)] at hstray
      exact .stray (ih (List.cons_ne_nil _ _)) hstray
  | @passed t rest read _ hread ih =>
      have hopens := opens_iff.mpr ⟨_, hread, read, rfl, rfl, rfl⟩
      obtain ⟨_, hstatement, longer, rfl, -, hrest⟩ := opens_iff.mp (hopens.append hhere more)
      rw [← hrest]
      exact .passed (ih (List.cons_ne_nil _ _)) hstatement

/-- A condition that the parser reads is read also when more tokens follow. -/
theorem Tests.append {keyword : Token} {tokens : List Token} (h : Tests row keyword tokens)
    (more : List Token) : Tests (row ++ more) keyword (tokens ++ more) := by
  induction h with
  | opened hvisits hkeyword => exact .opened (hvisits.append (List.cons_ne_nil _ _) more) hkeyword
  | chained _ hhead hbody hbranch ih =>
      obtain ⟨hlt, hbranch⟩ := branch_append_chained hbranch more
      exact .chained ih (guarded_append hhead more) hbody hbranch

/-- A block that the parser needs is needed also when more tokens follow. -/
theorem Awaits.append {opening : Token} {rest : List Token} (h : Awaits row opening rest)
    (hrest : rest ≠ []) (more : List Token) : Awaits (row ++ more) opening (rest ++ more) := by
  obtain ⟨htests, hhead, hbody, hbranch⟩ := h
  obtain ⟨hlt, hbranch⟩ := branch_append_block hbranch hrest more
  exact .mk (htests.append more) (guarded_append hhead more) hbody hbranch

/-- **A row that is handed on is handed on whatever follows.** -/
theorem Hands.append {inside : List Token} (h : Hands row inside) (more : List Token) :
    Hands (row ++ more) inside := by
  cases h with
  | @body keyword tokens head htests hhead =>
      have hlonger : Hands (row ++ more) (head.append more).inside :=
        .body (htests.append more) (guarded_append hhead more)
      exact hlonger
  | @other opening rest other hawaits hother =>
      have hrest : rest ≠ [] := by
        have hshorter := other.shorter
        exact List.ne_nil_of_length_pos (by omega)
      have hlonger : Hands (row ++ more) (other.append more).inside :=
        .other (hawaits.append hrest more) (Block.read_append hother more)
      exact hlonger

/-! ### The wrong token -/

variable {expected : Expectation} {found : Token}

/-- A token that is refused is refused also when more tokens follow. -/
theorem expect_append {wanted : Expectation} {accepts : Token → Bool} {previous : Token}
    {tokens : List Token}
    (h : expect wanted accepts previous tokens = .error (.unexpectedToken expected found))
    (more : List Token) :
    expect wanted accepts previous (tokens ++ more) =
      .error (.unexpectedToken expected found) := by
  rcases expect_eq_error_iff.mp h with ⟨-, hother⟩ | ⟨t, rest, rfl, haccepts, hfound⟩
  · cases hother
  · exact expect_eq_error_iff.mpr (.inr ⟨t, rest ++ more, rfl, haccepts, hfound⟩)

/-- A statement that fails at a token fails at it also when more tokens follow. -/
theorem Fails.append {t : Token} {rest : List Token}
    (h : Fails t rest (.unexpectedToken expected found)) (more : List Token) :
    Fails t (rest ++ more) (.unexpectedToken expected found) := by
  cases h with
  | name hnamed hkeyword hfails => exact .name hnamed hkeyword (expect_append hfails more)
  | printed hkeyword hfails => exact .printed hkeyword (expect_append hfails more)
  | value _ _ _ hfails =>
      obtain ⟨_, _, _, _, _, hother⟩ := initializer_eq_error_iff.mp hfails
      cases hother

/-- A complaint about a token is raised also when more tokens follow. -/
theorem Raises.append (h : Raises row (.unexpectedToken expected found)) (more : List Token) :
    Raises (row ++ more) (.unexpectedToken expected found) := by
  cases h with
  | statement hvisits hkeyword hfails =>
      have hlonger := (fails_iff.mpr ⟨hfails, hkeyword⟩).append more
      exact .statement (hvisits.append (List.cons_ne_nil _ _) more) hkeyword
        (fails_iff.mp hlonger).1
  | @head keyword tokens htests hfails =>
      -- The test goes up to a brace, so that nothing else can be found in its place.
      rcases bind_eq_error_iff.mp hfails with htest | ⟨test, -, hfails⟩
      · obtain ⟨-, hother⟩ := expression_eq_error_iff.mp htest
        cases hother
      rcases bind_eq_error_iff.mp hfails with hblock | ⟨block, -, hnone⟩
      · rcases Block.read_eq_error_iff.mp hblock with ⟨-, hother⟩ |
          ⟨t, after, hremaining, ⟨hopens, -⟩ | ⟨-, -, hother⟩⟩
        · cases hother
        · have hstops := ((leading_remaining_iff Token.opensBlock tokens).mp ⟨rfl, hremaining⟩).2.2
          rw [hstops t rfl] at hopens
          cases hopens
        · cases hother
      · cases hnone
  | @other opening rest hawaits hfails =>
      rcases Block.read_eq_error_iff.mp hfails with ⟨-, hother⟩ |
          ⟨t, after, rfl, ⟨hopens, hfound⟩ | ⟨-, -, hother⟩⟩
      · cases hother
      · refine .other (hawaits.append (List.cons_ne_nil _ _) more) ?_
        exact Block.read_eq_error_iff.mpr (.inr ⟨t, after ++ more, rfl, .inl ⟨hopens, hfound⟩⟩)
      · cases hother

end

end Parser

/-- **A wrong token stays wrong whatever follows.**  If the parser stumbles over a token,
then it stumbles over the same token, and expects the same there, with any tokens behind. -/
theorem parse_append_of_unexpectedToken (tokens more : List Token) (expected : Expectation)
    (found : Token) (h : (parse tokens).outcome = .error (.unexpectedToken expected found)) :
    (parse (tokens ++ more)).outcome = .error (.unexpectedToken expected found) := by
  rw [parse_eq_error_iff, Parser.outcome_block_eq_error_iff] at h ⊢
  rcases h with hraises | ⟨inside, hhands, hinside⟩
  · exact .inl (hraises.append more)
  · exact .inr ⟨inside, hhands.append more, hinside⟩

/-- A number where a name is expected. -/
def numberForName : Token := ⟨.integer, .integer 5, ⟨1, 16, 15, 16⟩⟩

/-- A condition with a declaration in its block that names a number. -/
def misnamedBlock : List Token :=
  [⟨.keyword, .text "agar", ⟨1, 1, 0, 4⟩⟩, ⟨.identifier, .text "x", ⟨1, 6, 5, 6⟩⟩,
    ⟨.bracket, .text "\x7b", ⟨1, 8, 7, 8⟩⟩, ⟨.keyword, .text "socho", ⟨1, 10, 9, 14⟩⟩,
    numberForName, ⟨.bracket, .text "\x7d", ⟨1, 18, 17, 18⟩⟩]

/-- The number where a name is expected is refused. -/
theorem parse_misnamedBlock :
    (parse misnamedBlock).outcome =
      .error (.unexpectedToken (.nameAfter .socho) numberForName) := by
  with_unfolding_all rfl

/-- The same complaint with another branch behind the block. -/
theorem parse_append_of_unexpectedToken_misnamedBlock :
    (parse misnamedBlock).outcome =
        .error (.unexpectedToken (.nameAfter .socho) numberForName) ∧
      (parse (misnamedBlock ++ [⟨.keyword, .text "warna", ⟨1, 20, 19, 24⟩⟩])).outcome =
        .error (.unexpectedToken (.nameAfter .socho) numberForName) :=
  ⟨parse_misnamedBlock, parse_append_of_unexpectedToken _ _ _ _ parse_misnamedBlock⟩

end SochoScript
