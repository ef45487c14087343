import SochoScript.Proofs.Grammar
import Mathlib.Logic.Relation

/-!
# Parsers inside parsers

The inside of a block is read as a row of its own, by a parser that knows nothing of
what stands around it.  This file follows one such parser over its row, from the
beginning to the end of the row or to a failure, and says where it comes: `Visits` are
the places at which it looks for the next statement, `Tests` the conditions that it
reads, those after `warna agar` included, and `Awaits` the places where it needs the
block of another branch.  From these, `Hands` are the rows that it hands to a parser of
their own, and `Raises` are the complaints that are its own and not those of a parser
that it called.

* `outcome_block_eq_error_iff`: a complaint is the parser's own, or it comes from one of
  the rows that were handed on.
* `parsedBlock_mem_events_iff`: the blocks that are told are those that were handed on
  and read.
* `Hands.balanced`: a row that is handed on is balanced.
* `Block.Balanced.not_unclosed`: in a balanced row every brace is closed, from wherever
  one begins to count.
* `missing_brace_is_outermost`: **only the outermost parser can miss a closing brace.**
-/

namespace SochoScript

/-- A sequence fails when one of its parts does. -/
theorem bind_eq_error_iff {ε α β : Type} {first : Except ε α} {next : α → Except ε β} {e : ε} :
    (first >>= next) = .error e ↔
      first = .error e ∨ ∃ a, first = .ok a ∧ next a = .error e := by
  cases first with
  | error d => simp [bind, Except.bind]
  | ok a => simp [bind, Except.bind]

/-- What a sequence tells is told by one of its parts. -/
theorem Logged.mem_events_bind {ε α β : Type} {m : Logged ε α} {f : α → Logged ε β}
    {event : Event} :
    event ∈ (m >>= f).events ↔
      event ∈ m.events ∨ ∃ a, m.outcome = .ok a ∧ event ∈ (f a).events := by
  cases houtcome : m.outcome with
  | error e => simp [Logged.events_bind_error houtcome]
  | ok a => simp [Logged.events_bind_ok houtcome]

/-- No other expectation is worded like that of a closing brace. -/
theorem Expectation.text_eq_closing_iff {expected : Expectation} :
    expected.text = "'\x7d' to close the block" ↔ expected = .blockClosing := by
  cases expected with
  | nameAfter keyword => cases keyword <;> decide
  | _ => decide

namespace Block

/-! ### Braces without a partner -/

/-- If more blocks are closed than are open, the matching brace is found. -/
theorem close?_ne_none {tokens : List Token} {depth : Nat}
    (h : opened tokens + depth < closed tokens) : close? depth tokens ≠ none := by
  induction tokens generalizing depth with
  | nil => simp [opened, closed] at h
  | cons t rest ih =>
      simp only [opened, closed, List.countP_cons] at h ih
      unfold close?
      by_cases hopens : t.opensBlock = true
      · have hcloses := closesBlock_eq_false hopens
        simp only [hopens, hcloses, if_true, Bool.false_eq_true, if_false] at h ⊢
        exact fun hnone => ih (by omega) (Option.map_eq_none_iff.mp hnone)
      · by_cases hcloses : t.closesBlock = true
        · simp only [hopens, hcloses, if_true, Bool.false_eq_true, if_false] at h ⊢
          cases depth with
          | zero => simp
          | succ outer => exact fun hnone => ih (by omega) (Option.map_eq_none_iff.mp hnone)
        · simp only [hopens, hcloses, Bool.false_eq_true, if_false] at h ⊢
          exact fun hnone => ih (by omega) (Option.map_eq_none_iff.mp hnone)

/-- Some brace of the row is not closed up to the end of it; the place is just past that
end. -/
def Unclosed (tokens : List Token) (span : Span) : Prop :=
  ∃ opening rest, opening :: rest <:+ tokens ∧ opening.opensBlock = true ∧
    close? 0 rest = none ∧ span = (rest.getLastD opening).span.after

/-- The end of the row is the end of each of its parts that reach that far. -/
theorem Unclosed.exists_last {tokens : List Token} {span : Span} (h : Unclosed tokens span) :
    ∃ last, tokens.getLast? = some last ∧ span = last.span.after := by
  obtain ⟨opening, rest, ⟨front, rfl⟩, -, -, hspan⟩ := h
  refine ⟨rest.getLastD opening, ?_, hspan⟩
  rw [List.getLast?_append, List.getLast?_cons, Option.some_or, List.getLastD_eq_getLast?]

/-- **In a balanced row every brace is closed.**  A beginning of the row does not close
more than it opens, so what is left of the row closes all that it opens itself. -/
theorem Balanced.not_unclosed {tokens : List Token} (h : Balanced tokens) (span : Span) :
    ¬ Unclosed tokens span := by
  rintro ⟨opening, rest, ⟨front, rfl⟩, hopens, hclose, -⟩
  have hcloses := closesBlock_eq_false hopens
  have hfront := h.sane front (List.prefix_append front _)
  have hwhole := h.settled
  have hopened : opened (opening :: rest) = opened rest + 1 := by simp [opened, hopens]
  have hclosed : closed (opening :: rest) = closed rest := by simp [closed, hcloses]
  rw [closed_append, opened_append, hopened, hclosed] at hwhole
  exact close?_ne_none (by omega) hclose

/-- A block is missing its brace only if the brace that opens it stands there. -/
theorem unclosed_of_read {previous : Token} {tokens : List Token} {span : Span}
    (h : read previous tokens = .error (.endOfInput .blockClosing span)) :
    Unclosed tokens span := by
  cases tokens with
  | nil => simp [read] at h
  | cons t rest =>
      unfold read at h
      dsimp only at h
      split at h
      · rename_i hopens
        split at h
        · cases h
        · rename_i hclose
          cases h
          exact ⟨t, rest, List.suffix_refl _, hopens, hclose, rfl⟩
      · cases h

/-- A brace that is not closed in the end of a row is not closed in the row. -/
theorem Unclosed.of_suffix {tail tokens : List Token} {span : Span} (h : Unclosed tail span)
    (htail : tail <:+ tokens) : Unclosed tokens span := by
  obtain ⟨opening, rest, hrest, hunclosed⟩ := h
  exact ⟨opening, rest, hrest.trans htail, hunclosed⟩

end Block

namespace Parser

/-! ### Where a parser comes -/

/-- The parser of `row` looks for a statement when these tokens are left. -/
inductive Visits (row : List Token) : List Token → Prop
  | start : Visits row row
  | stray {t : Token} {rest : List Token} (hvisits : Visits row (t :: rest))
      (hstray : statement? t rest = none) : Visits row rest
  | passed {t : Token} {rest : List Token} {read : Reading Statement rest}
      (hvisits : Visits row (t :: rest)) (hread : statement? t rest = some (.ok read)) :
      Visits row read.rest

/-- The parser of `row` reads a condition from these tokens, after its keyword. -/
inductive Tests (row : List Token) : Token → List Token → Prop
  | opened {t : Token} {rest : List Token} (hvisits : Visits row (t :: rest))
      (hkeyword : t.IsKeyword .agar) : Tests row t rest
  | chained {keyword next : Token} {tokens rest : List Token} {head : Guarded tokens}
      {body : List Statement} {hlt : rest.length < head.rest.length}
      (htests : Tests row keyword tokens) (hhead : guarded keyword tokens = .ok head)
      (hbody : (block head.inside).outcome = .ok body)
      (hbranch : branch head.rest = .chained next rest hlt) : Tests row next rest

/-- The parser of `row` needs the block of another branch in front of these tokens, after
the token that opens the branch. -/
inductive Awaits (row : List Token) : Token → List Token → Prop
  | mk {keyword opening : Token} {tokens rest : List Token} {head : Guarded tokens}
      {body : List Statement} {hlt : rest.length < head.rest.length}
      (htests : Tests row keyword tokens) (hhead : guarded keyword tokens = .ok head)
      (hbody : (block head.inside).outcome = .ok body)
      (hbranch : branch head.rest = .block opening rest hlt) : Awaits row opening rest

/-- The parser of `row` hands a row to a parser of its own. -/
inductive Hands (row : List Token) : List Token → Prop
  | body {keyword : Token} {tokens : List Token} {head : Guarded tokens}
      (htests : Tests row keyword tokens) (hhead : guarded keyword tokens = .ok head) :
      Hands row head.inside
  | other {opening : Token} {rest : List Token} {other : Block rest}
      (hawaits : Awaits row opening rest) (hother : Block.read opening rest = .ok other) :
      Hands row other.inside

/-- The complaint is that of the parser of `row` itself. -/
inductive Raises (row : List Token) (d : Diagnostic) : Prop
  | statement {t : Token} {rest : List Token} (hvisits : Visits row (t :: rest))
      (hkeyword : ¬ t.IsKeyword .agar) (hfails : statement? t rest = some (.error d))
  | head {keyword : Token} {tokens : List Token} (htests : Tests row keyword tokens)
      (hfails : guarded keyword tokens = .error d)
  | other {opening : Token} {rest : List Token} (hawaits : Awaits row opening rest)
      (hfails : Block.read opening rest = .error d)

/-- A row that is handed on while `row` is parsed, at any depth. -/
abbrev Enters : List Token → List Token → Prop := Relation.TransGen Hands

/-- Behind `agar` a condition is read. -/
theorem statement?_of_agar {t : Token} (h : t.IsKeyword .agar) (rest : List Token) :
    statement? t rest = some (condition t rest).outcome := by
  rw [← Token.keyword?_eq_some_iff] at h
  simp only [statement?, h]

/-! ### Complaints -/

section

variable {row : List Token} {d : Diagnostic}

/-- Where a complaint comes from: the parser itself, or one that it called. -/
def Complains (row : List Token) (d : Diagnostic) : Prop :=
  Raises row d ∨ ∃ inside, Hands row inside ∧ (block inside).outcome = .error d

mutual

/-- A complaint from a place where the parser comes is one of the row. -/
theorem Visits.complains : ∀ {here : List Token}, Visits row here →
    (block here).outcome = .error d → Complains row d
  | [], _, h => by
      rw [outcome_block_nil] at h
      cases h
  | t :: rest, hvisits, h => by
      rw [outcome_block_cons] at h
      cases hread : statement? t rest with
      | none =>
          rw [hread] at h
          exact (hvisits.stray hread).complains h
      | some reading =>
          simp only [hread, bind_eq_error_iff] at h
          rcases h with hfails | ⟨read, hok, hmore⟩
          · rw [hfails] at hread
            by_cases hagar : t.IsKeyword .agar
            · rw [statement?_of_agar hagar, Option.some.injEq] at hread
              exact (Tests.opened hvisits hagar).complains hread
            · exact .inl (.statement hvisits hagar hread)
          · rw [hok] at hread
            have hlength := read.notLonger
            rcases hmore with hmore | ⟨more, -, hnone⟩
            · exact (hvisits.passed hread).complains hmore
            · cases hnone
termination_by here => here.length

/-- So is the complaint of a condition that it reads. -/
theorem Tests.complains {keyword : Token} {tokens : List Token} (htests : Tests row keyword tokens)
    (h : (condition keyword tokens).outcome = .error d) : Complains row d := by
  rw [outcome_condition] at h
  rcases bind_eq_error_iff.mp h with hhead | ⟨head, hhead, h⟩
  · exact .inl (.head htests hhead)
  rcases bind_eq_error_iff.mp h with hbody | ⟨body, hbody, h⟩
  · exact .inr ⟨_, .body htests hhead, hbody⟩
  have hshorter := head.shorter
  cases hbranch : branch head.rest with
  | none =>
      simp only [hbranch] at h
      cases h
  | chained next rest hlt =>
      simp only [hbranch] at h
      rcases bind_eq_error_iff.mp h with hchained | ⟨chained, -, hnone⟩
      · exact (Tests.chained htests hhead hbody hbranch).complains hchained
      · cases hnone
  | block opening rest hlt =>
      simp only [hbranch] at h
      have hawaits := Awaits.mk htests hhead hbody hbranch
      rcases bind_eq_error_iff.mp h with hother | ⟨other, hother, h⟩
      · exact .inl (.other hawaits hother)
      rcases bind_eq_error_iff.mp h with hinside | ⟨otherwise, -, hnone⟩
      · exact .inr ⟨_, .other hawaits hother, hinside⟩
      · cases hnone
termination_by tokens.length

end

/-- A complaint in the middle of a row is the complaint of the row. -/
theorem Visits.outcome_eq_error {here : List Token} (hvisits : Visits row here)
    (h : (block here).outcome = .error d) : (block row).outcome = .error d := by
  induction hvisits with
  | start => exact h
  | stray _ hstray ih =>
      apply ih
      rw [outcome_block_cons, hstray]
      exact h
  | passed _ hread ih =>
      apply ih
      rw [outcome_block_cons, hread]
      exact bind_eq_error_iff.mpr (.inr ⟨_, rfl, bind_eq_error_iff.mpr (.inl h)⟩)

/-- The complaint of a condition is the complaint of the row. -/
theorem Tests.outcome_eq_error {keyword : Token} {tokens : List Token}
    (htests : Tests row keyword tokens) (h : (condition keyword tokens).outcome = .error d) :
    (block row).outcome = .error d := by
  induction htests with
  | @opened t rest hvisits hkeyword =>
      apply hvisits.outcome_eq_error
      rw [outcome_block_cons, statement?_of_agar hkeyword]
      exact bind_eq_error_iff.mpr (.inl h)
  | chained _ hhead hbody hbranch ih =>
      apply ih
      rw [outcome_condition, hhead]
      refine bind_eq_error_iff.mpr (.inr ⟨_, rfl, ?_⟩)
      refine bind_eq_error_iff.mpr (.inr ⟨_, hbody, ?_⟩)
      simp only [hbranch]
      exact bind_eq_error_iff.mpr (.inl h)

/-- So is that of the block of another branch. -/
theorem Awaits.outcome_eq_error {opening : Token} {rest : List Token}
    (hawaits : Awaits row opening rest)
    (h : (Block.read opening rest >>= fun other => (block other.inside).outcome) = .error d) :
    (block row).outcome = .error d := by
  obtain ⟨htests, hhead, hbody, hbranch⟩ := hawaits
  apply htests.outcome_eq_error
  rw [outcome_condition, hhead]
  refine bind_eq_error_iff.mpr (.inr ⟨_, rfl, ?_⟩)
  refine bind_eq_error_iff.mpr (.inr ⟨_, hbody, ?_⟩)
  simp only [hbranch]
  rcases bind_eq_error_iff.mp h with hother | ⟨other, hother, hinside⟩
  · exact bind_eq_error_iff.mpr (.inl hother)
  · exact bind_eq_error_iff.mpr (.inr ⟨other, hother, bind_eq_error_iff.mpr (.inl hinside)⟩)

/-- A complaint that the parser raises is the complaint of its row. -/
theorem Raises.outcome_eq_error (h : Raises row d) : (block row).outcome = .error d := by
  cases h with
  | statement hvisits hkeyword hfails =>
      apply hvisits.outcome_eq_error
      rw [outcome_block_cons, hfails]
      rfl
  | head htests hfails =>
      apply htests.outcome_eq_error
      rw [outcome_condition]
      exact bind_eq_error_iff.mpr (.inl hfails)
  | other hawaits hfails => exact hawaits.outcome_eq_error (bind_eq_error_iff.mpr (.inl hfails))

/-- So is that of a row that is handed on. -/
theorem Hands.outcome_eq_error {inside : List Token} (hhands : Hands row inside)
    (h : (block inside).outcome = .error d) : (block row).outcome = .error d := by
  cases hhands with
  | body htests hhead =>
      apply htests.outcome_eq_error
      rw [outcome_condition, hhead]
      exact bind_eq_error_iff.mpr (.inr ⟨_, rfl, bind_eq_error_iff.mpr (.inl h)⟩)
  | other hawaits hother =>
      exact hawaits.outcome_eq_error (bind_eq_error_iff.mpr (.inr ⟨_, hother, h⟩))

/-- **A complaint is the parser's own, or it comes from a row that was handed on.** -/
theorem outcome_block_eq_error_iff :
    (block row).outcome = .error d ↔
      Raises row d ∨ ∃ inside, Hands row inside ∧ (block inside).outcome = .error d := by
  apply Iff.intro
  · exact Visits.start.complains
  · rintro (hraises | ⟨inside, hhands, hinside⟩)
    · exact hraises.outcome_eq_error
    · exact hhands.outcome_eq_error hinside

end

/-! ### Parts of a row -/

/-- What follows a statement is the end of the row. -/
theorem Opens.suffix {t : Token} {rest follow : List Token} {s : Statement}
    (h : Opens t rest s follow) : follow <:+ t :: rest := by
  cases h with
  | declaration hkeyword hread =>
      obtain ⟨item, hitem, -⟩ := Grammar.simple_of_declaration hkeyword hread
      exact ⟨item, hitem.symm⟩
  | print hkeyword hread =>
      obtain ⟨item, hitem, -⟩ := Grammar.simple_of_print hkeyword hread
      exact ⟨item, hitem.symm⟩
  | input hkeyword hread =>
      obtain ⟨item, hitem, -⟩ := Grammar.simple_of_input hkeyword hread
      exact ⟨item, hitem.symm⟩
  | condition hkeyword hread =>
      obtain ⟨item, hitem, -⟩ := Grammar.conditional_of_condition
        (fun _ _ _ => Grammar.statements_of_block) (Nat.le_refl _) hkeyword hread
      exact ⟨item, hitem.symm⟩

/-- What follows a block is the end of the row. -/
theorem Guards.suffix {tokens inside rest : List Token} {test : String}
    (h : Guards tokens test inside rest) : rest <:+ tokens := by
  obtain ⟨run, _, rfl, -, -, opening, closing, rfl, -⟩ := h
  exact ⟨run ++ opening :: (inside ++ [closing]), by simp⟩

/-- Another condition, from its keyword on, is an end of the row. -/
theorem suffix_of_branch_eq_chained {tokens rest : List Token} {next : Token}
    {hlt : rest.length < tokens.length} (h : branch tokens = .chained next rest hlt) :
    next :: rest <:+ tokens := by
  obtain ⟨opening, rfl, -⟩ := cons_of_branch_eq_chained h
  exact List.suffix_cons opening _

/-- So is the block of another branch, with the token that opens it. -/
theorem suffix_of_branch_eq_block {tokens rest : List Token} {opening : Token}
    {hlt : rest.length < tokens.length} (h : branch tokens = .block opening rest hlt) :
    opening :: rest <:+ tokens := by
  obtain ⟨rfl, -⟩ := cons_of_branch_eq_block h
  exact List.suffix_refl _

section

variable {row : List Token}

/-- Where the parser comes, an end of the row is left. -/
theorem Visits.suffix {here : List Token} (h : Visits row here) : here <:+ row := by
  induction h with
  | start => exact List.suffix_refl _
  | stray _ _ ih => exact (List.suffix_cons _ _).trans ih
  | passed _ hread ih =>
      have hopens := opens_iff.mpr ⟨_, hread, _, rfl, rfl, rfl⟩
      exact hopens.suffix.trans ih

/-- A condition begins an end of the row. -/
theorem Tests.suffix {keyword : Token} {tokens : List Token} (h : Tests row keyword tokens) :
    keyword :: tokens <:+ row := by
  induction h with
  | opened hvisits hkeyword => exact hvisits.suffix
  | chained _ hhead _ hbranch ih =>
      have hrest := (guarded_eq_ok_iff.mp hhead).suffix
      exact ((suffix_of_branch_eq_chained hbranch).trans hrest).trans
        ((List.suffix_cons _ _).trans ih)

/-- So does the token that opens another branch. -/
theorem Awaits.suffix {opening : Token} {rest : List Token} (h : Awaits row opening rest) :
    opening :: rest <:+ row := by
  obtain ⟨htests, hhead, -, hbranch⟩ := h
  have hrest := (guarded_eq_ok_iff.mp hhead).suffix
  exact ((suffix_of_branch_eq_block hbranch).trans hrest).trans
    ((List.suffix_cons _ _).trans htests.suffix)

/-- A row that is handed on is shorter. -/
theorem Hands.length_lt {inside : List Token} (h : Hands row inside) :
    inside.length < row.length := by
  cases h with
  | @body keyword tokens head htests hhead =>
      have hshorter := head.shorter
      have hle := htests.suffix.length_le
      rw [List.length_cons] at hle
      omega
  | @other opening rest other hawaits hother =>
      have hshorter := other.shorter
      have hle := hawaits.suffix.length_le
      rw [List.length_cons] at hle
      omega

/-! ### Missing braces -/

/-- **A row that is handed on is balanced.** -/
theorem Hands.balanced {inside : List Token} (h : Hands row inside) : Block.Balanced inside := by
  cases h with
  | body htests hhead =>
      obtain ⟨_, _, _, _, _, _, _, _, _, _, hbalanced⟩ := guarded_eq_ok_iff.mp hhead
      exact hbalanced
  | other hawaits hother =>
      obtain ⟨_, _, _, _, _, hbalanced⟩ := Block.read_eq_ok_iff.mp hother
      exact hbalanced

/-- A row that is entered at any depth is balanced. -/
theorem Enters.balanced {inside : List Token} (h : Enters row inside) : Block.Balanced inside := by
  cases h with
  | single hhands => exact hhands.balanced
  | tail _ hhands => exact hhands.balanced

/-- What is missing is what was expected. -/
theorem eq_of_expect_eq_error {expected missing : Expectation} {accepts : Token → Bool}
    {previous : Token} {tokens : List Token} {span : Span}
    (h : expect expected accepts previous tokens = .error (.endOfInput missing span)) :
    missing = expected := by
  unfold expect at h
  split at h
  · cases h
    rfl
  · split at h <;> cases h

/-- An expression never lacks a token. -/
theorem expression_ne_endOfInput {context : Context} {anchor span : Span} {tokens : List Token}
    {missing : Expectation} :
    expression context anchor tokens ≠ .error (.endOfInput missing span) := by
  unfold expression
  split <;> simp

/-- Nor does the value of a declaration. -/
theorem initializer_ne_endOfInput {tokens : List Token} {missing : Expectation} {span : Span} :
    initializer tokens ≠ .error (.endOfInput missing span) := by
  intro h
  cases tokens with
  | nil => cases h
  | cons t rest =>
      by_cases hassigns : t.assigns = true
      · rw [initializer_of_assigns hassigns] at h
        rcases bind_eq_error_iff.mp h with hvalue | ⟨text, -, hnone⟩
        · exact expression_ne_endOfInput hvalue
        · cases hnone
      · simp only [initializer, if_neg hassigns] at h
        cases h

/-- Only a condition needs a block. -/
theorem isKeyword_agar_of_closing {t : Token} {rest : List Token} {span : Span}
    (h : statement? t rest = some (.error (.endOfInput .blockClosing span))) :
    t.IsKeyword .agar := by
  unfold statement? at h
  split at h
  · rw [Option.some.injEq] at h
    rcases bind_eq_error_iff.mp h with hname | ⟨name, -, hvalue⟩
    · cases eq_of_expect_eq_error hname
    · rcases bind_eq_error_iff.mp hvalue with hvalue | ⟨value, -, hnone⟩
      · exact absurd hvalue initializer_ne_endOfInput
      · cases hnone
  · rw [Option.some.injEq] at h
    rcases bind_eq_error_iff.mp h with hvalue | ⟨printed, -, hnone⟩
    · cases eq_of_expect_eq_error hvalue
    · cases hnone
  · rw [Option.some.injEq] at h
    rcases bind_eq_error_iff.mp h with hname | ⟨name, -, hnone⟩
    · cases eq_of_expect_eq_error hname
    · cases hnone
  · exact Token.keyword?_eq_some_iff.mp ‹_›
  · cases h
  · cases h

/-- Where a parser misses a brace of its own accord, a brace of its row is not closed. -/
theorem Raises.unclosed {span : Span} (h : Raises row (.endOfInput .blockClosing span)) :
    Block.Unclosed row span := by
  cases h with
  | statement hvisits hkeyword hfails =>
      exact absurd (isKeyword_agar_of_closing hfails) hkeyword
  | @head keyword tokens htests hfails =>
      rcases bind_eq_error_iff.mp hfails with htest | ⟨test, -, hfails⟩
      · exact absurd htest expression_ne_endOfInput
      rcases bind_eq_error_iff.mp hfails with hblock | ⟨block, -, hnone⟩
      · have hremaining : remaining Token.opensBlock tokens <:+ row :=
          ((List.dropWhile_suffix _).trans (List.suffix_cons _ _)).trans htests.suffix
        exact (Block.unclosed_of_read hblock).of_suffix hremaining
      · cases hnone
  | other hawaits hfails =>
      have hrest := (List.suffix_cons _ _).trans hawaits.suffix
      exact (Block.unclosed_of_read hfails).of_suffix hrest

/-- In a balanced row no parser misses a brace, nor does one that it calls. -/
theorem outcome_block_ne_closing {row : List Token} (h : Block.Balanced row) (span : Span) :
    (block row).outcome ≠ .error (.endOfInput .blockClosing span) := by
  intro hfails
  rcases outcome_block_eq_error_iff.mp hfails with hraises | ⟨inside, hhands, hinside⟩
  · exact h.not_unclosed span hraises.unclosed
  · have hshorter := hhands.length_lt
    exact outcome_block_ne_closing hhands.balanced span hinside
termination_by row.length

/-! ### Blocks that are told -/

variable {tokens statements : Nat}

/-- One step of reading statements tells of a block. -/
theorem parsedBlock_mem_block_cons {t : Token} {rest : List Token} :
    .parsedBlock tokens statements ∈ (block (t :: rest)).events ↔
      (t.IsKeyword .agar ∧ .parsedBlock tokens statements ∈ (condition t rest).events) ∨
        (statement? t rest = none ∧ .parsedBlock tokens statements ∈ (block rest).events) ∨
          ∃ read, statement? t rest = some (.ok read) ∧
            .parsedBlock tokens statements ∈ (block read.rest).events := by
  have hpassed : .parsedBlock tokens statements ∈ (if t.kind = .endOfStatement then block rest
      else do Logged.tell (.strayToken t); block rest).events ↔
        .parsedBlock tokens statements ∈ (block rest).events := by
    split
    · rfl
    · simp [Logged.mem_events_bind]
  rw [block, statement?, ← Token.keyword?_eq_some_iff]
  cases t.keyword? with
  | none => simpa using hpassed
  | some keyword =>
      cases keyword with
      | warna => simpa using hpassed
      | socho | likho | pucho | agar => simp [Logged.mem_events_bind]

/-- One step of reading a condition tells of a block. -/
theorem parsedBlock_mem_condition {keyword : Token} {row : List Token} :
    .parsedBlock tokens statements ∈ (condition keyword row).events ↔
      ∃ head, guarded keyword row = .ok head ∧
        (.parsedBlock tokens statements ∈ (block head.inside).events ∨
          ∃ body, (block head.inside).outcome = .ok body ∧
            ((tokens = head.inside.length ∧ statements = body.length) ∨
              match branch head.rest with
              | .none => False
              | .chained next rest _ =>
                .parsedBlock tokens statements ∈ (condition next rest).events
              | .block opening rest _ =>
                ∃ other, Block.read opening rest = .ok other ∧
                  (.parsedBlock tokens statements ∈ (block other.inside).events ∨
                    ∃ otherwise, (block other.inside).outcome = .ok otherwise ∧
                      tokens = other.inside.length ∧ statements = otherwise.length))) := by
  rw [condition]
  simp only [Logged.mem_events_bind, Logged.events_ofExcept, Logged.outcome_ofExcept,
    Logged.events_tell, Logged.outcome_tell, List.not_mem_nil, false_or, List.mem_singleton,
    Event.parsedBlock.injEq]
  refine exists_congr fun head => and_congr_right fun _ => or_congr_right ?_
  refine exists_congr fun body => and_congr_right fun _ => or_congr_right ?_
  cases branch head.rest with
  | none => simp
  | chained next rest hlt => simp [Logged.mem_events_bind]
  | block opening rest hlt => simp [Logged.mem_events_bind]

/-- A row that was handed on was read, and so many tokens gave so many statements. -/
def Counts (inside : List Token) (tokens statements : Nat) : Prop :=
  ∃ body, (block inside).outcome = .ok body ∧ tokens = inside.length ∧ statements = body.length

/-- What is told of a block is told of a row that was handed on, or by its parser. -/
def Tells (row : List Token) (tokens statements : Nat) : Prop :=
  ∃ inside, Hands row inside ∧
    (Counts inside tokens statements ∨ .parsedBlock tokens statements ∈ (block inside).events)

mutual

/-- A block that is told from a place where the parser comes is one of the row. -/
theorem Visits.tells : ∀ {here : List Token}, Visits row here →
    .parsedBlock tokens statements ∈ (block here).events → Tells row tokens statements
  | [], _, h => by
      rw [block] at h
      cases h
  | t :: rest, hvisits, h => by
      rcases parsedBlock_mem_block_cons.mp h with ⟨hagar, hcondition⟩ | ⟨hstray, hrest⟩ |
          ⟨read, hread, hmore⟩
      · exact (Tests.opened hvisits hagar).tells hcondition
      · exact (hvisits.stray hstray).tells hrest
      · have hlength := read.notLonger
        exact (hvisits.passed hread).tells hmore
termination_by here => here.length

/-- So is a block that is told by a condition. -/
theorem Tests.tells {keyword : Token} {here : List Token} (htests : Tests row keyword here)
    (h : .parsedBlock tokens statements ∈ (condition keyword here).events) :
    Tells row tokens statements := by
  obtain ⟨head, hhead, hinside | ⟨body, hbody, hcount | hmore⟩⟩ := parsedBlock_mem_condition.mp h
  · exact ⟨_, .body htests hhead, .inr hinside⟩
  · exact ⟨_, .body htests hhead, .inl ⟨body, hbody, hcount⟩⟩
  · have hshorter := head.shorter
    cases hbranch : branch head.rest with
    | none => simp [hbranch] at hmore
    | chained next rest hlt =>
        simp only [hbranch] at hmore
        exact (Tests.chained htests hhead hbody hbranch).tells hmore
    | block opening rest hlt =>
        simp only [hbranch] at hmore
        obtain ⟨other, hother, hmore⟩ := hmore
        have hawaits := Awaits.mk htests hhead hbody hbranch
        exact ⟨_, .other hawaits hother, hmore.symm⟩
termination_by here.length

end

/-- What is told from a place where the parser comes is told of the row. -/
theorem Visits.told {here : List Token} (hvisits : Visits row here)
    (h : .parsedBlock tokens statements ∈ (block here).events) :
    .parsedBlock tokens statements ∈ (block row).events := by
  induction hvisits with
  | start => exact h
  | stray _ hstray ih => exact ih (parsedBlock_mem_block_cons.mpr (.inr (.inl ⟨hstray, h⟩)))
  | passed _ hread ih => exact ih (parsedBlock_mem_block_cons.mpr (.inr (.inr ⟨_, hread, h⟩)))

/-- So is what is told by a condition. -/
theorem Tests.told {keyword : Token} {here : List Token} (htests : Tests row keyword here)
    (h : .parsedBlock tokens statements ∈ (condition keyword here).events) :
    .parsedBlock tokens statements ∈ (block row).events := by
  induction htests with
  | opened hvisits hkeyword =>
      exact hvisits.told (parsedBlock_mem_block_cons.mpr (.inl ⟨hkeyword, h⟩))
  | chained _ hhead hbody hbranch ih =>
      refine ih (parsedBlock_mem_condition.mpr ⟨_, hhead, .inr ⟨_, hbody, .inr ?_⟩⟩)
      simpa only [hbranch] using h

/-- Every row that was handed on and read is told, at any depth. -/
theorem Tells.told (h : Tells row tokens statements) :
    .parsedBlock tokens statements ∈ (block row).events := by
  obtain ⟨inside, hhands, hinside⟩ := h
  cases hhands with
  | body htests hhead =>
      refine htests.told (parsedBlock_mem_condition.mpr ⟨_, hhead, ?_⟩)
      rcases hinside with ⟨body, hbody, hcount⟩ | hdeeper
      · exact .inr ⟨body, hbody, .inl hcount⟩
      · exact .inl hdeeper
  | other hawaits hother =>
      obtain ⟨htests, hhead, hbody, hbranch⟩ := hawaits
      refine htests.told
        (parsedBlock_mem_condition.mpr ⟨_, hhead, .inr ⟨_, hbody, .inr ?_⟩⟩)
      simp only [hbranch]
      exact ⟨_, hother, hinside.symm⟩

/-- **The blocks that are told are those that were handed on and read**, at any depth. -/
theorem parsedBlock_mem_events_iff {row : List Token} :
    .parsedBlock tokens statements ∈ (block row).events ↔
      ∃ inside, Enters row inside ∧ Counts inside tokens statements := by
  apply Iff.intro
  · intro h
    obtain ⟨inside, hhands, hcounts | hdeeper⟩ := Visits.start.tells h
    · exact ⟨inside, .single hhands, hcounts⟩
    · have hshorter := hhands.length_lt
      obtain ⟨deeper, henters, hcounts⟩ := parsedBlock_mem_events_iff.mp hdeeper
      exact ⟨deeper, henters.head hhands, hcounts⟩
  · rintro ⟨inside, henters, hcounts⟩
    induction henters using Relation.TransGen.head_induction_on with
    | single hhands => exact Tells.told ⟨inside, hhands, .inl hcounts⟩
    | head hhands _ ih => exact Tells.told ⟨_, hhands, .inr ih⟩
termination_by row.length

end

end Parser

/-- Parsing fails as its row does. -/
theorem parse_eq_error_iff {tokens : List Token} {d : Diagnostic} :
    (parse tokens).outcome = .error d ↔ (Parser.block tokens).outcome = .error d := by
  rw [outcome_parse, bind_eq_error_iff]
  apply Iff.intro
  · rintro (h | ⟨body, -, hnone⟩)
    · exact h
    · cases hnone
  · exact .inl

/-- The blocks that are told in parsing are those of its row. -/
theorem parsedBlock_mem_parse {row : List Token} {tokens statements : Nat} :
    .parsedBlock tokens statements ∈ (parse row).events ↔
      .parsedBlock tokens statements ∈ (Parser.block row).events := by
  simp [parse, Logged.mem_events_bind]

/-- **Only the outermost parser can miss a closing brace.**  Every row that is handed to
a parser of its own, at any depth, closes the blocks that it opens and no others, and
that parser never complains of a missing brace; of these rows, those that were read are
told.  When the parser of all tokens misses a brace, the complaint is its own, and it
points just past the last of all tokens. -/
theorem missing_brace_is_outermost (row : List Token) :
    (∀ inside, Parser.Enters row inside → Block.Balanced inside ∧
      ∀ expected span, (Parser.block inside).outcome = .error (.endOfInput expected span) →
        expected.text ≠ "'\x7d' to close the block") ∧
    (∀ tokens statements, .parsedBlock tokens statements ∈ (parse row).events ↔
      ∃ inside, Parser.Enters row inside ∧ Parser.Counts inside tokens statements) ∧
    ∀ expected span, expected.text = "'\x7d' to close the block" →
      (parse row).outcome = .error (.endOfInput expected span) →
        Parser.Raises row (.endOfInput expected span) ∧
          ∃ last, row.getLast? = some last ∧ span = last.span.after := by
  refine ⟨?_, ?_, ?_⟩
  · intro inside h
    refine ⟨h.balanced, fun expected span hfails hclosing => ?_⟩
    rw [Expectation.text_eq_closing_iff.mp hclosing] at hfails
    exact Parser.outcome_block_ne_closing h.balanced span hfails
  · intro tokens statements
    rw [parsedBlock_mem_parse, Parser.parsedBlock_mem_events_iff]
  · intro expected span hclosing h
    rw [Expectation.text_eq_closing_iff.mp hclosing] at h ⊢
    rcases Parser.outcome_block_eq_error_iff.mp (parse_eq_error_iff.mp h) with
      hraises | ⟨inside, hhands, hinside⟩
    · exact ⟨hraises, hraises.unclosed.exists_last⟩
    · exact absurd hinside (Parser.outcome_block_ne_closing hhands.balanced span)

end SochoScript
