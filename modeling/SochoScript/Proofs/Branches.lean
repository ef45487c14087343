import SochoScript.Proofs.Nesting
import SochoScript.Proofs.Concatenation

/-!
# Two spellings of the other branch

Behind `warna` a condition may go on with a block, or directly with another condition.
The parser treats the two in different ways.  A block is cut out up to its brace and
handed to a parser of its own, while another condition is read on from the same row, with
all of its own branches, and only where it ends does the first condition end.

That both ways lead to the same place takes three facts.  The other condition, which is
known to be read when nothing stands behind it, is read in the same way in front of
anything that does not open a branch.  In a block, it is the only statement.  And what the
parser does before the other branch and after it hangs only on where that branch ends
and on its statements, also when it fails there.

* `Conditional.of_unbranched`: a condition may stand in front of what opens no branch.
* `outcome_block_of_continues`: the outcome of a row that begins with a condition, for a
  given way of going on behind its block.
* `parse_chained_eq_braced`: **`warna agar` is short for a block with one condition.**
-/

namespace SochoScript

namespace Grammar

/-- A condition that reaches the end of the row may stand in front of anything that
opens no branch. -/
theorem Conditional.of_unbranched {lowers : Rendering} {follow : List Token}
    (hfollow : ∀ t ∈ follow.head?, ¬ t.IsKeyword .warna) {item : List Token} {s : Statement} :
    Conditional lowers item [] s → Conditional lowers item follow s
  | .alone hhead _ => .alone hhead hfollow
  | .otherwise hhead hopening hother => .otherwise hhead hopening hother
  | .chained hhead hopening hother => .chained hhead hopening (hother.of_unbranched hfollow)

end Grammar

namespace Parser

open Reading (Yields)

/-- The row is one condition, with all of its branches, and nothing else. -/
def ReadsWhole (row : List Token) (s : Statement) : Prop :=
  ∃ keyword rest, row = keyword :: rest ∧ keyword.IsKeyword .agar ∧
    Yields (condition keyword rest).outcome s []

/-- In front of what opens no branch, the condition is read up to its end. -/
theorem ReadsWhole.yields {row follow : List Token} {s : Statement} (h : ReadsWhole row s)
    (hfollow : ∀ t ∈ follow.head?, ¬ t.IsKeyword .warna) :
    ∃ keyword rest, row = keyword :: rest ∧ keyword.IsKeyword .agar ∧
      Yields (condition keyword (rest ++ follow)).outcome s follow := by
  obtain ⟨keyword, rest, rfl, hkeyword, hread⟩ := h
  obtain ⟨item, hsplit, hitem⟩ := Grammar.conditional_of_condition
    (fun _ _ _ => Grammar.statements_of_block) (Nat.le_refl _) hkeyword hread
  rw [List.append_nil] at hsplit
  subst hsplit
  obtain ⟨first, more, hcons, -, hread⟩ := (hitem.of_unbranched hfollow).yields
    (fun _ _ _ => Grammar.block_of_statements) (Nat.le_refl _)
  cases hcons
  exact ⟨keyword, rest, rfl, hkeyword, hread⟩

/-- A parser of its own reads the condition as the only statement. -/
theorem ReadsWhole.outcome_block {row : List Token} {s : Statement} (h : ReadsWhole row s) :
    (block row).outcome = .ok [s] := by
  obtain ⟨keyword, rest, rfl, hkeyword, hread⟩ := h
  rw [Grammar.outcome_block_of_opens (.condition hkeyword hread), outcome_block_nil]
  rfl

/-- The head of a condition whose block is there fails only if its test does. -/
theorem guarded_of_encloses (keyword : Token) {run braced inside follow : List Token}
    (hrun : ∀ t ∈ run, t.opensBlock = false) (hbraced : Block.Encloses braced inside follow) :
    ∃ hshorter, guarded keyword (run ++ braced) = do
      let test ← expression .condition keyword.span run
      return ⟨test, inside, follow, hshorter⟩ := by
  have hshorter : inside.length + follow.length < (run ++ braced).length := by
    have hlength := hbraced.length_eq
    rw [List.length_append]
    omega
  have hfirst : ∀ t ∈ braced.head?, t.opensBlock = true := by
    obtain ⟨opening, closing, rfl, hopening, -⟩ := hbraced
    simpa using hopening
  obtain ⟨hleading, -⟩ :=
    (leading_remaining_iff Token.opensBlock (run ++ braced)).mpr ⟨rfl, hrun, hfirst⟩
  refine ⟨hshorter, ?_⟩
  cases htest : expression .condition keyword.span run with
  | error d =>
      rw [guarded, hleading, htest]
      rfl
  | ok test =>
      exact guarded_eq_ok_iff.mpr
        ⟨run, braced, rfl, hrun, expression_eq_ok_iff.mp htest, hbraced⟩

/-- **A row that begins with a condition.**  If the way in which the condition goes on
behind its block is the same for every test and every block, then the outcome is that of
the test, of the block and of what follows the condition, in this order. -/
theorem outcome_block_of_continues {keyword : Token} {run braced inside rest follow : List Token}
    {otherwise : List Statement} (hkeyword : keyword.IsKeyword .agar)
    (hrun : ∀ t ∈ run, t.opensBlock = false) (hbraced : Block.Encloses braced inside rest)
    (hrest : ∀ test body, Continues test body rest (.condition test body otherwise) follow) :
    (block (keyword :: (run ++ braced))).outcome = do
      let test ← expression .condition keyword.span run
      let body ← (block inside).outcome
      let more ← (block follow).outcome
      return .condition test body otherwise :: more := by
  obtain ⟨hshorter, hguarded⟩ := guarded_of_encloses keyword hrun hbraced
  -- A failure of the test or of the block comes before the ways part.
  cases htest : expression .condition keyword.span run with
  | error d =>
      rw [outcome_block_cons, statement?_of_agar hkeyword, outcome_condition, hguarded, htest]
      rfl
  | ok test =>
      cases hbody : (block inside).outcome with
      | error d =>
          rw [outcome_block_cons, statement?_of_agar hkeyword, outcome_condition, hguarded, htest]
          simp only [bind, pure, Except.bind, Except.pure, hbody]
      | ok body =>
          have hguards : Guards (run ++ braced) test inside rest :=
            ⟨run, braced, rfl, hrun, expression_eq_ok_iff.mp htest, hbraced⟩
          have hread : Yields (condition keyword (run ++ braced)).outcome _ follow :=
            yields_condition_iff.mpr ⟨test, inside, rest, body, hguards, hbody, hrest test body⟩
          rw [Grammar.outcome_block_of_opens (.condition hkeyword hread)]
          rfl

end Parser

/-- **`warna agar` is short for a block with one condition.**  A condition with a test and
a block goes on with another condition, which is read whole and has all of its braces.
Whether that condition follows directly or stands in braces, the parser returns the same
program or fails with the same complaint, whatever follows that opens no branch. -/
theorem parse_chained_eq_braced (agar opening closing warna brace ending : Token)
    (test body chain follow : List Token) (s : Statement)
    (hagar : agar.IsKeyword .agar) (hwarna : warna.IsKeyword .warna)
    (hopening : opening.opensBlock = true) (hclosing : closing.closesBlock = true)
    (hbrace : brace.opensBlock = true) (hending : ending.closesBlock = true)
    (htest : ∀ t ∈ test, t.opensBlock = false)
    (hbody : Block.Balanced body) (hchain : Block.Balanced chain)
    (hwhole : Parser.ReadsWhole chain s)
    (hfollow : ∀ t ∈ follow.head?, ¬ t.IsKeyword .warna) :
    (parse ([agar] ++ test ++ [opening] ++ body ++ [closing, warna] ++ chain ++ follow)).outcome =
      (parse ([agar] ++ test ++ [opening] ++ body ++ [closing, warna, brace] ++ chain ++
        [ending] ++ follow)).outcome := by
  have hbraced : ∀ rest, Block.Encloses (opening :: (body ++ closing :: rest)) body rest :=
    fun rest => ⟨opening, closing, rfl, hopening, hclosing, hbody⟩
  have hdirect : ∀ test body, Parser.Continues test body (warna :: (chain ++ follow))
      (.condition test body [s]) follow := by
    intro test body
    obtain ⟨next, more, rfl, hnext, hread⟩ := hwhole.yields hfollow
    exact .chained hwarna hnext hread
  have hblock : ∀ test body, Parser.Continues test body
      (warna :: brace :: (chain ++ ending :: follow)) (.condition test body [s]) follow := by
    intro test body
    exact .block hwarna ⟨brace, ending, rfl, hbrace, hending, hchain⟩ hwhole.outcome_block
  have hleft := Parser.outcome_block_of_continues hagar htest (hbraced _) hdirect
  have hright := Parser.outcome_block_of_continues hagar htest (hbraced _) hblock
  simp only [outcome_parse, List.append_assoc, List.cons_append, List.nil_append, hleft, hright]

/-- Two conditions that are chained, the second one with a block for its other branch. -/
def chainedPair : List Token :=
  [⟨.keyword, .text "agar", ⟨1, 19, 18, 22⟩⟩, ⟨.identifier, .text "b", ⟨1, 24, 23, 24⟩⟩,
    ⟨.bracket, .text "\x7b", ⟨1, 26, 25, 26⟩⟩, ⟨.bracket, .text "\x7d", ⟨1, 27, 26, 27⟩⟩,
    ⟨.keyword, .text "warna", ⟨1, 29, 28, 33⟩⟩, ⟨.keyword, .text "agar", ⟨1, 35, 34, 38⟩⟩,
    ⟨.identifier, .text "c", ⟨1, 40, 39, 40⟩⟩, ⟨.bracket, .text "\x7b", ⟨1, 42, 41, 42⟩⟩,
    ⟨.bracket, .text "\x7d", ⟨1, 43, 42, 43⟩⟩, ⟨.keyword, .text "warna", ⟨1, 45, 44, 49⟩⟩,
    ⟨.bracket, .text "\x7b", ⟨1, 51, 50, 51⟩⟩, ⟨.keyword, .text "likho", ⟨1, 53, 52, 57⟩⟩,
    ⟨.identifier, .text "d", ⟨1, 59, 58, 59⟩⟩, ⟨.bracket, .text "\x7d", ⟨1, 61, 60, 61⟩⟩]

/-- A chain of two conditions is read as one statement. -/
theorem readsWhole_chainedPair :
    Parser.ReadsWhole chainedPair
      (.condition "b" [] [.condition "c" [] [.print "d"]]) :=
  ⟨_, _, rfl, ⟨rfl, rfl⟩, ⟨⟨_, [], Nat.zero_le _⟩, by with_unfolding_all rfl, rfl, rfl⟩⟩

/-- The row has all of its braces, because a brace behind it is found to be the one that
closes. -/
theorem balanced_chainedPair : Block.Balanced chainedPair := by
  have hclose : Block.close? 0 (chainedPair ++ [⟨.bracket, .text "\x7d", {}⟩]) =
      some (chainedPair, []) := by
    with_unfolding_all rfl
  obtain ⟨_, _, _, hsettles⟩ := Block.close?_eq_some_iff.mp hclose
  exact hsettles

/-- The beginning of a condition, up to the word behind its block. -/
def branchingHead : List Token :=
  [⟨.keyword, .text "agar", ⟨1, 1, 0, 4⟩⟩, ⟨.identifier, .text "a", ⟨1, 6, 5, 6⟩⟩,
    ⟨.bracket, .text "\x7b", ⟨1, 8, 7, 8⟩⟩, ⟨.bracket, .text "\x7d", ⟨1, 9, 8, 9⟩⟩,
    ⟨.keyword, .text "warna", ⟨1, 11, 10, 15⟩⟩]

/-- A statement that lacks its value. -/
def valuelessPrint : List Token := [⟨.keyword, .text "likho", ⟨1, 62, 61, 66⟩⟩]

/-- The two spellings of a branch, in front of a statement that cannot be read. -/
theorem parse_chained_eq_braced_valuelessPrint :
    (parse (branchingHead ++ chainedPair ++ valuelessPrint)).outcome =
        .error (.endOfInput .printedValue ⟨1, 67, 66, 66⟩) ∧
      (parse (branchingHead ++ [⟨.bracket, .text "\x7b", {}⟩] ++ chainedPair ++
        [⟨.bracket, .text "\x7d", {}⟩] ++ valuelessPrint)).outcome =
        .error (.endOfInput .printedValue ⟨1, 67, 66, 66⟩) := by
  have hchained : (parse (branchingHead ++ chainedPair ++ valuelessPrint)).outcome =
      .error (.endOfInput .printedValue ⟨1, 67, 66, 66⟩) := by
    with_unfolding_all rfl
  have hfollow : ∀ t ∈ valuelessPrint.head?, ¬ t.IsKeyword .warna := by
    intro t ht hwarna
    cases ht
    exact absurd hwarna.2 (by decide)
  refine ⟨hchained, Eq.trans (Eq.symm ?_) hchained⟩
  exact parse_chained_eq_braced _ _ _ _ _ _ [_] [] chainedPair valuelessPrint _
    ⟨rfl, rfl⟩ ⟨rfl, rfl⟩ rfl rfl rfl rfl (by decide) (Block.settles_nil.mpr rfl)
    balanced_chainedPair readsWhole_chainedPair hfollow

end SochoScript
