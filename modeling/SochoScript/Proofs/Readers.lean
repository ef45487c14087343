import SochoScript.Program.Parser
import SochoScript.Proofs.Blocks

/-!
# What the readers accept

The parser is built from small readers, and each of them either fails or yields
a value and the tokens that follow it.  This file says of each reader exactly
when it yields what, in terms of the row of tokens alone, so that later files
need not open a reader again.

The two readers that call each other, `Parser.block` and `Parser.condition`,
also tell events.  `outcome_block_cons` and `outcome_condition` give their
outcomes without the events, one step at a time; `block_cons_eq_ok_iff` and
`yields_condition_iff` are what one step says about success.
-/

namespace SochoScript

/-- A sequence succeeds when both of its parts do. -/
theorem bind_eq_ok_iff {ε α β : Type} {first : Except ε α} {next : α → Except ε β} {b : β} :
    (first >>= next) = .ok b ↔ ∃ a, first = .ok a ∧ next a = .ok b := by
  cases first with
  | error e =>
      apply Iff.intro
      · intro h
        cases h
      · intro h
        obtain ⟨a, ha, -⟩ := h
        cases ha
  | ok a =>
      apply Iff.intro
      · intro h
        exact ⟨a, rfl, h⟩
      · intro h
        obtain ⟨a, ha, hnext⟩ := h
        cases ha
        exact hnext

/-- A token is the given keyword. -/
def Token.IsKeyword (t : Token) (keyword : Keyword) : Prop :=
  t.kind = .keyword ∧ t.value = .text keyword.spelling

/-- The keyword that is found is the keyword that the token is. -/
theorem Token.keyword?_eq_some_iff {t : Token} {keyword : Keyword} :
    t.keyword? = some keyword ↔ t.IsKeyword keyword := by
  unfold Token.keyword? Token.text? Token.IsKeyword
  split
  · rename_i hkind
    cases t.value with
    | integer value => simp [hkind]
    | float value => simp [hkind]
    | text value =>
        simp only [Option.bind_some, Keyword.ofSpelling?_eq_some_iff, hkind, true_and,
          Value.text.injEq]
        exact eq_comm
  · rename_i hkind
    simp [hkind]

namespace Reading

variable {α : Type} {tokens : List Token}

/-- The reader succeeds with the value `a` and leaves the tokens `follow`. -/
def Yields (result : Except Diagnostic (Reading α tokens)) (a : α) (follow : List Token) : Prop :=
  ∃ reading, result = .ok reading ∧ reading.value = a ∧ reading.rest = follow

/-- A reader does not leave more tokens than it was given. -/
theorem Yields.length_le {result : Except Diagnostic (Reading α tokens)} {a : α}
    {follow : List Token} (h : Yields result a follow) : follow.length ≤ tokens.length := by
  obtain ⟨reading, -, -, rfl⟩ := h
  exact reading.notLonger

/-- A reading that succeeded yields what it read and what it left. -/
@[simp] theorem yields_ok {reading : Reading α tokens} {a : α} {follow : List Token} :
    Yields (.ok reading) a follow ↔ reading.value = a ∧ reading.rest = follow := by
  apply Iff.intro
  · intro h
    obtain ⟨same, hsame, ha, hfollow⟩ := h
    cases hsame
    exact ⟨ha, hfollow⟩
  · intro h
    obtain ⟨ha, hfollow⟩ := h
    exact ⟨reading, rfl, ha, hfollow⟩

/-- The same for one that is given back. -/
@[simp] theorem yields_pure {reading : Reading α tokens} {a : α} {follow : List Token} :
    Yields (pure reading) a follow ↔ reading.value = a ∧ reading.rest = follow :=
  yields_ok

/-- A failure yields nothing. -/
@[simp] theorem yields_error {diagnostic : Diagnostic} {a : α} {follow : List Token} :
    ¬ Yields (.error diagnostic : Except Diagnostic (Reading α tokens)) a follow := by
  intro h
  obtain ⟨reading, hreading, -⟩ := h
  cases hreading

/-- A sequence yields what its second part does, behind a first part that succeeds. -/
theorem yields_bind {β : Type} {first : Except Diagnostic β}
    {next : β → Except Diagnostic (Reading α tokens)} {a : α} {follow : List Token} :
    Yields (first >>= next) a follow ↔ ∃ b, first = .ok b ∧ Yields (next b) a follow := by
  apply Iff.intro
  · intro h
    obtain ⟨reading, hreading, ha, hfollow⟩ := h
    obtain ⟨b, hb, hnext⟩ := bind_eq_ok_iff.mp hreading
    exact ⟨b, hb, reading, hnext, ha, hfollow⟩
  · intro h
    obtain ⟨b, rfl, hnext⟩ := h
    exact hnext

end Reading

open Reading (Yields yields_ok yields_pure yields_error yields_bind)

namespace Parser

/-! ### Readers of single tokens and of expressions -/

/-- A token that is expected is read exactly if it is in front and accepted. -/
theorem yields_expect_iff {expected : Expectation} {accepts : Token → Bool} {previous t : Token}
    {tokens follow : List Token} :
    Yields (expect expected accepts previous tokens) t follow ↔
      tokens = t :: follow ∧ accepts t = true := by
  cases tokens with
  | nil => simp [Yields, expect]
  | cons first rest =>
      by_cases haccepts : accepts first = true
      · simp only [expect, if_pos haccepts, yields_ok, List.cons.injEq]
        apply Iff.intro
        · intro h
          obtain ⟨rfl, rfl⟩ := h
          exact ⟨⟨rfl, rfl⟩, haccepts⟩
        · intro h
          obtain ⟨hsplit, -⟩ := h
          exact hsplit
      · simp only [expect, if_neg haccepts, yields_error, List.cons.injEq, false_iff]
        intro h
        obtain ⟨⟨rfl, -⟩, ht⟩ := h
        exact haccepts ht

/-- The tokens in front that fail `stops`, and the rest, which begins with one
that does not: there is one such way to split a row. -/
theorem leading_remaining_iff (stops : Token → Bool) (tokens : List Token)
    {run follow : List Token} :
    leading stops tokens = run ∧ remaining stops tokens = follow ↔
      tokens = run ++ follow ∧ (∀ t ∈ run, stops t = false) ∧
        ∀ t ∈ follow.head?, stops t = true := by
  apply Iff.intro
  · intro h
    obtain ⟨rfl, rfl⟩ := h
    refine ⟨List.takeWhile_append_dropWhile.symm, ?_, ?_⟩
    · intro t ht
      simpa using List.all_eq_true.mp List.all_takeWhile t ht
    · intro t ht
      have hne : remaining stops tokens ≠ [] := by
        intro hnil
        simp [hnil] at ht
      have hhead := List.head_dropWhile_not (fun t => !stops t) hne
      rw [List.head?_eq_some_head hne] at ht
      cases ht
      simpa [remaining] using hhead
  · intro h
    obtain ⟨rfl, hrun, hfollow⟩ := h
    have hall : ∀ t ∈ run, (!stops t) = true := by
      intro t ht
      simp [hrun t ht]
    have hstop : follow.takeWhile (fun t => !stops t) = [] ∧
        follow.dropWhile (fun t => !stops t) = follow := by
      cases follow with
      | nil => exact ⟨rfl, rfl⟩
      | cons first rest => simp [hfollow first rfl]
    refine ⟨?_, ?_⟩
    · simp [leading, List.takeWhile_append_of_pos hall, hstop.1]
    · simp [remaining, List.dropWhile_append_of_pos hall, hstop.2]

/-- The lowered text of a row of tokens is `text`, and it is not empty after
its outer blanks were dropped. -/
def Lowers (context : Context) (run : List Token) (text : String) : Prop :=
  Expression.text context run ≠ [] ∧ text = String.ofList (Expression.text context run)

/-- An expression is read as what its tokens are lowered to. -/
theorem expression_eq_ok_iff {context : Context} {anchor : Span} {run : List Token}
    {text : String} : expression context anchor run = .ok text ↔ Lowers context run text := by
  unfold expression Lowers
  cases Expression.text context run with
  | nil => simp
  | cons c more => simp [eq_comm]

/-- After an assignment the value is read up to the end of the statement. -/
theorem initializer_of_assigns {first : Token} (h : first.assigns = true) (rest : List Token) :
    initializer (first :: rest) = do
      let text ← expression .declaration first.span (leading endsStatement rest)
      return ⟨some text, remaining endsStatement rest,
        Nat.le_succ_of_le (length_remaining_le _ _)⟩ := by
  simp only [initializer, if_pos h]
  cases expression .declaration first.span (leading endsStatement rest) <;> rfl

/-- The two ways in which the value of a declaration is read. -/
theorem yields_initializer_iff {tokens follow : List Token} {value : Option String} :
    Yields (initializer tokens) value follow ↔
      (value = none ∧ tokens = follow ∧ ∀ t ∈ follow.head?, t.assigns = false) ∨
        ∃ assignment run text,
          tokens = assignment :: (run ++ follow) ∧ assignment.assigns = true ∧
            (∀ t ∈ run, endsStatement t = false) ∧
            (∀ t ∈ follow.head?, endsStatement t = true) ∧
            Lowers .declaration run text ∧ value = some text := by
  cases tokens with
  | nil =>
      simp only [initializer, yields_ok]
      apply Iff.intro
      · intro h
        obtain ⟨rfl, rfl⟩ := h
        exact .inl ⟨rfl, rfl, by simp⟩
      · intro h
        rcases h with ⟨rfl, rfl, -⟩ | ⟨_, _, _, hsplit, -⟩
        · exact ⟨rfl, rfl⟩
        · cases hsplit
  | cons first rest =>
      by_cases hassigns : first.assigns = true
      · simp only [initializer_of_assigns hassigns, yields_bind, yields_pure, expression_eq_ok_iff]
        apply Iff.intro
        · intro h
          obtain ⟨text, hlowers, hvalue, hfollow⟩ := h
          have hrun := (leading_remaining_iff endsStatement rest).mp ⟨rfl, hfollow⟩
          exact .inr ⟨first, _, text, by rw [← hrun.1], hassigns, hrun.2.1, hrun.2.2, hlowers,
            hvalue.symm⟩
        · intro h
          rcases h with ⟨-, rfl, hfirst⟩ | ⟨_, run, text, hsplit, -, hrun, hfollow, hlowers, rfl⟩
          · simp [hassigns] at hfirst
          · obtain ⟨rfl, hrest⟩ := List.cons.inj hsplit
            obtain ⟨hleading, hremaining⟩ :=
              (leading_remaining_iff _ rest).mpr ⟨hrest, hrun, hfollow⟩
            exact ⟨text, hleading ▸ hlowers, rfl, hremaining⟩
      · simp only [initializer, if_neg hassigns, yields_ok]
        apply Iff.intro
        · intro h
          obtain ⟨rfl, rfl⟩ := h
          exact .inl ⟨rfl, rfl, by simpa using hassigns⟩
        · intro h
          rcases h with ⟨rfl, rfl, -⟩ | ⟨_, _, _, hsplit, hassigns', -⟩
          · exact ⟨rfl, rfl⟩
          · obtain ⟨rfl, -⟩ := List.cons.inj hsplit
            exact absurd hassigns' hassigns

/-- A reader that first reads one token. -/
theorem yields_expect_bind_iff {α : Type} {expected : Expectation} {accepts : Token → Bool}
    {previous : Token} {tokens follow : List Token} {a : α}
    {next : Reading Token tokens → Except Diagnostic (Reading α tokens)} :
    Yields (expect expected accepts previous tokens >>= next) a follow ↔
      ∃ t rest, ∃ h : tokens = t :: rest, accepts t = true ∧
        Yields (next ⟨t, rest, h ▸ Nat.le_succ rest.length⟩) a follow := by
  simp only [yields_bind]
  apply Iff.intro
  · intro h
    obtain ⟨⟨t, rest, hlength⟩, hexpect, hnext⟩ := h
    obtain ⟨htokens, haccepts⟩ := yields_expect_iff.mp ⟨_, hexpect, rfl, rfl⟩
    exact ⟨t, rest, htokens, haccepts, hnext⟩
  · intro h
    obtain ⟨t, rest, rfl, haccepts, hnext⟩ := h
    exact ⟨_, if_pos haccepts, hnext⟩

/-- A declaration is a name and what may follow it. -/
theorem yields_declaration_iff {keyword : Token} {tokens follow : List Token} {s : Statement} :
    Yields (declaration keyword tokens) s follow ↔
      ∃ name rest value, tokens = name :: rest ∧ isName name = true ∧
        Yields (initializer rest) value follow ∧
        s = .declaration name.value.display value := by
  unfold declaration
  rw [yields_expect_bind_iff]
  simp only [yields_bind, yields_pure]
  apply Iff.intro
  · intro h
    obtain ⟨name, rest, htokens, hname, value, hvalue, hs, hfollow⟩ := h
    exact ⟨name, rest, value.value, htokens, hname, ⟨value, hvalue, rfl, hfollow⟩, hs.symm⟩
  · intro h
    obtain ⟨name, rest, _, htokens, hname, ⟨value, hvalue, rfl, hfollow⟩, rfl⟩ := h
    exact ⟨name, rest, htokens, hname, value, hvalue, rfl, hfollow⟩

/-- A printed value is one token. -/
theorem yields_print_iff {keyword : Token} {tokens follow : List Token} {s : Statement} :
    Yields (print keyword tokens) s follow ↔
      ∃ value, tokens = value :: follow ∧ isPrintable value = true ∧
        s = .print value.value.display := by
  unfold print
  rw [yields_expect_bind_iff]
  simp only [yields_pure]
  apply Iff.intro
  · intro h
    obtain ⟨value, rest, htokens, hvalue, hs, rfl⟩ := h
    exact ⟨value, htokens, hvalue, hs.symm⟩
  · intro h
    obtain ⟨value, htokens, hvalue, rfl⟩ := h
    exact ⟨value, follow, htokens, hvalue, rfl, rfl⟩

/-- The two ways in which a prompt is read. -/
theorem prompt_iff {tokens follow : List Token} {asked : Option String} :
    (prompt tokens).value = asked ∧ (prompt tokens).rest = follow ↔
      (asked = none ∧ tokens = follow ∧ ∀ t ∈ follow.head?, t.kind ≠ .string) ∨
        ∃ literal, tokens = literal :: follow ∧ literal.kind = .string ∧
          asked = some literal.value.display := by
  cases tokens with
  | nil =>
      simp only [prompt]
      apply Iff.intro
      · intro h
        obtain ⟨rfl, rfl⟩ := h
        exact .inl ⟨rfl, rfl, by simp⟩
      · intro h
        rcases h with ⟨rfl, rfl, -⟩ | ⟨_, hsplit, -⟩
        · exact ⟨rfl, rfl⟩
        · cases hsplit
  | cons first rest =>
      by_cases hkind : first.kind = .string
      · simp only [prompt, if_pos hkind]
        apply Iff.intro
        · intro h
          obtain ⟨rfl, rfl⟩ := h
          exact .inr ⟨first, rfl, hkind, rfl⟩
        · intro h
          rcases h with ⟨-, rfl, hfirst⟩ | ⟨_, hsplit, -, rfl⟩
          · exact absurd hkind (hfirst first rfl)
          · cases hsplit
            exact ⟨rfl, rfl⟩
      · simp only [prompt, if_neg hkind]
        apply Iff.intro
        · intro h
          obtain ⟨rfl, rfl⟩ := h
          exact .inl ⟨rfl, rfl, by simpa using hkind⟩
        · intro h
          rcases h with ⟨rfl, rfl, -⟩ | ⟨_, hsplit, hstring, -⟩
          · exact ⟨rfl, rfl⟩
          · cases hsplit
            exact absurd hstring hkind

/-- An input is a name and a prompt that may follow it. -/
theorem yields_input_iff {keyword : Token} {tokens follow : List Token} {s : Statement} :
    Yields (input keyword tokens) s follow ↔
      ∃ name rest, tokens = name :: rest ∧ isName name = true ∧ (prompt rest).rest = follow ∧
        s = .input name.value.display (prompt rest).value := by
  unfold input
  rw [yields_expect_bind_iff]
  simp only [yields_pure]
  apply Iff.intro
  · intro h
    obtain ⟨name, rest, htokens, hname, hs, hfollow⟩ := h
    exact ⟨name, rest, htokens, hname, hfollow, hs.symm⟩
  · intro h
    obtain ⟨name, rest, htokens, hname, hfollow, rfl⟩ := h
    exact ⟨name, rest, htokens, hname, rfl, hfollow⟩

/-! ### Conditions -/

/-- The row begins with a test and its block: the tokens up to the first opening
brace have the lowered text `test`, and the block holds `inside`. -/
def Guards (tokens : List Token) (test : String) (inside follow : List Token) : Prop :=
  ∃ run braced, tokens = run ++ braced ∧ (∀ t ∈ run, t.opensBlock = false) ∧
    Lowers .condition run test ∧ Block.Encloses braced inside follow

/-- What is read of a condition before its branches is a test and a block. -/
theorem guarded_eq_ok_iff {keyword : Token} {tokens : List Token} {head : Guarded tokens} :
    guarded keyword tokens = .ok head ↔ Guards tokens head.test head.inside head.rest := by
  obtain ⟨test, inside, follow, hlength⟩ := head
  simp only [guarded, bind_eq_ok_iff, expression_eq_ok_iff, Block.read_eq_ok_iff]
  apply Iff.intro
  · intro h
    obtain ⟨text, hlowers, block, hblock, hhead⟩ := h
    cases hhead
    have hsplit := (leading_remaining_iff Token.opensBlock tokens).mp ⟨rfl, rfl⟩
    exact ⟨_, _, hsplit.1, hsplit.2.1, hlowers, hblock⟩
  · intro h
    obtain ⟨run, braced, rfl, hrun, hlowers, hblock⟩ := h
    have hbraced : ∀ t ∈ braced.head?, t.opensBlock = true := by
      obtain ⟨opening, closing, rfl, hopens, -⟩ := hblock
      simpa using hopens
    obtain ⟨hleading, hremaining⟩ :=
      (leading_remaining_iff Token.opensBlock (run ++ braced)).mpr ⟨rfl, hrun, hbraced⟩
    rw [← hleading] at hlowers
    rw [← hremaining] at hblock
    exact ⟨test, hlowers, ⟨inside, follow, hblock.length_eq⟩, hblock, rfl⟩

/-- The inside of the block and what follows it are less than the whole. -/
theorem Guards.length_lt {tokens inside follow : List Token} {test : String}
    (h : Guards tokens test inside follow) : inside.length + follow.length < tokens.length := by
  obtain ⟨run, braced, rfl, -, -, hblock⟩ := h
  have hlength := hblock.length_eq
  simp only [List.length_append]
  omega

/-- Without `warna` a condition does not go on. -/
theorem branch_eq_none {tokens : List Token} (h : ∀ t ∈ tokens.head?, ¬ t.IsKeyword .warna) :
    branch tokens = .none := by
  cases tokens with
  | nil => rfl
  | cons first rest =>
      have hfirst : first.keyword? ≠ some .warna :=
        fun hwarna => h first rfl (Token.keyword?_eq_some_iff.mp hwarna)
      simp only [branch, if_neg hfirst]

/-- With `agar` behind it, another condition follows. -/
theorem branch_eq_chained {opening next : Token} {rest : List Token}
    (hopening : opening.IsKeyword .warna) (hnext : next.IsKeyword .agar) :
    branch (opening :: next :: rest) =
      .chained next rest (Nat.lt_succ_of_lt (Nat.lt_succ_self _)) := by
  rw [← Token.keyword?_eq_some_iff] at hopening hnext
  simp only [branch, if_pos hopening, if_pos hnext]

/-- With anything else behind it, a block is needed. -/
theorem branch_eq_block {opening : Token} {rest : List Token}
    (hopening : opening.IsKeyword .warna) (hrest : ∀ t ∈ rest.head?, ¬ t.IsKeyword .agar) :
    branch (opening :: rest) = .block opening rest (Nat.lt_succ_self _) := by
  rw [← Token.keyword?_eq_some_iff] at hopening
  cases rest with
  | nil => simp only [branch, if_pos hopening]
  | cons next more =>
      have hnext : next.keyword? ≠ some .agar :=
        fun hagar => hrest next rfl (Token.keyword?_eq_some_iff.mp hagar)
      simp only [branch, if_pos hopening, if_neg hnext]

/-- There are three ways in which a row can go on after a condition's block. -/
theorem branch_cases (tokens : List Token) :
    (branch tokens = .none ∧ ∀ t ∈ tokens.head?, ¬ t.IsKeyword .warna) ∨
      (∃ opening next rest h, branch tokens = .chained next rest h ∧
        tokens = opening :: next :: rest ∧ opening.IsKeyword .warna ∧ next.IsKeyword .agar) ∨
      ∃ opening rest h, branch tokens = .block opening rest h ∧ tokens = opening :: rest ∧
        opening.IsKeyword .warna ∧ ∀ t ∈ rest.head?, ¬ t.IsKeyword .agar := by
  by_cases hwarna : ∀ t ∈ tokens.head?, ¬ t.IsKeyword .warna
  · exact .inl ⟨branch_eq_none hwarna, hwarna⟩
  · cases tokens with
    | nil => simp at hwarna
    | cons opening rest =>
        have hopening : opening.IsKeyword .warna := by simpa using hwarna
        by_cases hagar : ∀ t ∈ rest.head?, ¬ t.IsKeyword .agar
        · exact .inr (.inr ⟨opening, rest, _, branch_eq_block hopening hagar, rfl, hopening, hagar⟩)
        · cases rest with
          | nil => simp at hagar
          | cons next more =>
              have hnext : next.IsKeyword .agar := by simpa using hagar
              exact .inr (.inl ⟨opening, next, more, _, branch_eq_chained hopening hnext, rfl,
                hopening, hnext⟩)

/-- Another condition follows only behind the two keywords. -/
theorem cons_of_branch_eq_chained {tokens rest : List Token} {next : Token}
    {hlt : rest.length < tokens.length} (h : branch tokens = .chained next rest hlt) :
    ∃ opening : Token, tokens = opening :: next :: rest ∧ opening.IsKeyword .warna ∧
      next.IsKeyword .agar := by
  rcases branch_cases tokens with ⟨hbranch, -⟩ |
      ⟨opening, _, _, _, hbranch, hsplit, hopening, hnext⟩ | ⟨_, _, _, hbranch, -⟩
  · rw [hbranch] at h
    cases h
  · rw [hbranch] at h
    cases h
    exact ⟨opening, hsplit, hopening, hnext⟩
  · rw [hbranch] at h
    cases h

/-- A block is needed only behind the one keyword without the other. -/
theorem cons_of_branch_eq_block {tokens rest : List Token} {opening : Token}
    {hlt : rest.length < tokens.length} (h : branch tokens = .block opening rest hlt) :
    tokens = opening :: rest ∧ opening.IsKeyword .warna ∧
      ∀ t ∈ rest.head?, ¬ t.IsKeyword .agar := by
  rcases branch_cases tokens with ⟨hbranch, -⟩ | ⟨_, _, _, _, hbranch, -⟩ |
      ⟨_, _, _, hbranch, hsplit, hopening, hfirst⟩
  · rw [hbranch] at h
    cases h
  · rw [hbranch] at h
    cases h
  · rw [hbranch] at h
    cases h
    exact ⟨hsplit, hopening, hfirst⟩

/-! ### The two readers that call each other -/

/-- The statement that a token opens, if it opens one. -/
def statement? (t : Token) (rest : List Token) :
    Option (Except Diagnostic (Reading Statement rest)) :=
  match t.keyword? with
  | some .socho => some (declaration t rest)
  | some .likho => some (print t rest)
  | some .pucho => some (input t rest)
  | some .agar => some (condition t rest).outcome
  | some .warna => none
  | none => none

/-- A row without tokens has no statements. -/
@[simp] theorem outcome_block_nil : (block []).outcome = .ok [] := by
  rw [block]
  rfl

/-- One step of reading statements. -/
theorem outcome_block_cons (t : Token) (rest : List Token) :
    (block (t :: rest)).outcome =
      match statement? t rest with
      | some reading => do
        let read ← reading
        let more ← (block read.rest).outcome
        return read.value :: more
      | none => (block rest).outcome := by
  have hpassed : (if t.kind = .endOfStatement then block rest
      else do Logged.tell (.strayToken t); block rest).outcome = (block rest).outcome := by
    split
    · rfl
    · rfl
  rw [block, statement?]
  cases t.keyword? with
  | none => exact hpassed
  | some keyword =>
      cases keyword with
      | warna => exact hpassed
      | socho | likho | pucho | agar =>
          simp only [Logged.outcome_bind, Logged.outcome_ofExcept, Logged.outcome_pure]
          rfl

/-- What follows the block is no longer than the whole. -/
theorem Guarded.length_rest_le {tokens : List Token} (head : Guarded tokens) :
    head.rest.length ≤ tokens.length := by
  have hshorter := head.shorter
  omega

/-- One step of reading a condition. -/
theorem outcome_condition (keyword : Token) (tokens : List Token) :
    (condition keyword tokens).outcome = do
      let head ← guarded keyword tokens
      let body ← (block head.inside).outcome
      match branch head.rest with
      | .none => return ⟨.condition head.test body [], head.rest, head.length_rest_le⟩
      | .chained next rest hrest => do
        let chained ← (condition next rest).outcome
        return ⟨.condition head.test body [chained.value], chained.rest,
          Nat.le_trans chained.notLonger (Nat.le_trans (Nat.le_of_lt hrest) head.length_rest_le)⟩
      | .block opening rest hrest => do
        let other ← Block.read opening rest
        let otherwise ← (block other.inside).outcome
        return ⟨.condition head.test body otherwise, other.rest,
          Nat.le_trans other.length_rest_le
            (Nat.le_trans (Nat.le_of_lt hrest) head.length_rest_le)⟩ := by
  rw [condition]
  simp only [Logged.outcome_bind, Logged.outcome_ofExcept]
  congr 1
  funext head
  congr 1
  funext body
  cases branch head.rest with
  | none => rfl
  | chained next rest h =>
      simp only [Logged.outcome_bind, Logged.outcome_pure]
      rfl
  | block opening rest h =>
      simp only [Logged.outcome_bind, Logged.outcome_ofExcept, Logged.outcome_pure]
      rfl

/-- The token opens no statement. -/
def Stray (t : Token) : Prop :=
  ∀ keyword ∈ [Keyword.socho, .likho, .pucho, .agar], ¬ t.IsKeyword keyword

/-- The token opens a statement `s`, which is read from the tokens after it up to
`follow`. -/
inductive Opens (t : Token) (rest : List Token) (s : Statement) (follow : List Token) : Prop
  | declaration (hkeyword : t.IsKeyword .socho) (hread : Yields (declaration t rest) s follow)
  | print (hkeyword : t.IsKeyword .likho) (hread : Yields (print t rest) s follow)
  | input (hkeyword : t.IsKeyword .pucho) (hread : Yields (input t rest) s follow)
  | condition (hkeyword : t.IsKeyword .agar)
      (hread : Yields (condition t rest).outcome s follow)

/-- What follows a statement is no longer than what follows its first token. -/
theorem Opens.length_le {t : Token} {rest follow : List Token} {s : Statement}
    (h : Opens t rest s follow) : follow.length ≤ rest.length := by
  cases h with
  | declaration _ hread | print _ hread | input _ hread | condition _ hread =>
      exact hread.length_le

/-- A token opens no statement exactly if it is passed over. -/
theorem statement?_eq_none_iff (t : Token) (rest : List Token) :
    statement? t rest = none ↔ Stray t := by
  simp only [statement?, Stray, ← Token.keyword?_eq_some_iff]
  cases t.keyword? with
  | none => simp
  | some keyword => cases keyword <;> simp

/-- A statement is opened exactly if its reader yields it. -/
theorem opens_iff {t : Token} {rest follow : List Token} {s : Statement} :
    Opens t rest s follow ↔
      ∃ reading, statement? t rest = some reading ∧ Yields reading s follow := by
  apply Iff.intro
  · intro h
    cases h with
    | declaration hkeyword hread | print hkeyword hread | input hkeyword hread
    | condition hkeyword hread =>
        rw [← Token.keyword?_eq_some_iff] at hkeyword
        exact ⟨_, by simp only [statement?, hkeyword], hread⟩
  · intro h
    obtain ⟨reading, hstatement, hread⟩ := h
    unfold statement? at hstatement
    split at hstatement
    · cases hstatement
      exact .declaration (Token.keyword?_eq_some_iff.mp ‹_›) hread
    · cases hstatement
      exact .print (Token.keyword?_eq_some_iff.mp ‹_›) hread
    · cases hstatement
      exact .input (Token.keyword?_eq_some_iff.mp ‹_›) hread
    · cases hstatement
      exact .condition (Token.keyword?_eq_some_iff.mp ‹_›) hread
    · cases hstatement
    · cases hstatement

/-- One successful step of reading statements passes a stray token or reads the
statement that the token opens. -/
theorem block_cons_eq_ok_iff {t : Token} {rest : List Token} {body : List Statement} :
    (block (t :: rest)).outcome = .ok body ↔
      (Stray t ∧ (block rest).outcome = .ok body) ∨
        ∃ s follow more, Opens t rest s follow ∧ (block follow).outcome = .ok more ∧
          body = s :: more := by
  rw [outcome_block_cons, ← statement?_eq_none_iff t rest]
  simp only [opens_iff]
  cases statement? t rest with
  | none => simp
  | some reading =>
      simp only [bind_eq_ok_iff, reduceCtorEq, false_and, false_or]
      apply Iff.intro
      · intro h
        obtain ⟨read, hread, more, hmore, hbody⟩ := h
        cases hbody
        exact ⟨_, _, more, ⟨reading, rfl, read, hread, rfl, rfl⟩, hmore, rfl⟩
      · intro h
        obtain ⟨_, _, more, ⟨_, hsome, read, hread, rfl, rfl⟩, hmore, rfl⟩ := h
        cases hsome
        exact ⟨read, hread, more, hmore, rfl⟩

/-- What a condition is after its first block, when `rest` stands there: how the
row goes on, the statement, and what follows it. -/
inductive Continues (test : String) (body : List Statement) :
    List Token → Statement → List Token → Prop
  | alone {follow : List Token} (hfollow : ∀ t ∈ follow.head?, ¬ t.IsKeyword .warna) :
      Continues test body follow (.condition test body []) follow
  | chained {opening next : Token} {rest follow : List Token} {other : Statement}
      (hopening : opening.IsKeyword .warna) (hnext : next.IsKeyword .agar)
      (hread : Yields (condition next rest).outcome other follow) :
      Continues test body (opening :: next :: rest) (.condition test body [other]) follow
  | block {opening : Token} {braced inside follow : List Token} {otherwise : List Statement}
      (hopening : opening.IsKeyword .warna) (hbraced : Block.Encloses braced inside follow)
      (hread : (block inside).outcome = .ok otherwise) :
      Continues test body (opening :: braced) (.condition test body otherwise) follow

/-- One successful step of reading a condition. -/
theorem yields_condition_iff {keyword : Token} {tokens follow : List Token} {s : Statement} :
    Yields (condition keyword tokens).outcome s follow ↔
      ∃ test inside rest body, Guards tokens test inside rest ∧
        (block inside).outcome = .ok body ∧ Continues test body rest s follow := by
  rw [outcome_condition]
  simp only [yields_bind]
  apply Iff.intro
  · intro h
    obtain ⟨head, hhead, body, hbody, hread⟩ := h
    refine ⟨head.test, head.inside, head.rest, body, guarded_eq_ok_iff.mp hhead, hbody, ?_⟩
    rcases branch_cases head.rest with ⟨hbranch, hfollow⟩ |
        ⟨opening, next, rest, hlt, hbranch, hrest, hopening, hnext⟩ |
        ⟨opening, rest, hlt, hbranch, hrest, hopening, -⟩
    · simp only [hbranch, yields_pure] at hread
      obtain ⟨rfl, rfl⟩ := hread
      exact .alone hfollow
    · simp only [hbranch, yields_bind, yields_pure] at hread
      obtain ⟨chained, hchained, rfl, rfl⟩ := hread
      rw [hrest]
      exact .chained hopening hnext ⟨chained, hchained, rfl, rfl⟩
    · simp only [hbranch, yields_bind, yields_pure, Block.read_eq_ok_iff] at hread
      obtain ⟨other, hother, otherwise, hotherwise, rfl, rfl⟩ := hread
      rw [hrest]
      exact .block hopening hother hotherwise
  · intro h
    obtain ⟨test, inside, rest, body, hguards, hbody, hcontinues⟩ := h
    refine ⟨⟨test, inside, rest, hguards.length_lt⟩, guarded_eq_ok_iff.mpr hguards, body, hbody, ?_⟩
    cases hcontinues with
    | alone hfollow =>
        simp only [branch_eq_none hfollow, yields_pure, and_self]
    | chained hopening hnext hread =>
        obtain ⟨chained, hchained, rfl, rfl⟩ := hread
        simp only [branch_eq_chained hopening hnext, yields_bind, yields_pure]
        exact ⟨chained, hchained, rfl, rfl⟩
    | @block opening braced inside follow otherwise hopening hbraced hread =>
        have hnext : ∀ t ∈ braced.head?, ¬ t.IsKeyword .agar := by
          obtain ⟨brace, closing, rfl, hbrace, -⟩ := hbraced
          simp only [Token.opensBlock, Token.isText, Bool.and_eq_true, decide_eq_true_eq] at hbrace
          simp [Token.IsKeyword, hbrace.1]
        simp only [branch_eq_block hopening hnext, yields_bind, yields_pure,
          Block.read_eq_ok_iff]
        exact ⟨⟨inside, follow, hbraced.length_eq⟩, hbraced, otherwise, hread, rfl, rfl⟩

end Parser

/-- A program is what the statements of all tokens make up. -/
theorem outcome_parse (tokens : List Token) :
    (parse tokens).outcome = do
      let body ← (Parser.block tokens).outcome
      return ⟨body⟩ := by
  simp only [parse, Logged.outcome_bind, Logged.outcome_tell, Logged.outcome_pure]
  rfl

end SochoScript
