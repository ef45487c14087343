import SochoScript.Proofs.Readers

/-!
# The grammar of programs

A row of tokens is a program when it can be cut into items.  A token that opens
no statement is an item that says nothing, and every other item is a statement.
The rules below say which tokens make up a statement and which statement they
make up; no rule mentions a place in the row, a depth or a call of a reader.

The text of an expression is left to a `Rendering`, so that the same rules can be
read with more demanded of it; the parser's own is `Parser.Lowers`, and
`Statements.mono` passes from it to any other that holds of all rows.

A statement may be followed by anything, but some optional parts are taken
whenever they can be, so a rule may have to look at the first token after the
item.  For that reason the rules carry the row `follow` that comes after.

The parser decides everything from left to right.  That it finds the items all
the same, and no others, is the main statement:

* `parse_eq_ok_iff_statements`: the parser returns a program exactly if the
  tokens are made of items whose statements, in order, are its body.

One direction follows the readers, the other the rules; both go by the number of
tokens, because a block is a shorter row than the condition that holds it.
-/

namespace SochoScript

namespace Grammar

open Reading (Yields)
open SochoScript.Parser (Lowers)

/-- Which texts an expression may have, by where it stands and its row of tokens. -/
abbrev Rendering := Context → List Token → String → Prop

/-- A statement that holds no other statements. -/
inductive Simple (lowers : Rendering) : List Token → List Token → Statement → Prop
  /-- A name without a value: no assignment follows. -/
  | declared {keyword name : Token} {follow : List Token}
      (hkeyword : keyword.IsKeyword .socho) (hname : name.kind = .identifier)
      (hfollow : ∀ t ∈ follow.head?, t.assigns = false) :
      Simple lowers [keyword, name] follow (.declaration name.value.display none)
  /-- A name with a value: the value reaches up to the end of the statement. -/
  | initialized {keyword name assignment : Token} {run follow : List Token} {text : String}
      (hkeyword : keyword.IsKeyword .socho) (hname : name.kind = .identifier)
      (hassignment : assignment.assigns = true)
      (hrun : ∀ t ∈ run, t.kind ≠ .endOfStatement)
      (hfollow : ∀ t ∈ follow.head?, t.kind = .endOfStatement)
      (htext : lowers .declaration run text) :
      Simple lowers (keyword :: name :: assignment :: run) follow
        (.declaration name.value.display (some text))
  /-- A printed token. -/
  | printed {keyword value : Token} {follow : List Token}
      (hkeyword : keyword.IsKeyword .likho)
      (hvalue : value.kind ≠ .endOfStatement ∧ value.kind ≠ .bracket) :
      Simple lowers [keyword, value] follow (.print value.value.display)
  /-- An input without a prompt: no literal follows. -/
  | unprompted {keyword name : Token} {follow : List Token}
      (hkeyword : keyword.IsKeyword .pucho) (hname : name.kind = .identifier)
      (hfollow : ∀ t ∈ follow.head?, t.kind ≠ .string) :
      Simple lowers [keyword, name] follow (.input name.value.display none)
  /-- An input with its prompt. -/
  | prompted {keyword name literal : Token} {follow : List Token}
      (hkeyword : keyword.IsKeyword .pucho) (hname : name.kind = .identifier)
      (hliteral : literal.kind = .string) :
      Simple lowers [keyword, name, literal] follow
        (.input name.value.display (some literal.value.display))

mutual

/-- A row of tokens that is made of items. -/
inductive Statements (lowers : Rendering) : List Token → List Statement → Prop
  | nil : Statements lowers [] []
  /-- A token that opens no statement says nothing. -/
  | stray {t : Token} {rest : List Token} {body : List Statement}
      (hstray : Parser.Stray t) (hrest : Statements lowers rest body) :
      Statements lowers (t :: rest) body
  | simple {item follow : List Token} {s : Statement} {body : List Statement}
      (hitem : Simple lowers item follow s) (hrest : Statements lowers follow body) :
      Statements lowers (item ++ follow) (s :: body)
  | conditional {item follow : List Token} {s : Statement} {body : List Statement}
      (hitem : Conditional lowers item follow s) (hrest : Statements lowers follow body) :
      Statements lowers (item ++ follow) (s :: body)

/-- A condition with all of its branches. -/
inductive Conditional (lowers : Rendering) : List Token → List Token → Statement → Prop
  /-- No other branch follows. -/
  | alone {head follow : List Token} {test : String} {body : List Statement}
      (hhead : Head lowers head test body) (hfollow : ∀ t ∈ follow.head?, ¬ t.IsKeyword .warna) :
      Conditional lowers head follow (.condition test body [])
  /-- The other branch is a block. -/
  | otherwise {head braced follow : List Token} {opening : Token} {test : String}
      {body other : List Statement}
      (hhead : Head lowers head test body) (hopening : opening.IsKeyword .warna)
      (hother : Braced lowers braced other) :
      Conditional lowers (head ++ opening :: braced) follow (.condition test body other)
  /-- The other branch is one more condition. -/
  | chained {head item follow : List Token} {opening : Token} {test : String}
      {body : List Statement} {other : Statement}
      (hhead : Head lowers head test body) (hopening : opening.IsKeyword .warna)
      (hother : Conditional lowers item follow other) :
      Conditional lowers (head ++ opening :: item) follow (.condition test body [other])

/-- The keyword of a condition, its test and its block. -/
inductive Head (lowers : Rendering) : List Token → String → List Statement → Prop
  | mk {keyword : Token} {run braced : List Token} {test : String} {body : List Statement}
      (hkeyword : keyword.IsKeyword .agar) (hrun : ∀ t ∈ run, t.opensBlock = false)
      (htest : lowers .condition run test) (hbody : Braced lowers braced body) :
      Head lowers (keyword :: run ++ braced) test body

/-- A block: statements between a brace and the brace that belongs to it. -/
inductive Braced (lowers : Rendering) : List Token → List Statement → Prop
  | mk {opening closing : Token} {inside : List Token} {body : List Statement}
      (hopening : opening.opensBlock = true) (hbalanced : Block.Balanced inside)
      (hinside : Statements lowers inside body) (hclosing : closing.closesBlock = true) :
      Braced lowers (opening :: inside ++ [closing]) body

end

/-! ### Statements that hold no others -/

/-- A declaration that was read has a form of the grammar. -/
theorem simple_of_declaration {keyword : Token} {rest follow : List Token} {s : Statement}
    (hkeyword : keyword.IsKeyword .socho)
    (hread : Yields (Parser.declaration keyword rest) s follow) :
    ∃ item, keyword :: rest = item ++ follow ∧ Simple Lowers item follow s := by
  obtain ⟨name, rest, value, rfl, hname, hvalue, rfl⟩ := Parser.yields_declaration_iff.mp hread
  have hname : name.kind = .identifier := by simpa [Parser.isName] using hname
  rcases Parser.yields_initializer_iff.mp hvalue with ⟨rfl, rfl, hfollow⟩ |
      ⟨assignment, run, text, rfl, hassignment, hrun, hfollow, htext, rfl⟩
  · exact ⟨_, rfl, .declared hkeyword hname hfollow⟩
  · refine ⟨keyword :: name :: assignment :: run, by simp, ?_⟩
    refine .initialized hkeyword hname hassignment ?_ ?_ htext
    · simpa [Parser.endsStatement] using hrun
    · simpa [Parser.endsStatement] using hfollow

/-- So has a printed value. -/
theorem simple_of_print {keyword : Token} {rest follow : List Token} {s : Statement}
    (hkeyword : keyword.IsKeyword .likho)
    (hread : Yields (Parser.print keyword rest) s follow) :
    ∃ item, keyword :: rest = item ++ follow ∧ Simple Lowers item follow s := by
  obtain ⟨value, rfl, hvalue, rfl⟩ := Parser.yields_print_iff.mp hread
  exact ⟨_, rfl, .printed hkeyword (by simpa [Parser.isPrintable] using hvalue)⟩

/-- So has an input. -/
theorem simple_of_input {keyword : Token} {rest follow : List Token} {s : Statement}
    (hkeyword : keyword.IsKeyword .pucho)
    (hread : Yields (Parser.input keyword rest) s follow) :
    ∃ item, keyword :: rest = item ++ follow ∧ Simple Lowers item follow s := by
  obtain ⟨name, rest, rfl, hname, hfollow, rfl⟩ := Parser.yields_input_iff.mp hread
  have hname : name.kind = .identifier := by simpa [Parser.isName] using hname
  rcases Parser.prompt_iff.mp ⟨rfl, hfollow⟩ with ⟨hasked, rfl, hnone⟩ |
      ⟨literal, rfl, hliteral, hasked⟩
  · rw [hasked]
    exact ⟨_, rfl, .unprompted hkeyword hname hnone⟩
  · rw [hasked]
    exact ⟨_, rfl, .prompted hkeyword hname hliteral⟩

/-- A statement of the grammar is read by the reader of its keyword. -/
theorem Simple.opens {item follow : List Token} {s : Statement} (h : Simple Lowers item follow s) :
    ∃ t rest, item ++ follow = t :: rest ∧ Parser.Opens t rest s follow := by
  cases h with
  | declared hkeyword hname hfollow =>
      refine ⟨_, _, rfl, .declaration hkeyword (Parser.yields_declaration_iff.mpr ?_)⟩
      refine ⟨_, _, none, rfl, by simpa [Parser.isName] using hname, ?_, rfl⟩
      exact Parser.yields_initializer_iff.mpr (.inl ⟨rfl, rfl, hfollow⟩)
  | initialized hkeyword hname hassignment hrun hfollow htext =>
      refine ⟨_, _, rfl, .declaration hkeyword (Parser.yields_declaration_iff.mpr ?_)⟩
      refine ⟨_, _, some _, rfl, by simpa [Parser.isName] using hname, ?_, rfl⟩
      refine Parser.yields_initializer_iff.mpr (.inr ?_)
      exact ⟨_, _, _, rfl, hassignment, by simpa [Parser.endsStatement] using hrun,
        by simpa [Parser.endsStatement] using hfollow, htext, rfl⟩
  | printed hkeyword hvalue =>
      refine ⟨_, _, rfl, .print hkeyword (Parser.yields_print_iff.mpr ?_)⟩
      exact ⟨_, rfl, by simpa [Parser.isPrintable] using hvalue, rfl⟩
  | @unprompted keyword name _ hkeyword hname hfollow =>
      have hprompt := Parser.prompt_iff.mpr (.inl ⟨rfl, rfl, hfollow⟩)
      refine ⟨_, _, rfl, .input hkeyword (Parser.yields_input_iff.mpr ?_)⟩
      exact ⟨name, follow, rfl, by simpa [Parser.isName] using hname, hprompt.2, by rw [hprompt.1]⟩
  | @prompted keyword name literal _ hkeyword hname hliteral =>
      have hprompt : (Parser.prompt (literal :: follow)).value = some literal.value.display ∧
          (Parser.prompt (literal :: follow)).rest = follow :=
        Parser.prompt_iff.mpr (.inr ⟨literal, rfl, hliteral, rfl⟩)
      refine ⟨_, _, rfl, .input hkeyword (Parser.yields_input_iff.mpr ?_)⟩
      exact ⟨name, literal :: follow, rfl, by simpa [Parser.isName] using hname, hprompt.2,
        by rw [hprompt.1]⟩

/-! ### From the readers to the rules -/

/-- The test and the block that were read are the head of a condition. -/
theorem head_of_guards {keyword : Token} {tokens inside rest : List Token} {test : String}
    {body : List Statement} (hkeyword : keyword.IsKeyword .agar)
    (hguards : Parser.Guards tokens test inside rest) (hbody : Statements Lowers inside body) :
    ∃ head, keyword :: tokens = head ++ rest ∧ Head Lowers head test body := by
  obtain ⟨run, braced, rfl, hrun, htest, opening, closing, rfl, hopening, hclosing, hbalanced⟩ :=
    hguards
  exact ⟨_, by simp, .mk hkeyword hrun htest (.mk hopening hbalanced hbody hclosing)⟩

/-- A condition that is read follows the rules, if all shorter rows of
statements do. -/
theorem conditional_of_condition {bound : Nat}
    (hblocks : ∀ inside body, inside.length < bound →
      (Parser.block inside).outcome = .ok body → Statements Lowers inside body)
    {keyword : Token} {tokens follow : List Token} {s : Statement} (hbound : tokens.length ≤ bound)
    (hkeyword : keyword.IsKeyword .agar)
    (h : Yields (Parser.condition keyword tokens).outcome s follow) :
    ∃ item, keyword :: tokens = item ++ follow ∧ Conditional Lowers item follow s := by
  obtain ⟨test, inside, rest, body, hguards, hbody, hcontinues⟩ :=
    Parser.yields_condition_iff.mp h
  have hshorter := hguards.length_lt
  have hinside := hblocks inside body (by omega) hbody
  obtain ⟨head, hsplit, hhead⟩ := head_of_guards hkeyword hguards hinside
  cases hcontinues with
  | alone hfollow => exact ⟨head, hsplit, .alone hhead hfollow⟩
  | @chained opening next rest _ _ hopening hnext hread =>
      have hrest : rest.length < tokens.length := by
        simp only [List.length_cons] at hshorter
        omega
      obtain ⟨item, hitem, hother⟩ :=
        conditional_of_condition hblocks (by omega) hnext hread
      refine ⟨_, ?_, .chained hhead hopening hother⟩
      rw [hsplit, hitem, List.append_assoc, List.cons_append]
  | @block opening braced other _ _ hopening hbraced hread =>
      have hlength := hbraced.length_eq
      have hother := hblocks other _ (by simp only [List.length_cons] at hshorter; omega) hread
      obtain ⟨brace, closing, rfl, hbrace, hclosing, hbalanced⟩ := hbraced
      refine ⟨_, ?_, .otherwise hhead hopening (.mk hbrace hbalanced hother hclosing)⟩
      rw [hsplit]
      simp
termination_by tokens.length

/-- What the parser reads follows the rules. -/
theorem statements_of_block : ∀ {tokens : List Token} {body : List Statement},
    (Parser.block tokens).outcome = .ok body → Statements Lowers tokens body
  | [], body, h => by
      rw [Parser.outcome_block_nil] at h
      cases h
      exact .nil
  | t :: rest, body, h => by
      rcases Parser.block_cons_eq_ok_iff.mp h with ⟨hstray, hrest⟩ |
          ⟨s, follow, more, hopens, hmore, rfl⟩
      · exact .stray hstray (statements_of_block hrest)
      · have hshorter := hopens.length_le
        have hrest := statements_of_block hmore
        cases hopens with
        | declaration hkeyword hread =>
            obtain ⟨item, hitem, hsimple⟩ := simple_of_declaration hkeyword hread
            exact hitem ▸ .simple hsimple hrest
        | print hkeyword hread =>
            obtain ⟨item, hitem, hsimple⟩ := simple_of_print hkeyword hread
            exact hitem ▸ .simple hsimple hrest
        | input hkeyword hread =>
            obtain ⟨item, hitem, hsimple⟩ := simple_of_input hkeyword hread
            exact hitem ▸ .simple hsimple hrest
        | condition hkeyword hread =>
            have hblocks : ∀ inside body, inside.length < rest.length →
                (Parser.block inside).outcome = .ok body → Statements Lowers inside body :=
              fun inside body hlt hread => statements_of_block hread
            obtain ⟨item, hitem, hconditional⟩ :=
              conditional_of_condition hblocks (Nat.le_refl _) hkeyword hread
            exact hitem ▸ .conditional hconditional hrest
termination_by tokens => tokens.length
decreasing_by all_goals simp only [List.length_cons]; omega

/-! ### From the rules to the readers -/

/-- The head of a condition is read, if all shorter rows of statements are. -/
theorem Head.guards {bound : Nat}
    (hblocks : ∀ inside body, inside.length < bound → Statements Lowers inside body →
      (Parser.block inside).outcome = .ok body)
    {head : List Token} {test : String} {body : List Statement} (hbound : head.length ≤ bound)
    (h : Head Lowers head test body) (rest : List Token) :
    ∃ keyword tokens inside, head ++ rest = keyword :: tokens ∧ keyword.IsKeyword .agar ∧
      Parser.Guards tokens test inside rest ∧ (Parser.block inside).outcome = .ok body := by
  obtain @⟨keyword, run, _, _, _, hkeyword, hrun, htest, hbody⟩ := h
  obtain @⟨opening, closing, inside, _, hopening, hbalanced, hinside, hclosing⟩ := hbody
  simp only [List.length_append, List.length_cons, List.length_nil] at hbound
  refine ⟨keyword, run ++ opening :: (inside ++ closing :: rest), inside, by simp, hkeyword, ?_,
    hblocks inside body (by omega) hinside⟩
  exact ⟨run, _, rfl, hrun, htest, opening, closing, rfl, hopening, hclosing, hbalanced⟩

/-- A condition of the grammar is read, if all shorter rows of statements are. -/
theorem Conditional.yields {bound : Nat}
    (hblocks : ∀ inside body, inside.length < bound → Statements Lowers inside body →
      (Parser.block inside).outcome = .ok body)
    {item follow : List Token} {s : Statement} (hbound : item.length ≤ bound)
    (h : Conditional Lowers item follow s) :
    ∃ keyword rest, item ++ follow = keyword :: rest ∧ keyword.IsKeyword .agar ∧
      Yields (Parser.condition keyword rest).outcome s follow := by
  induction hlength : item.length using Nat.strongRecOn generalizing item follow s with
  | ind n ih =>
      cases h with
      | alone hhead hfollow =>
          obtain ⟨keyword, tokens, inside, hsplit, hkeyword, hguards, hbody⟩ :=
            hhead.guards hblocks hbound follow
          refine ⟨keyword, tokens, hsplit, hkeyword, Parser.yields_condition_iff.mpr ?_⟩
          exact ⟨_, _, _, _, hguards, hbody, .alone hfollow⟩
      | @otherwise head braced _ opening _ _ other hhead hopening hother =>
          obtain @⟨brace, closing, inside, _, hbrace, hbalanced, hinside, hclosing⟩ := hother
          simp only [List.length_append, List.length_cons, List.length_nil] at hbound
          obtain ⟨keyword, tokens, _, hsplit, hkeyword, hguards, hbody⟩ :=
            hhead.guards hblocks (by omega) (opening :: brace :: (inside ++ closing :: follow))
          have hread := hblocks inside other (by omega) hinside
          refine ⟨keyword, tokens, by simpa using hsplit, hkeyword,
            Parser.yields_condition_iff.mpr ⟨_, _, _, _, hguards, hbody, ?_⟩⟩
          exact .block hopening ⟨brace, closing, rfl, hbrace, hclosing, hbalanced⟩ hread
      | @chained head chain _ opening _ _ _ hhead hopening hother =>
          simp only [List.length_append, List.length_cons] at hbound hlength
          obtain ⟨keyword, tokens, inside, hsplit, hkeyword, hguards, hbody⟩ :=
            hhead.guards hblocks (by omega) (opening :: (chain ++ follow))
          obtain ⟨next, rest, hchain, hnext, hread⟩ :=
            ih chain.length (by omega) (by omega) hother rfl
          refine ⟨keyword, tokens, by simpa using hsplit, hkeyword,
            Parser.yields_condition_iff.mpr ⟨_, _, _, _, hguards, hbody, ?_⟩⟩
          rw [hchain]
          exact .chained hopening hnext hread

/-- What follows the rules is read. -/
theorem block_of_statements : ∀ {tokens : List Token} {body : List Statement},
    Statements Lowers tokens body → (Parser.block tokens).outcome = .ok body
  | _, _, .nil => Parser.outcome_block_nil
  | _, _, .stray hstray hrest =>
      Parser.block_cons_eq_ok_iff.mpr (.inl ⟨hstray, block_of_statements hrest⟩)
  | _, _, @Statements.simple _ item follow _ _ hitem hrest => by
      obtain ⟨t, rest, hsplit, hopens⟩ := hitem.opens
      have hshorter : follow.length < (item ++ follow).length := by
        rw [hsplit]
        exact Nat.lt_succ_of_le hopens.length_le
      rw [hsplit]
      exact Parser.block_cons_eq_ok_iff.mpr
        (.inr ⟨_, _, _, hopens, block_of_statements hrest, rfl⟩)
  | _, _, @Statements.conditional _ item follow _ _ hitem hrest => by
      have hblocks : ∀ inside body, inside.length < item.length → Statements Lowers inside body →
          (Parser.block inside).outcome = .ok body :=
        fun inside body hlt hinside => block_of_statements hinside
      obtain ⟨keyword, rest, hsplit, hkeyword, hread⟩ :=
        Conditional.yields hblocks (Nat.le_refl _) hitem
      have hshorter : follow.length < (item ++ follow).length := by
        rw [hsplit]
        exact Nat.lt_succ_of_le hread.length_le
      rw [hsplit]
      exact Parser.block_cons_eq_ok_iff.mpr
        (.inr ⟨_, _, _, .condition hkeyword hread, block_of_statements hrest, rfl⟩)
termination_by tokens => tokens.length
decreasing_by
  · exact Nat.lt_succ_self _
  · exact hshorter
  · exact Nat.lt_of_lt_of_le hlt (by simp)
  · exact hshorter

/-- The program of a row of tokens is the block that they are. -/
theorem parse_eq_ok_iff {tokens : List Token} {program : Program} :
    (parse tokens).outcome = .ok program ↔ (Parser.block tokens).outcome = .ok program.body := by
  rw [outcome_parse, bind_eq_ok_iff]
  apply Iff.intro
  · intro h
    obtain ⟨body, hbody, hprogram⟩ := h
    cases hprogram
    exact hbody
  · intro h
    exact ⟨program.body, h, rfl⟩

/-- **The parser accepts exactly its grammar and builds exactly its tree.**  A
row of tokens is parsed, whatever kinds and values they have, exactly if it is
made of items, and the body of the program is then the row of the items'
statements. -/
theorem parse_eq_ok_iff_statements (tokens : List Token) (program : Program) :
    (parse tokens).outcome = .ok program ↔ Statements Lowers tokens program.body := by
  rw [parse_eq_ok_iff]
  exact ⟨statements_of_block, block_of_statements⟩

/-! ### What is known of every expression -/

/-- The second rendering allows what the first one does, as long as all tokens of
the row have the property `P`. -/
def Refines (P : Token → Prop) (lowers lowers' : Rendering) : Prop :=
  ∀ context row text, (∀ t ∈ row, P t) → lowers context row text → lowers' context row text

section

variable {P : Token → Prop} {lowers lowers' : Rendering}

/-- A simple statement by one rendering is one by every rendering that allows as much. -/
theorem Simple.mono (hlowers : Refines P lowers lowers') {item follow : List Token}
    {s : Statement} (h : Simple lowers item follow s) (htokens : ∀ t ∈ item, P t) :
    Simple lowers' item follow s := by
  cases h with
  | declared hkeyword hname hfollow => exact .declared hkeyword hname hfollow
  | initialized hkeyword hname hassignment hrun hfollow htext =>
      refine .initialized hkeyword hname hassignment hrun hfollow (hlowers _ _ _ ?_ htext)
      intro t ht
      exact htokens t (by simp [ht])
  | printed hkeyword hvalue => exact .printed hkeyword hvalue
  | unprompted hkeyword hname hfollow => exact .unprompted hkeyword hname hfollow
  | prompted hkeyword hname hliteral => exact .prompted hkeyword hname hliteral

mutual

/-- So are statements in a row. -/
theorem Statements.mono (hlowers : Refines P lowers lowers') {tokens : List Token}
    {body : List Statement} :
    Statements lowers tokens body → (∀ t ∈ tokens, P t) → Statements lowers' tokens body
  | .nil, _ => .nil
  | .stray hstray hrest, htokens =>
      .stray hstray (hrest.mono hlowers fun t ht => htokens t (List.mem_cons_of_mem _ ht))
  | .simple hitem hrest, htokens =>
      .simple (hitem.mono hlowers fun t ht => htokens t (List.mem_append_left _ ht))
        (hrest.mono hlowers fun t ht => htokens t (List.mem_append_right _ ht))
  | .conditional hitem hrest, htokens =>
      .conditional (hitem.mono hlowers fun t ht => htokens t (List.mem_append_left _ ht))
        (hrest.mono hlowers fun t ht => htokens t (List.mem_append_right _ ht))

/-- So is a condition. -/
theorem Conditional.mono (hlowers : Refines P lowers lowers') {item follow : List Token}
    {s : Statement} :
    Conditional lowers item follow s → (∀ t ∈ item, P t) → Conditional lowers' item follow s
  | .alone hhead hfollow, htokens => .alone (hhead.mono hlowers htokens) hfollow
  | .otherwise hhead hopening hother, htokens =>
      .otherwise (hhead.mono hlowers fun t ht => htokens t (List.mem_append_left _ ht)) hopening
        (hother.mono hlowers fun t ht => htokens t (by simp [ht]))
  | .chained hhead hopening hother, htokens =>
      .chained (hhead.mono hlowers fun t ht => htokens t (List.mem_append_left _ ht)) hopening
        (hother.mono hlowers fun t ht => htokens t (by simp [ht]))

/-- So is the head of a condition. -/
theorem Head.mono (hlowers : Refines P lowers lowers') {head : List Token} {test : String}
    {body : List Statement} :
    Head lowers head test body → (∀ t ∈ head, P t) → Head lowers' head test body
  | .mk hkeyword hrun htest hbody, htokens =>
      .mk hkeyword hrun (hlowers _ _ _ (fun t ht => htokens t (by simp [ht])) htest)
        (hbody.mono hlowers fun t ht => htokens t (by simp [ht]))

/-- So is a block. -/
theorem Braced.mono (hlowers : Refines P lowers lowers') {braced : List Token}
    {body : List Statement} :
    Braced lowers braced body → (∀ t ∈ braced, P t) → Braced lowers' braced body
  | .mk hopening hbalanced hinside hclosing, htokens =>
      .mk hopening hbalanced (hinside.mono hlowers fun t ht => htokens t (by simp [ht])) hclosing

end

end

end Grammar

end SochoScript
