import SochoScript.Proofs.WellFormed

/-!
# What can be read off the code

Expressions, printed values and prompts are pasted into the code as they are, and
a literal in one of them may hold anything: line feeds, braces, a whole line of
code.  Nevertheless the program can be read off its code, up to one thing that
cannot be seen there: an input without a prompt is written like one that asks
with the empty literal.

The text of a statement is first given without the emitter, `JavaScript.text`.
That it can be told from any other is then shown with something behind it, so that
statements can follow each other: the equation `text s ++ rest = text s' ++ rest'`
is taken apart from left to right.  Each template ends with a sign that the pasted
text does not hold outside of its literals.

* `Emitter.block_eq`: the emitter writes the text and notes whether input is read.
* `text_append_inj`, `blockText_append_inj`: statements in front of a text can be
  told apart, if what follows cannot be taken for a statement or for another branch.
* `generate_eq_iff_prompted`: **two programs that were read from sources have the
  same code exactly if they are the same up to missing prompts.**
-/

namespace SochoScript

namespace JavaScript

/-! ### The text of statements -/

mutual

/-- The text of a statement. -/
def text : Statement → String
  | .declaration name value => declaration name value
  | .print value => print value
  | .input name prompt => input name prompt
  | .condition test body otherwise =>
    whenTrue test (blockText body) ++
      if otherwise.isEmpty then "" else whenFalse (blockText otherwise)

/-- The text of statements in a row. -/
def blockText : List Statement → String
  | [] => ""
  | s :: rest => text s ++ blockText rest

end

namespace Emitter

mutual

/-- The emitter writes the text of a statement and notes whether it reads input. -/
theorem statement_eq (e : Emitter) : (s : Statement) →
    e.statement s = (text s, { e with readsInput := e.readsInput || s.readsInput })
  | .declaration name value => by simp [statement, text, Statement.readsInput]
  | .print value => by simp [statement, text, Statement.readsInput]
  | .input name prompt => by simp [statement, text, Statement.readsInput]
  | .condition test body [] => by
      simp [statement, text, Statement.readsInput, Statement.anyReadsInput, block_eq e body]
  | .condition test body (first :: others) => by
      simp [statement, text, blockText, Statement.readsInput, Statement.anyReadsInput,
        block_eq _ body, statement_eq _ first, block_eq _ others, Bool.or_assoc]

/-- The emitter writes the text of statements and notes whether they read input. -/
theorem block_eq (e : Emitter) : (body : List Statement) →
    e.block body =
      (blockText body, { e with readsInput := e.readsInput || Statement.anyReadsInput body })
  | [] => by simp [block, blockText, Statement.anyReadsInput]
  | s :: rest => by
      simp [block, blockText, Statement.anyReadsInput, statement_eq e s, block_eq _ rest,
        Bool.or_assoc]

end

/-- The code of a program is the text of its statements and what belongs around it. -/
theorem code_emit (e : Emitter) (p : Program) :
    (e.emit p).code =
      (if p.readsInput then preamble else "") ++ (if e.asyncWrap then wrapperOpen else "") ++
        blockText p.body ++ (if p.readsInput then closing else "") ++
        (if e.asyncWrap then wrapperClose else "") := by
  simp only [emit, block_eq, Bool.false_or]
  rfl

end Emitter

end JavaScript

/-! ### Missing prompts -/

namespace Statement

mutual

/-- The same statement with a prompt in every input: where nothing is asked, the
empty literal. -/
def prompted : Statement → Statement
  | declaration name value => declaration name value
  | print value => print value
  | input name prompt => input name (some (prompt.getD JavaScript.emptyPrompt))
  | condition test body otherwise => condition test (promptedAll body) (promptedAll otherwise)

/-- The same statements with a prompt in every input. -/
def promptedAll : List Statement → List Statement
  | [] => []
  | s :: rest => prompted s :: promptedAll rest

end

/-- A row is empty also with its prompts filled in. -/
@[simp] theorem isEmpty_promptedAll (body : List Statement) :
    (promptedAll body).isEmpty = body.isEmpty := by
  cases body <;> rfl

mutual

/-- A prompt that is filled in changes nothing in what is written. -/
theorem text_prompted : (s : Statement) → JavaScript.text s.prompted = JavaScript.text s
  | declaration name value => rfl
  | print value => rfl
  | input name prompt => rfl
  | condition test body otherwise => by
      simp [prompted, JavaScript.text, blockText_promptedAll body, blockText_promptedAll otherwise]

/-- Nor does it in what is written for a row. -/
theorem blockText_promptedAll : (body : List Statement) →
    JavaScript.blockText (promptedAll body) = JavaScript.blockText body
  | [] => rfl
  | s :: rest => by
      simp [promptedAll, JavaScript.blockText, text_prompted s, blockText_promptedAll rest]

end

mutual

/-- A prompt that is filled in changes nothing in whether input is read. -/
theorem readsInput_prompted : (s : Statement) → s.prompted.readsInput = s.readsInput
  | declaration name value => rfl
  | print value => rfl
  | input name prompt => rfl
  | condition test body otherwise => by
      simp [prompted, readsInput, anyReadsInput_promptedAll body,
        anyReadsInput_promptedAll otherwise]

/-- Nor does it for a row. -/
theorem anyReadsInput_promptedAll : (body : List Statement) →
    anyReadsInput (promptedAll body) = anyReadsInput body
  | [] => rfl
  | s :: rest => by
      simp [promptedAll, anyReadsInput, readsInput_prompted s, anyReadsInput_promptedAll rest]

end

end Statement

/-- The same program with a prompt in every input. -/
def Program.prompted (p : Program) : Program := ⟨Statement.promptedAll p.body⟩

/-- Nor does it for a program. -/
theorem Program.readsInput_prompted (p : Program) : p.prompted.readsInput = p.readsInput :=
  Statement.anyReadsInput_promptedAll p.body

/-! ### Templates in front of a text -/

/-- Well-formed texts, and no value that begins like the reading of a line. -/
def legible : Shape :=
  { wellFormed with
    value := fun text => IsExpression .declaration text ∧ ¬ "await r".toList <+: text.toList }

/-- Whatever the parser makes of scanned tokens is legible. -/
theorem admits_legible : legible.Admits Parser.Lowers Expression.Scanned :=
  { admits_wellFormed with
    value := fun run text hrun htext =>
      ⟨admits_wellFormed.value run text hrun htext,
        Expression.not_awaits_of_lowers (fun t ht => (hrun t ht).1) htext⟩ }

open Expression (Inner IsLiteral)
open Statement (Fits FitAll)

/-- A name has only characters of a word. -/
theorem IsName.all_isWordPart {name : String} (h : IsName name) :
    Lexeme.All Lexeme.isWordPart name.toList := by
  obtain ⟨first, more, hcons, hstart, hmore⟩ := h.word
  intro c hc
  rw [hcons] at hc
  rcases List.mem_cons.mp hc with rfl | hc
  · exact Lexeme.isWordPart_of_isWordStart hstart
  · exact hmore c hc

namespace JavaScript

section

variable (name text : String) (prompt : Option String) (rest : List Char)

/-- A declaration without a value, in front of a text. -/
theorem toList_declaration_none :
    (declaration name none).toList ++ rest =
      "let ".toList ++ (name.toList ++ ';' :: '\n' :: rest) := by
  simp [declaration]

/-- A declaration with a value, in front of a text. -/
theorem toList_declaration_some :
    (declaration name (some text)).toList ++ rest =
      "let ".toList ++ (name.toList ++ ' ' :: ("= ".toList ++
        (text.toList ++ ';' :: '\n' :: rest))) := by
  simp [declaration]

/-- A printed value in front of a text. -/
theorem toList_print :
    (print text).toList ++ rest =
      "console.log(".toList ++ (text.toList ++ ')' :: ';' :: '\n' :: rest) := by
  simp [print]

/-- An input in front of a text. -/
theorem toList_input :
    (input name prompt).toList ++ rest =
      "let ".toList ++ (name.toList ++ ' ' :: ("= ".toList ++
        ("await readLineAsyncQuestion(".toList ++
          ((prompt.getD emptyPrompt).toList ++ ')' :: ';' :: '\n' :: rest)))) := by
  simp [input]

/-- The first branch of a condition in front of a text. -/
theorem toList_whenTrue (test body : String) :
    (whenTrue test body).toList ++ rest =
      "if (".toList ++ (test.toList ++ ')' :: ' ' :: '\x7b' :: '\n' ::
        (body.toList ++ '\x7d' :: '\n' :: rest)) := by
  simp [whenTrue]

/-- The other branch of a condition in front of a text. -/
theorem toList_whenFalse (body : String) :
    (whenFalse body).toList ++ rest =
      "else \x7b\n".toList ++ (body.toList ++ '\x7d' :: '\n' :: rest) := by
  simp [whenFalse]

end

/-- A name ends where a sign follows. -/
theorem name_append_inj {name name' : String} {c c' : Char} {rest rest' : List Char}
    (hname : IsName name) (hname' : IsName name') (hc : Lexeme.isWordPart c = false)
    (hc' : Lexeme.isWordPart c' = false)
    (h : name.toList ++ c :: rest = name'.toList ++ c' :: rest') :
    name = name' ∧ c = c' ∧ rest = rest' := by
  have hsplit := Text.append_inj_of_all hname.all_isWordPart hname'.all_isWordPart
    (by simpa using hc) (by simpa using hc') h
  exact ⟨String.toList_inj.mp hsplit.1, List.cons.inj hsplit.2⟩

/-- A pasted text in parentheses ends at the first end of a statement outside of its
literals. -/
theorem argument_append_inj {text text' : String} {rest rest' : List Char}
    (htext : Text.Outside (Inner .declaration) text.toList)
    (htext' : Text.Outside (Inner .declaration) text'.toList)
    (h : text.toList ++ (')' :: ';' :: '\n' :: rest) =
      text'.toList ++ (')' :: ';' :: '\n' :: rest')) :
    text = text' ∧ rest = rest' := by
  have hclosed : ∀ value : String, Text.Outside (Inner .declaration) value.toList →
      Text.Outside (· ≠ ';') (value.toList ++ [')']) := by
    intro value hvalue
    exact (hvalue.mono fun c hc => hc.1).append (.plain (by decide) (by decide) .nil)
  have hsplit := Text.Outside.append_cons_inj (by decide) (hclosed text htext)
    (hclosed text' htext') (by simpa using h)
  exact ⟨String.toList_inj.mp (List.append_cancel_right hsplit.1), (List.cons.inj hsplit.2).2⟩

/-- A printed value can be told from what is written. -/
theorem print_append_inj {value value' : String} {rest rest' : List Char}
    (hvalue : IsPrinted value) (hvalue' : IsPrinted value')
    (h : (print value).toList ++ rest = (print value').toList ++ rest') :
    value = value' ∧ rest = rest' := by
  rw [toList_print, toList_print] at h
  exact argument_append_inj hvalue.outside hvalue'.outside (List.append_cancel_left h)

/-- What stands for a prompt keeps its quotes closed. -/
theorem outside_prompt {prompt : Option String} (h : ∀ text ∈ prompt, IsLiteral text.toList) :
    Text.Outside (Inner .declaration) (prompt.getD emptyPrompt).toList := by
  cases prompt with
  | none => exact Expression.IsLiteral.outside ⟨'"', [], by decide, by simp, rfl⟩
  | some text => exact (h text rfl).outside

/-- The name and the prompt of an input can be told from what is written. -/
theorem input_append_inj {name name' : String} {prompt prompt' : Option String}
    {rest rest' : List Char} (hname : IsName name) (hname' : IsName name')
    (hprompt : ∀ text ∈ prompt, IsLiteral text.toList)
    (hprompt' : ∀ text ∈ prompt', IsLiteral text.toList)
    (h : (input name prompt).toList ++ rest = (input name' prompt').toList ++ rest') :
    name = name' ∧ prompt.getD emptyPrompt = prompt'.getD emptyPrompt ∧ rest = rest' := by
  rw [toList_input, toList_input] at h
  obtain ⟨rfl, -, htail⟩ :=
    name_append_inj hname hname' (by decide) (by decide) (List.append_cancel_left h)
  have hasked := List.append_cancel_left (List.append_cancel_left htail)
  obtain ⟨hsame, rfl⟩ :=
    argument_append_inj (outside_prompt hprompt) (outside_prompt hprompt') hasked
  exact ⟨rfl, hsame, rfl⟩

/-- The name and the value of a declaration can be told from what is written. -/
theorem declaration_append_inj {name name' : String} {value value' : Option String}
    {rest rest' : List Char} (hname : IsName name) (hname' : IsName name')
    (hvalue : ∀ text ∈ value, legible.value text) (hvalue' : ∀ text ∈ value', legible.value text)
    (h : (declaration name value).toList ++ rest = (declaration name' value').toList ++ rest') :
    name = name' ∧ value = value' ∧ rest = rest' := by
  have hsplit : ∀ {c c' : Char} {tail tail' : List Char}, Lexeme.isWordPart c = false →
      Lexeme.isWordPart c' = false →
      "let ".toList ++ (name.toList ++ c :: tail) = "let ".toList ++ (name'.toList ++ c' :: tail') →
      name = name' ∧ c = c' ∧ tail = tail' :=
    fun hc hc' h => name_append_inj hname hname' hc hc' (List.append_cancel_left h)
  cases value with
  | none =>
      rw [toList_declaration_none] at h
      cases value' with
      | none =>
          rw [toList_declaration_none] at h
          obtain ⟨rfl, -, htail⟩ := hsplit (by decide) (by decide) h
          exact ⟨rfl, rfl, (List.cons.inj htail).2⟩
      | some text' =>
          rw [toList_declaration_some] at h
          cases (hsplit (by decide) (by decide) h).2.1
  | some text =>
      rw [toList_declaration_some] at h
      cases value' with
      | none =>
          rw [toList_declaration_none] at h
          cases (hsplit (by decide) (by decide) h).2.1
      | some text' =>
          rw [toList_declaration_some] at h
          obtain ⟨rfl, -, htail⟩ := hsplit (by decide) (by decide) h
          have hout : ∀ value : String, legible.value value →
              Text.Outside (· ≠ ';') value.toList :=
            fun value hlegible => hlegible.1.outside.mono fun c hc => hc.1
          obtain ⟨hsame, hrest⟩ := Text.Outside.append_cons_inj (by decide)
            (hout text (hvalue text rfl)) (hout text' (hvalue' text' rfl))
            (List.append_cancel_left htail)
          rw [String.toList_inj.mp hsame]
          exact ⟨rfl, rfl, (List.cons.inj hrest).2⟩

/-- What a text begins with and does not hold a sign of, the part before that sign
begins with. -/
theorem prefix_of_prefix_append_cons {front left rest : List Char} {c : Char}
    (h : front <+: left ++ c :: rest) (hc : c ∉ front) : front <+: left := by
  rcases List.prefix_or_prefix_of_prefix h (List.prefix_append left (c :: rest)) with hfront | hleft
  · exact hfront
  · obtain ⟨more, rfl⟩ := hleft
    cases more with
    | nil => simp
    | cons d more =>
        rw [List.prefix_append_right_inj, List.cons_prefix_cons] at h
        exact absurd (by simp [h.1]) hc

/-- A declaration is not taken for the reading of a line. -/
theorem declaration_append_ne_input {name name' : String} {value prompt : Option String}
    {rest rest' : List Char} (hname : IsName name) (hname' : IsName name')
    (hvalue : ∀ text ∈ value, legible.value text) :
    (declaration name value).toList ++ rest ≠ (input name' prompt).toList ++ rest' := by
  intro h
  rw [toList_input] at h
  cases value with
  | none =>
      rw [toList_declaration_none] at h
      obtain ⟨-, hsign, -⟩ :=
        name_append_inj hname hname' (by decide) (by decide) (List.append_cancel_left h)
      cases hsign
  | some text =>
      rw [toList_declaration_some] at h
      obtain ⟨-, -, htail⟩ :=
        name_append_inj hname hname' (by decide) (by decide) (List.append_cancel_left h)
      have hbegins : "await r".toList <+: text.toList ++ ';' :: '\n' :: rest := by
        rw [List.append_cancel_left htail]
        exact ⟨_, rfl⟩
      exact (hvalue text rfl).2 (prefix_of_prefix_append_cons hbegins (by decide))

/-- The test of a condition can be told from what is written. -/
theorem whenTrue_append_inj {test test' body body' : String} {rest rest' : List Char}
    (htest : IsExpression .condition test) (htest' : IsExpression .condition test')
    (h : (whenTrue test body).toList ++ rest = (whenTrue test' body').toList ++ rest') :
    test = test' ∧
      body.toList ++ '\x7d' :: '\n' :: rest = body'.toList ++ '\x7d' :: '\n' :: rest' := by
  have hout : ∀ test : String, IsExpression .condition test →
      Text.Outside (· ≠ '\x7b') (test.toList ++ [')', ' ']) := by
    intro test htest
    refine (htest.outside.mono fun c hc => hc.1).append ?_
    exact .plain (by decide) (by decide) (.plain (by decide) (by decide) .nil)
  rw [toList_whenTrue, toList_whenTrue] at h
  have hsplit := Text.Outside.append_cons_inj (by decide) (hout test htest) (hout test' htest')
    (by simpa using List.append_cancel_left h)
  exact ⟨String.toList_inj.mp (List.append_cancel_right hsplit.1), (List.cons.inj hsplit.2).2⟩

/-! ### Statements in front of a text -/

/-- What follows a statement is not another branch. -/
def EndsStatement (rest : List Char) : Prop := rest.head? ≠ some 'e'

/-- What follows a block is its brace, the closing line, or nothing. -/
def EndsBlock (rest : List Char) : Prop := ∀ c ∈ rest.head?, c = '\x7d' ∨ c = 'r'

/-- The first sign in the text of a statement. -/
def lead : Statement → Char
  | .declaration _ _ => 'l'
  | .print _ => 'c'
  | .input _ _ => 'l'
  | .condition _ _ _ => 'i'

/-- What is written for a statement begins with its first sign. -/
theorem exists_text_append_eq_cons (s : Statement) (rest : List Char) :
    ∃ tail, (text s).toList ++ rest = lead s :: tail := by
  cases s with
  | declaration name value => cases value <;> simp [text, declaration, lead]
  | print value => simp [text, print, lead]
  | input name prompt => simp [text, input, lead]
  | condition test body otherwise => simp [text, whenTrue, lead]

/-- Statements that are written alike begin with the same sign. -/
theorem lead_eq_of_append_eq {s s' : Statement} {rest rest' : List Char}
    (h : (text s).toList ++ rest = (text s').toList ++ rest') : lead s = lead s' := by
  obtain ⟨tail, htail⟩ := exists_text_append_eq_cons s rest
  obtain ⟨tail', htail'⟩ := exists_text_append_eq_cons s' rest'
  rw [htail, htail'] at h
  exact (List.cons.inj h).1

/-- No statement begins like another branch, a closing brace or the closing line. -/
theorem lead_ne (s : Statement) : lead s ≠ 'e' ∧ lead s ≠ '\x7d' ∧ lead s ≠ 'r' := by
  cases s <;> simp [lead]

/-- A row is written statement by statement. -/
theorem toList_blockText_cons (s : Statement) (more : List Statement) (rest : List Char) :
    (blockText (s :: more)).toList ++ rest =
      (text s).toList ++ ((blockText more).toList ++ rest) := by
  simp [blockText]

/-- A condition is written branch by branch. -/
theorem toList_text_condition (test : String) (body otherwise : List Statement)
    (rest : List Char) :
    (text (.condition test body otherwise)).toList ++ rest =
      (whenTrue test (blockText body)).toList ++
        ((if otherwise.isEmpty then "" else whenFalse (blockText otherwise)).toList ++ rest) := by
  simp [text]

/-- A statement is not taken for the end of a block. -/
theorem EndsBlock.ne_blockText_cons {rest : List Char} (h : EndsBlock rest) (s : Statement)
    (more : List Statement) (rest' : List Char) :
    rest ≠ (blockText (s :: more)).toList ++ rest' := by
  intro heq
  obtain ⟨tail, htail⟩ := exists_text_append_eq_cons s ((blockText more).toList ++ rest')
  have hlead := h (lead s) (by rw [heq, toList_blockText_cons, htail]; rfl)
  have hne := lead_ne s
  grind

/-- Statements and the end of their block are not taken for another branch. -/
theorem EndsBlock.endsStatement {rest : List Char} (h : EndsBlock rest) (body : List Statement) :
    EndsStatement ((blockText body).toList ++ rest) := by
  cases body with
  | nil =>
      intro hhead
      have hend := h 'e' (by simpa [blockText] using hhead)
      simp at hend
  | cons s more =>
      obtain ⟨tail, htail⟩ := exists_text_append_eq_cons s ((blockText more).toList ++ rest)
      rw [EndsStatement, toList_blockText_cons, htail]
      simpa using (lead_ne s).1

/-- Another branch is not taken for what follows a statement. -/
theorem EndsStatement.ne_whenFalse {rest : List Char} (h : EndsStatement rest) (body : String)
    (rest' : List Char) : rest ≠ (whenFalse body).toList ++ rest' := by
  rintro rfl
  rw [EndsStatement, toList_whenFalse] at h
  exact h rfl

mutual

/-- **A statement in front of a text can be read off**, if no branch follows. -/
theorem text_append_inj : (s s' : Statement) → Fits legible s → Fits legible s' →
    ∀ {rest rest' : List Char}, EndsStatement rest → EndsStatement rest' →
    (text s).toList ++ rest = (text s').toList ++ rest' →
    s.prompted = s'.prompted ∧ rest = rest'
  | .declaration name value, s', hs, hs', _, _, _, _, h => by
      have hlead := lead_eq_of_append_eq h
      cases s' with
      | declaration name' value' =>
          obtain ⟨rfl, rfl, rfl⟩ := declaration_append_inj hs.1 hs'.1 hs.2 hs'.2 h
          exact ⟨rfl, rfl⟩
      | input name' prompt' => exact absurd h (declaration_append_ne_input hs.1 hs'.1 hs.2)
      | print value' => cases hlead
      | condition test' body' otherwise' => cases hlead
  | .print value, s', hs, hs', _, _, _, _, h => by
      have hlead := lead_eq_of_append_eq h
      cases s' with
      | print value' =>
          obtain ⟨rfl, rfl⟩ := print_append_inj hs hs' h
          exact ⟨rfl, rfl⟩
      | declaration name' value' => cases hlead
      | input name' prompt' => cases hlead
      | condition test' body' otherwise' => cases hlead
  | .input name prompt, s', hs, hs', _, _, _, _, h => by
      have hlead := lead_eq_of_append_eq h
      cases s' with
      | input name' prompt' =>
          obtain ⟨rfl, hprompt, rfl⟩ := input_append_inj hs.1 hs'.1 hs.2 hs'.2 h
          exact ⟨by simp only [Statement.prompted, hprompt], rfl⟩
      | declaration name' value' =>
          exact absurd h.symm (declaration_append_ne_input hs'.1 hs.1 hs'.2)
      | print value' => cases hlead
      | condition test' body' otherwise' => cases hlead
  | .condition test body otherwise, s', hs, hs', rest, rest', hrest, hrest', h => by
      have hlead := lead_eq_of_append_eq h
      cases s' with
      | condition test' body' otherwise' =>
          rw [toList_text_condition, toList_text_condition] at h
          obtain ⟨rfl, hblock⟩ := whenTrue_append_inj hs.1 hs'.1 h
          obtain ⟨hbody, htail⟩ := blockText_append_inj body body' hs.2.1 hs'.2.1
            (by simp [EndsBlock]) (by simp [EndsBlock]) hblock
          simp only [List.cons.injEq, true_and] at htail
          -- Whether there is another branch is seen at its first sign.
          rcases otherwise with _ | ⟨first, others⟩ <;> rcases otherwise' with _ | ⟨first', others'⟩
          · exact ⟨by simp only [Statement.prompted, hbody], by simpa using htail⟩
          · exact absurd (by simpa using htail) (hrest.ne_whenFalse _ rest')
          · exact absurd (by simpa using htail.symm) (hrest'.ne_whenFalse _ rest)
          · simp only [List.isEmpty_cons, Bool.false_eq_true, if_false, toList_whenFalse] at htail
            obtain ⟨hother, hend⟩ := blockText_append_inj (first :: others) (first' :: others')
              hs.2.2 hs'.2.2 (by simp [EndsBlock]) (by simp [EndsBlock])
              (List.append_cancel_left htail)
            exact ⟨by simp only [Statement.prompted, hbody, hother], by simpa using hend⟩
      | declaration name' value' => cases hlead
      | print value' => cases hlead
      | input name' prompt' => cases hlead

/-- **Statements in front of the end of their block can be read off.** -/
theorem blockText_append_inj : (body body' : List Statement) → FitAll legible body →
    FitAll legible body' → ∀ {rest rest' : List Char}, EndsBlock rest → EndsBlock rest' →
    (blockText body).toList ++ rest = (blockText body').toList ++ rest' →
    Statement.promptedAll body = Statement.promptedAll body' ∧ rest = rest'
  | [], [], _, _, _, _, _, _, h => ⟨rfl, by simpa [blockText] using h⟩
  | [], s' :: more', _, _, _, _, hrest, _, h =>
      absurd (by simpa [blockText] using h) (hrest.ne_blockText_cons s' more' _)
  | s :: more, [], _, _, _, _, _, hrest', h =>
      absurd (by simpa [blockText] using h.symm) (hrest'.ne_blockText_cons s more _)
  | s :: more, s' :: more', hbody, hbody', _, _, hrest, hrest', h => by
      rw [toList_blockText_cons, toList_blockText_cons] at h
      obtain ⟨hs, htail⟩ := text_append_inj s s' hbody.1 hbody'.1 (hrest.endsStatement more)
        (hrest'.endsStatement more') h
      obtain ⟨hmore, hend⟩ := blockText_append_inj more more' hbody.2 hbody'.2 hrest hrest' htail
      exact ⟨by simp only [Statement.promptedAll, hs, hmore], hend⟩

end

/-! ### Programs -/

/-- What stands in front of the statements of a program. -/
def opening (asyncWrap readsInput : Bool) : String :=
  (if readsInput then preamble else "") ++ (if asyncWrap then wrapperOpen else "")

/-- What stands behind the statements of a program. -/
def ending (asyncWrap readsInput : Bool) : String :=
  (if readsInput then closing else "") ++ (if asyncWrap then wrapperClose else "")

/-- What stands behind the statements of a program ends a block. -/
theorem endsBlock_ending (asyncWrap readsInput : Bool) :
    EndsBlock (ending asyncWrap readsInput).toList := by
  cases asyncWrap <;> cases readsInput <;> simp [EndsBlock, ending, closing, wrapperClose]

/-- The code of a program, with its statements between what opens and what ends it. -/
theorem toList_code_emit (asyncWrap : Bool) (p : Program) :
    (Emitter.emit { asyncWrap } p).code.toList =
      (opening asyncWrap p.readsInput).toList ++
        ((blockText p.body).toList ++ (ending asyncWrap p.readsInput).toList) := by
  simp only [Emitter.code_emit, opening, ending, String.toList_append, List.append_assoc]

/-- No statement begins like the preamble. -/
theorem not_const_prefix_text (s : Statement) (rest : List Char) :
    ¬ "const".toList <+: (text s).toList ++ rest := by
  cases s with
  | declaration name value =>
      obtain ⟨tail, htail⟩ := exists_text_append_eq_cons (.declaration name value) rest
      simp [htail, lead]
  | print value => simp [text, print]
  | input name prompt => simp [text, input]
  | condition test body otherwise => simp [text, whenTrue]

/-- The preamble begins with a constant. -/
theorem const_prefix_preamble : "const".toList <+: preamble.toList := by
  unfold preamble
  repeat rw [String.append_assoc]
  rw [String.toList_append]
  exact List.IsPrefix.trans (by simp) (List.prefix_append _ _)

/-- Whether a program reads input is seen at the beginning of its code. -/
theorem const_prefix_emit_iff (asyncWrap : Bool) (p : Program) :
    "const".toList <+: (Emitter.emit { asyncWrap } p).code.toList ↔ p.readsInput = true := by
  rw [toList_code_emit]
  cases hreads : p.readsInput with
  | true =>
      refine iff_of_true (const_prefix_preamble.trans ?_) rfl
      simp [opening]
  | false =>
      refine iff_of_false ?_ (by simp)
      cases asyncWrap with
      | true => simp [opening, wrapperOpen]
      | false =>
          have hopening : (opening false false).toList = [] := by simp [opening]
          rw [hopening, List.nil_append]
          cases p.body with
          | nil => simp [blockText, ending]
          | cons s more =>
              rw [toList_blockText_cons]
              exact not_const_prefix_text s _

/-- **A program can be read off its code.** -/
theorem prompted_eq_of_code_eq {asyncWrap : Bool} {p q : Program}
    (hp : FitAll legible p.body) (hq : FitAll legible q.body)
    (h : (Emitter.emit { asyncWrap } p).code = (Emitter.emit { asyncWrap } q).code) :
    p.prompted = q.prompted := by
  have hreads : p.readsInput = q.readsInput := by
    rw [Bool.eq_iff_iff, ← const_prefix_emit_iff asyncWrap, ← const_prefix_emit_iff asyncWrap, h]
  have hlist := congrArg String.toList h
  rw [toList_code_emit, toList_code_emit, hreads] at hlist
  have hbody := blockText_append_inj p.body q.body hp hq (endsBlock_ending asyncWrap q.readsInput)
    (endsBlock_ending asyncWrap q.readsInput) (List.append_cancel_left hlist)
  exact congrArg Program.mk hbody.1

/-- The code of a program is that of the same program with a prompt in every input. -/
theorem code_emit_prompted (asyncWrap : Bool) (p : Program) :
    (Emitter.emit { asyncWrap } p.prompted).code = (Emitter.emit { asyncWrap } p).code := by
  rw [Emitter.code_emit, Emitter.code_emit, p.readsInput_prompted, Program.prompted,
    Statement.blockText_promptedAll]

end JavaScript

/-- **Two programs that were read from sources have the same code exactly if they are
the same up to missing prompts.** -/
theorem generate_eq_iff_prompted (settings : Settings) (policy policy' : Policy)
    (source source' : String) (p q : Program)
    (hp : (parseSource policy source).outcome = .ok p)
    (hq : (parseSource policy' source').outcome = .ok q) :
    (generate settings p).outcome = (generate settings q).outcome ↔ p.prompted = q.prompted := by
  rw [outcome_generate, outcome_generate, Except.ok.injEq]
  constructor
  · exact JavaScript.prompted_eq_of_code_eq (fitAll_of_parseSource admits_legible hp)
      (fitAll_of_parseSource admits_legible hq)
  · intro h
    rw [← JavaScript.code_emit_prompted, h, JavaScript.code_emit_prompted]

/-- An input without a prompt. -/
theorem parseSource_pucho_unprompted :
    (parseSource .skip "pucho x").outcome = .ok ⟨[.input "x" none]⟩ := by
  refine parseSource_eq_ok_iff.mpr
    ⟨[⟨.keyword, .text "pucho", ⟨1, 1, 0, 5⟩⟩, ⟨.identifier, .text "x", ⟨1, 7, 6, 7⟩⟩], ?_, ?_⟩
  · decide +kernel
  · with_unfolding_all rfl

/-- An input with an empty one. -/
theorem parseSource_pucho_prompted :
    (parseSource .reject "pucho x \"\"").outcome = .ok ⟨[.input "x" (some "\"\"")]⟩ := by
  refine parseSource_eq_ok_iff.mpr
    ⟨[⟨.keyword, .text "pucho", ⟨1, 1, 0, 5⟩⟩, ⟨.identifier, .text "x", ⟨1, 7, 6, 7⟩⟩,
      ⟨.string, .text "\"\"", ⟨1, 9, 8, 10⟩⟩], ?_, ?_⟩
  · decide +kernel
  · with_unfolding_all rfl

/-- Both give the same code. -/
theorem generate_eq_iff_prompted_pucho :
    (parseSource .skip "pucho x").outcome = .ok ⟨[.input "x" none]⟩ ∧
      (parseSource .reject "pucho x \"\"").outcome = .ok ⟨[.input "x" (some "\"\"")]⟩ ∧
      (generate {} ⟨[.input "x" none]⟩).outcome =
        (generate {} ⟨[.input "x" (some "\"\"")]⟩).outcome :=
  ⟨parseSource_pucho_unprompted, parseSource_pucho_prompted,
    (generate_eq_iff_prompted {} _ _ _ _ _ _ parseSource_pucho_unprompted
      parseSource_pucho_prompted).mpr rfl⟩

end SochoScript
