import SochoScript.Proofs.Emission

/-!
# One emitter for many programs

The emitter notes on the way whether input is read, and an emitter may be used for
one program after another.  Nothing of this can be seen in the code.  What is
written for a program hangs on that program alone: it is the text that the
templates give to its statements, between what belongs around it.

`Templates` says what the templates are without an emitter and without a recursion:
statements in a row are written one after the other, each kind of statement has its
text, and the text of a block stands inside the text of its condition with nothing
around it.

* `templates_iff`: there is exactly one way to write statements by the templates.
* `emitAll_eq_map`: what an emitter wrote before has no influence.
* `anyReadsInput_iff_occurs`: input is read exactly if an input stands somewhere, at
  any depth.
* `emitAll_by_templates`: **one emitter writes every program as a new one would, by
  the templates, and what it notes agrees with the program.**
-/

namespace SochoScript

/-! ### Statements at any depth -/

namespace Statement

/-- The statement stands in a row of statements or, at any depth, in a block of one of
them. -/
inductive Occurs (s : Statement) : List Statement → Prop
  | here {rows : List Statement} (h : s ∈ rows) : Occurs s rows
  | body {rows body otherwise : List Statement} {test : String}
      (h : .condition test body otherwise ∈ rows) (hbody : Occurs s body) : Occurs s rows
  | otherwise {rows body otherwise : List Statement} {test : String}
      (h : .condition test body otherwise ∈ rows) (hother : Occurs s otherwise) : Occurs s rows

/-- What occurs in a row occurs in a row with more statements. -/
theorem Occurs.mono {s : Statement} {rows more : List Statement} (h : Occurs s rows)
    (hmore : rows ⊆ more) : Occurs s more := by
  cases h with
  | here h => exact .here (hmore h)
  | body h hbody => exact .body (hmore h) hbody
  | otherwise h hother => exact .otherwise (hmore h) hother

/-- A row of statements reads input if one of them does. -/
theorem anyReadsInput_of_mem {s : Statement} {rows : List Statement} (h : s ∈ rows)
    (hs : s.readsInput = true) : anyReadsInput rows = true := by
  induction h with
  | head rest => simp [anyReadsInput, hs]
  | tail first hmem ih => simp [anyReadsInput, ih]

mutual

/-- In a statement that reads input an input occurs. -/
theorem exists_occurs_of_readsInput : (s : Statement) → s.readsInput = true →
    ∃ name prompt, Occurs (.input name prompt) [s]
  | declaration name value, h => by simp [readsInput] at h
  | print value, h => by simp [readsInput] at h
  | input name prompt, _ => ⟨name, prompt, .here List.mem_cons_self⟩
  | condition test body otherwise, h => by
      rw [readsInput, Bool.or_eq_true] at h
      rcases h with hbody | hother
      · obtain ⟨name, prompt, hoccurs⟩ := exists_occurs_of_anyReadsInput body hbody
        exact ⟨name, prompt, .body List.mem_cons_self hoccurs⟩
      · obtain ⟨name, prompt, hoccurs⟩ := exists_occurs_of_anyReadsInput otherwise hother
        exact ⟨name, prompt, .otherwise List.mem_cons_self hoccurs⟩

/-- So it does in a row that reads input. -/
theorem exists_occurs_of_anyReadsInput : (rows : List Statement) → anyReadsInput rows = true →
    ∃ name prompt, Occurs (.input name prompt) rows
  | [], h => by simp [anyReadsInput] at h
  | s :: rest, h => by
      rw [anyReadsInput, Bool.or_eq_true] at h
      rcases h with hfirst | hrest
      · obtain ⟨name, prompt, hoccurs⟩ := exists_occurs_of_readsInput s hfirst
        exact ⟨name, prompt, hoccurs.mono (by simp)⟩
      · obtain ⟨name, prompt, hoccurs⟩ := exists_occurs_of_anyReadsInput rest hrest
        exact ⟨name, prompt, hoccurs.mono (by simp)⟩

end

/-- **Input is read exactly if an input stands somewhere.** -/
theorem anyReadsInput_iff_occurs {rows : List Statement} :
    anyReadsInput rows = true ↔ ∃ name prompt, Occurs (.input name prompt) rows := by
  apply Iff.intro
  · exact exists_occurs_of_anyReadsInput rows
  · rintro ⟨name, prompt, h⟩
    induction h with
    | here h => exact anyReadsInput_of_mem h rfl
    | body h _ ih => exact anyReadsInput_of_mem h (by simp [readsInput, ih])
    | otherwise h _ ih => exact anyReadsInput_of_mem h (by simp [readsInput, ih])

end Statement

namespace JavaScript

/-! ### Writing by templates -/

/-- A way to write statements that follows the templates. -/
structure Templates (write : List Statement → String) : Prop where
  /-- Statements are written one after the other. -/
  append : ∀ first later, write (first ++ later) = write first ++ write later
  declared : ∀ name, write [.declaration name none] = "let " ++ name ++ ";\n"
  initialized : ∀ name value,
    write [.declaration name (some value)] = "let " ++ name ++ " = " ++ value ++ ";\n"
  printed : ∀ value, write [.print value] = "console.log(" ++ value ++ ");\n"
  unprompted : ∀ name,
    write [.input name none] = "let " ++ name ++ " = await readLineAsyncQuestion(\"\");\n"
  prompted : ∀ name prompt,
    write [.input name (some prompt)] =
      "let " ++ name ++ " = await readLineAsyncQuestion(" ++ prompt ++ ");\n"
  /-- Without statements there is no other branch. -/
  alone : ∀ test body,
    write [.condition test body []] = "if (" ++ test ++ ") \x7b\n" ++ write body ++ "\x7d\n"
  otherwise : ∀ test body other, other ≠ [] →
    write [.condition test body other] =
      "if (" ++ test ++ ") \x7b\n" ++ write body ++ "\x7d\n" ++
        "else \x7b\n" ++ write other ++ "\x7d\n"

/-- A row of one statement is written like the statement. -/
theorem blockText_singleton (s : Statement) : blockText [s] = text s := by
  simp [blockText]

/-- The text of statements in a row is that of the first ones and that of the later
ones. -/
theorem blockText_append (first later : List Statement) :
    blockText (first ++ later) = blockText first ++ blockText later := by
  induction first with
  | nil => simp [blockText]
  | cons s first ih => simp [blockText, ih, String.append_assoc]

/-- What is written for a row follows the templates. -/
theorem templates_blockText : Templates blockText where
  append := blockText_append
  declared name := by rw [blockText_singleton, text, declaration]
  initialized name value := by rw [blockText_singleton, text, declaration]
  printed value := by rw [blockText_singleton, text, print]
  unprompted name := by
    have htail : emptyPrompt ++ ");\n" = "\"\");\n" := by decide
    simp [blockText_singleton, text, input, String.append_assoc, htail]
  prompted name prompt := by rw [blockText_singleton, text, input, Option.getD_some]
  alone test body := by simp [blockText_singleton, text, whenTrue]
  otherwise test body other hother := by
    simp only [blockText_singleton, text, whenTrue, whenFalse, List.isEmpty_iff, hother, if_false,
      String.append_assoc]

namespace Templates

variable {write : List Statement → String}

/-- By the templates nothing is written for no statement. -/
theorem nil (h : Templates write) : write [] = "" := by
  have hempty := congrArg String.length (h.append [] [])
  rw [List.append_nil, String.length_append] at hempty
  exact String.length_eq_zero_iff.mp (by omega)

mutual

/-- The templates leave no choice for a statement. -/
theorem write_singleton (h : Templates write) : (s : Statement) → write [s] = blockText [s]
  | .declaration name none => by rw [h.declared, templates_blockText.declared]
  | .declaration name (some value) => by rw [h.initialized, templates_blockText.initialized]
  | .print value => by rw [h.printed, templates_blockText.printed]
  | .input name none => by rw [h.unprompted, templates_blockText.unprompted]
  | .input name (some prompt) => by rw [h.prompted, templates_blockText.prompted]
  | .condition test body [] => by
      rw [h.alone, templates_blockText.alone, write_eq h body]
  | .condition test body (first :: others) => by
      rw [h.otherwise _ _ _ (by simp), templates_blockText.otherwise _ _ _ (by simp),
        write_eq h body, write_eq h (first :: others)]

/-- Nor do they for a row. -/
theorem write_eq (h : Templates write) : (rows : List Statement) → write rows = blockText rows
  | [] => by rw [h.nil, templates_blockText.nil]
  | s :: rest => by
      have hsplit : s :: rest = [s] ++ rest := rfl
      rw [hsplit, h.append, templates_blockText.append, write_singleton h s, write_eq h rest]

end

end Templates

/-- **There is exactly one way to write statements by the templates.** -/
theorem templates_iff {write : List Statement → String} : Templates write ↔ write = blockText := by
  apply Iff.intro
  · intro h
    exact funext h.write_eq
  · rintro rfl
    exact templates_blockText

/-! ### Programs in a row -/

namespace Emitter

/-- Programs that are handed to one emitter, one after the other. -/
def emitAll (e : Emitter) : List Program → List Emission
  | [] => []
  | p :: rest => e.emit p :: (e.emit p).next.emitAll rest

/-- What was noted before is forgotten at the beginning of a program. -/
theorem emit_eq_fresh (e : Emitter) (p : Program) :
    e.emit p = emit { asyncWrap := e.asyncWrap } p := rfl

/-- After a program the emitter has noted whether it reads input, and nothing else has
changed. -/
theorem next_emit (e : Emitter) (p : Program) :
    (e.emit p).next = { asyncWrap := e.asyncWrap, readsInput := p.readsInput } := by
  simp only [emit, block_eq, Bool.false_or]
  rfl

/-- **What an emitter wrote before has no influence.** -/
theorem emitAll_eq_map (e : Emitter) (programs : List Program) :
    e.emitAll programs = programs.map (emit { asyncWrap := e.asyncWrap }) := by
  induction programs generalizing e with
  | nil => rfl
  | cons p rest ih => rw [emitAll, ih, next_emit, List.map_cons, emit_eq_fresh]

/-- The last thing that is told is the size of the code and whether input is read. -/
theorem getLast?_events_emit (e : Emitter) (p : Program) :
    (e.emit p).events.getLast? =
      some (.generated (e.emit p).code.utf8ByteSize p.readsInput) := by
  have hevents : (e.emit p).events.getLast? =
      some (.generated (e.emit p).code.utf8ByteSize
        (block { e with readsInput := false } p.body).2.readsInput) := by
    exact List.getLast?_concat (l := _ :: _)
  rw [hevents, block_eq, Bool.false_or]
  rfl

/-- **One emitter for many programs.**  Whatever it wrote before, an emitter writes each
program as a new emitter would, and the code is that of the templates between what
belongs around it.  Input is read exactly if an input stands somewhere in the program,
and this is what is told at the end. -/
theorem emitAll_by_templates (e : Emitter) (programs : List Program) :
    e.emitAll programs = programs.map (emit { asyncWrap := e.asyncWrap }) ∧
      (∃ write, Templates write ∧ (∀ other, Templates other → other = write) ∧
        ∀ p : Program, (e.emit p).code =
          (if p.readsInput then preamble else "") ++
          (if e.asyncWrap then "(async () => \x7b\n" else "") ++
          write p.body ++
          (if p.readsInput then "readline.close();\n" else "") ++
          (if e.asyncWrap then "\x7d)();" else "")) ∧
      ∀ p : Program,
        (p.readsInput = true ↔ ∃ name prompt, Statement.Occurs (.input name prompt) p.body) ∧
        ∃ last, (e.emit p).events.getLast? = some last ∧
          last.message = "code generation completed" ∧
          ("reads_input", .flag p.readsInput) ∈ last.fields := by
  refine ⟨emitAll_eq_map e programs, ?_, ?_⟩
  · exact ⟨blockText, templates_blockText, fun other => templates_iff.mp, code_emit e⟩
  · intro p
    exact ⟨Statement.anyReadsInput_iff_occurs, _, getLast?_events_emit e p, rfl,
      by simp [Event.fields]⟩

end Emitter

end JavaScript

end SochoScript
