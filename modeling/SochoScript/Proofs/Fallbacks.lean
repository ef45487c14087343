import SochoScript.Proofs.Nesting

/-!
# Fallbacks that are never needed

A parser may know less than ours does when the tokens run out: not the token that it read
last, but only the row that it was given.  It then points just past the last token of that
row, and it needs three fallbacks.  A row may have no token, so that some place has to be
named for it.  Behind a keyword it moves the place to the keyword, in case that the row
goes on elsewhere.  And it looks at the sign of an assignment before it takes it, so that
it has to say what it takes if there is none.

Here such a parser is written down, reader by reader, with the fallbacks as a parameter;
`{}` are the usual ones.  It parses every row as ours does, whatever the fallbacks are: none
of them is ever used.

What carries the argument is that a parser which misses a token has read one, and that
whatever is left is an end of its row.  So the token before what is missing is the last one
of the row.

* `Fallbacks.rowEnd_eq`: behind a token that was read the end of the row is no fallback.
* `expectAfter_eq`, `initializerIn_eq`, `blockOf_eq`: the readers agree.
* `blockIn_eq`, `conditionIn_eq`: so do the parsers of a row, step by step.
* `parseIn_eq`: **no fallback is needed.**
-/

namespace SochoScript

/-- What is done with a value matters only for the values that are found. -/
theorem Logged.bind_congr {ε α β : Type} {m : Logged ε α} {f g : α → Logged ε β}
    (h : ∀ a, m.outcome = .ok a → f a = g a) : m >>= f = m >>= g := by
  change Logged.bind m f = Logged.bind m g
  unfold Logged.bind
  split
  · rename_i a houtcome
    rw [h a houtcome]
  · rfl

namespace Parser

/-! ### Readers that know their row -/

/-- What a parser falls back on that knows its row only. -/
structure Fallbacks where
  /-- The place just past a row without tokens: the beginning of a source. -/
  start : Span := {}
  /-- Whether the place of what is missing behind a keyword is moved to that keyword. -/
  anchored : Bool := true
  /-- What is taken for the sign of an assignment behind a keyword, if there is no token:
  the keyword itself. -/
  assignment : Token → Token := id

/-- The place just past a row. -/
def Fallbacks.rowEnd (fallbacks : Fallbacks) (row : List Token) : Span :=
  (row.getLast?.map fun last => last.span.after).getD fallbacks.start

/-! What is left is never more than there was; the parsers below end because of it. -/

section

variable {tokens rest : List Token}

/-- One token less. -/
theorem length_le_cons (t : Token) (rest : List Token) : rest.length ≤ (t :: rest).length :=
  Nat.le_succ _

/-- A name and what may follow it leave no more than there was. -/
theorem length_named_le (name : Reading Token tokens)
    (following : Reading (Option String) name.rest) : following.rest.length ≤ tokens.length :=
  Nat.le_trans following.notLonger name.notLonger

/-- A block that is closed is two braces longer than what is in it and behind it. -/
theorem length_of_close? {t : Token} {inside after : List Token}
    (h : Block.close? 0 rest = some (inside, after)) :
    inside.length + after.length + 2 = (t :: rest).length := by
  obtain ⟨closing, _, hrest⟩ := Block.close?_eq_some h
  simp [hrest]
  omega

/-- A block behind the test of a condition is no longer than test and block. -/
theorem length_tested_lt (block : Block (remaining Token.opensBlock tokens)) :
    block.inside.length + block.rest.length < tokens.length := by
  have hblock := block.shorter
  have hrest := length_remaining_le Token.opensBlock tokens
  omega

/-- A condition in the other branch leaves no more than there was. -/
theorem length_chained_le (head : Guarded tokens) (hlt : rest.length < head.rest.length)
    (chained : Reading Statement rest) : chained.rest.length ≤ tokens.length := by
  have hhead := head.length_rest_le
  have hchained := chained.notLonger
  omega

/-- A block in the other branch leaves no more than there was. -/
theorem length_other_le (head : Guarded tokens) (hlt : rest.length < head.rest.length)
    (other : Block rest) : other.rest.length ≤ tokens.length := by
  have hhead := head.length_rest_le
  have hother := other.shorter
  omega

end

variable (fallbacks : Fallbacks)

/-- One token that is expected in a row. -/
def expectIn (row : List Token) (expected : Expectation) (accepts : Token → Bool)
    (tokens : List Token) : Except Diagnostic (Reading Token tokens) :=
  match tokens with
  | [] => .error (.endOfInput expected (fallbacks.rowEnd row))
  | t :: rest =>
    if accepts t then .ok ⟨t, rest, length_le_cons t rest⟩
    else .error (.unexpectedToken expected t)

/-- The same complaint, with the place just past a keyword if something is missing. -/
def anchorTo (keyword : Token) : Diagnostic → Diagnostic
  | .endOfInput expected _ => .endOfInput expected keyword.span.after
  | d => d

/-- One token that is expected behind a keyword. -/
def expectAfter (row : List Token) (expected : Expectation) (accepts : Token → Bool)
    (keyword : Token) (tokens : List Token) : Except Diagnostic (Reading Token tokens) :=
  let reading := expectIn fallbacks row expected accepts tokens
  if fallbacks.anchored then reading.mapError (anchorTo keyword) else reading

/-- The value of a declaration, if the next token is an assignment. -/
def initializerIn (keyword : Token) (tokens : List Token) :
    Except Diagnostic (Reading (Option String) tokens) :=
  if tokens.head?.any Token.assigns then
    let assignment := tokens.head?.getD (fallbacks.assignment keyword)
    match expression .declaration assignment.span (leading endsStatement tokens.tail) with
    | .ok text =>
      .ok ⟨some text, remaining endsStatement tokens.tail,
        Nat.le_trans (length_remaining_le _ _) (by simp)⟩
    | .error diagnostic => .error diagnostic
  else .ok ⟨none, tokens, Nat.le_refl _⟩

/-- A declaration whose keyword has been read. -/
def declarationIn (row : List Token) (keyword : Token) (tokens : List Token) :
    Except Diagnostic (Reading Statement tokens) := do
  let name ← expectAfter fallbacks row (.nameAfter .socho) isName keyword tokens
  let value ← initializerIn fallbacks keyword name.rest
  return ⟨.declaration name.value.value.display value.value, value.rest,
    length_named_le name value⟩

/-- A printed value whose keyword has been read. -/
def printIn (row : List Token) (keyword : Token) (tokens : List Token) :
    Except Diagnostic (Reading Statement tokens) := do
  let printed ← expectAfter fallbacks row .printedValue isPrintable keyword tokens
  return ⟨.print printed.value.value.display, printed.rest, printed.notLonger⟩

/-- An input whose keyword has been read. -/
def inputIn (row : List Token) (keyword : Token) (tokens : List Token) :
    Except Diagnostic (Reading Statement tokens) := do
  let name ← expectAfter fallbacks row (.nameAfter .pucho) isName keyword tokens
  let asked := prompt name.rest
  return ⟨.input name.value.value.display asked.value, asked.rest,
    length_named_le name asked⟩

/-- A block of a row; whatever is missing of it is missing at the end of the row. -/
def blockOf (row : List Token) (tokens : List Token) : Except Diagnostic (Block tokens) :=
  match tokens with
  | [] => .error (.endOfInput .blockOpening (fallbacks.rowEnd row))
  | t :: rest =>
    if t.opensBlock then
      match h : Block.close? 0 rest with
      | some (inside, after) => .ok ⟨inside, after, length_of_close? h⟩
      | none => .error (.endOfInput .blockClosing (fallbacks.rowEnd row))
    else .error (.unexpectedToken .blockOpening t)

/-- The test and the block of a condition whose keyword has been read. -/
def guardedIn (row : List Token) (keyword : Token) (tokens : List Token) :
    Except Diagnostic (Guarded tokens) := do
  let test ← expression .condition keyword.span (leading Token.opensBlock tokens)
  let block ← blockOf fallbacks row (remaining Token.opensBlock tokens)
  return ⟨test, block.inside, block.rest, length_tested_lt block⟩

mutual

/-- The statements of what is left of a row; the inside of a block is a row of its own. -/
def blockIn (row tokens : List Token) : Logged Diagnostic (List Statement) :=
  match tokens with
  | [] => pure []
  | t :: rest =>
    let opened : Option (Logged Diagnostic (Reading Statement rest)) :=
      match t.keyword? with
      | some .socho => some (.ofExcept (declarationIn fallbacks row t rest))
      | some .likho => some (.ofExcept (printIn fallbacks row t rest))
      | some .pucho => some (.ofExcept (inputIn fallbacks row t rest))
      | some .agar => some (conditionIn row t rest)
      | some .warna => none
      | none => none
    match opened with
    | some reading => do
      let read ← reading
      have _shorter := Nat.lt_succ_of_le read.notLonger
      .tell (.parsedStatement read.value)
      return read.value :: (← blockIn row read.rest)
    | none =>
      if t.kind = .endOfStatement then blockIn row rest
      else do
        .tell (.strayToken t)
        blockIn row rest
termination_by tokens.length

/-- A condition whose keyword has been read, with all of its branches. -/
def conditionIn (row : List Token) (keyword : Token) (tokens : List Token) :
    Logged Diagnostic (Reading Statement tokens) := do
  let head ← .ofExcept (guardedIn fallbacks row keyword tokens)
  have _shorter := head.shorter
  let body ← blockIn head.inside head.inside
  .tell (.parsedBlock head.inside.length body.length)
  match branch head.rest with
  | .none => return ⟨.condition head.test body [], head.rest, head.length_rest_le⟩
  | .chained next rest hlt => do
    let chained ← conditionIn row next rest
    return ⟨.condition head.test body [chained.value], chained.rest,
      length_chained_le head hlt chained⟩
  | .block _ rest hlt => do
    let other ← .ofExcept (blockOf fallbacks row rest)
    have _other := other.shorter
    let otherwise ← blockIn other.inside other.inside
    .tell (.parsedBlock other.inside.length otherwise.length)
    return ⟨.condition head.test body otherwise, other.rest, length_other_le head hlt other⟩
termination_by tokens.length

end

/-- The program of a row of tokens. -/
def parseIn (tokens : List Token) : Logged Diagnostic Program := do
  .tell (.parsing tokens.length)
  let body ← blockIn fallbacks tokens tokens
  .tell (.parsed body.length)
  return ⟨body⟩

/-! ### Each reader -/

variable {fallbacks} {row tokens : List Token} {previous keyword : Token}

/-- The last token of an end of a row is that of the row. -/
theorem getLast?_of_suffix {tail : List Token} {last : Token} (h : tail <:+ row)
    (hlast : tail.getLast? = some last) : row.getLast? = some last := by
  obtain ⟨front, rfl⟩ := h
  rw [List.getLast?_append, hlast, Option.some_or]

/-- What a run ends with stands just before what follows the run. -/
theorem getLastD_cons_suffix (first : Token) (run rest : List Token) :
    run.getLastD first :: rest <:+ first :: (run ++ rest) := by
  induction run generalizing first with
  | nil => exact List.suffix_refl _
  | cons t run ih =>
      rw [List.getLastD_cons]
      exact (ih t).trans (List.suffix_cons first _)

/-- **Behind a token that was read** the end of the row is just past its last token. -/
theorem Fallbacks.rowEnd_eq (fallbacks : Fallbacks) (h : previous :: tokens <:+ row) :
    fallbacks.rowEnd row = (tokens.getLastD previous).span.after := by
  have hlast : row.getLast? = some (tokens.getLastD previous) := by
    refine getLast?_of_suffix h ?_
    rw [List.getLast?_cons, List.getLastD_eq_getLast?]
  rw [rowEnd, hlast]
  rfl

/-- Behind a token of the row, the row and that token give the same place. -/
theorem expectIn_eq (h : previous :: tokens <:+ row) (expected : Expectation)
    (accepts : Token → Bool) :
    expectIn fallbacks row expected accepts tokens = expect expected accepts previous tokens := by
  cases tokens with
  | nil =>
      rw [expectIn, fallbacks.rowEnd_eq h]
      rfl
  | cons t rest => rfl

/-- Behind a keyword the place is that of the keyword already. -/
theorem expectAfter_eq (h : keyword :: tokens <:+ row) (expected : Expectation)
    (accepts : Token → Bool) :
    expectAfter fallbacks row expected accepts keyword tokens =
      expect expected accepts keyword tokens := by
  have hanchored : (expect expected accepts keyword tokens).mapError (anchorTo keyword) =
      expect expected accepts keyword tokens := by
    cases tokens with
    | nil => rfl
    | cons t rest =>
        by_cases haccepts : accepts t = true
        · have hread : expect expected accepts keyword (t :: rest) =
              .ok ⟨t, rest, length_le_cons t rest⟩ := if_pos haccepts
          rw [hread]
          rfl
        · have hrefused : expect expected accepts keyword (t :: rest) =
              .error (.unexpectedToken expected t) := if_neg haccepts
          rw [hrefused]
          rfl
  rw [expectAfter, expectIn_eq h, hanchored, ite_self]

/-- An assignment is taken only where one was seen. -/
theorem initializerIn_eq (keyword : Token) (tokens : List Token) :
    initializerIn fallbacks keyword tokens = initializer tokens := by
  cases tokens with
  | nil => rfl
  | cons t rest =>
      unfold initializerIn initializer
      by_cases hassigns : t.assigns = true
      · cases htext : expression .declaration t.span (leading endsStatement rest) with
        | ok text => simp [hassigns, htext]
        | error d => simp [hassigns, htext]
      · simp [hassigns]

/-- A declaration is read alike. -/
theorem declarationIn_eq (h : keyword :: tokens <:+ row) :
    declarationIn fallbacks row keyword tokens = declaration keyword tokens := by
  simp only [declarationIn, declaration, expectAfter_eq h, initializerIn_eq]

/-- A printed value is read alike. -/
theorem printIn_eq (h : keyword :: tokens <:+ row) :
    printIn fallbacks row keyword tokens = print keyword tokens := by
  simp only [printIn, print, expectAfter_eq h]

/-- An input is read alike. -/
theorem inputIn_eq (h : keyword :: tokens <:+ row) :
    inputIn fallbacks row keyword tokens = input keyword tokens := by
  simp only [inputIn, input, expectAfter_eq h]

/-- Behind a token of the row, a block is missing where the row ends. -/
theorem blockOf_eq (h : previous :: tokens <:+ row) :
    blockOf fallbacks row tokens = Block.read previous tokens := by
  have hend := fallbacks.rowEnd_eq h
  cases tokens with
  | nil =>
      rw [blockOf, hend]
      rfl
  | cons t rest =>
      rw [List.getLastD_cons] at hend
      unfold blockOf Block.read
      generalize fallbacks.rowEnd row = place at hend ⊢
      subst hend
      rfl

/-- The token before the block of a condition is the last one of its test, or its keyword. -/
theorem getLastD_leading_suffix (stops : Token → Bool) (keyword : Token) (tokens : List Token) :
    (leading stops tokens).getLastD keyword :: remaining stops tokens <:+ keyword :: tokens := by
  have hsplit : leading stops tokens ++ remaining stops tokens = tokens :=
    List.takeWhile_append_dropWhile
  have hlast := getLastD_cons_suffix keyword (leading stops tokens) (remaining stops tokens)
  rwa [hsplit] at hlast

/-- The test and the block of a condition are read alike. -/
theorem guardedIn_eq (h : keyword :: tokens <:+ row) :
    guardedIn fallbacks row keyword tokens = guarded keyword tokens := by
  have hlast := getLastD_leading_suffix Token.opensBlock keyword tokens
  simp only [guardedIn, guarded]
  rw [blockOf_eq (hlast.trans h)]

/-! ### Each row -/

mutual

/-- **The rest of a row is parsed alike**, whatever the fallbacks are. -/
theorem blockIn_eq : ∀ {row tokens : List Token}, tokens <:+ row →
    blockIn fallbacks row tokens = block tokens
  | row, [], _ => by rw [blockIn, block]
  | row, t :: rest, h => by
      have hpassed := blockIn_eq ((List.suffix_cons t rest).trans h)
      -- Behind a statement that was read there is an end of the row again.
      have hread : ∀ reading : Logged Diagnostic (Reading Statement rest),
          statement? t rest = some reading.outcome →
          (do
            let read ← reading
            .tell (.parsedStatement read.value)
            return read.value :: (← blockIn fallbacks row read.rest)) =
          (do
            let read ← reading
            .tell (.parsedStatement read.value)
            return read.value :: (← block read.rest)) := by
        intro reading hstatement
        refine Logged.bind_congr ?_
        intro read hok
        rw [hok] at hstatement
        have hopens := opens_iff.mpr ⟨_, hstatement, _, rfl, rfl, rfl⟩
        have hlength := read.notLonger
        rw [blockIn_eq (hopens.suffix.trans h)]
      rw [blockIn, block]
      cases hkeyword : t.keyword? with
      | none => simp only [hpassed]
      | some keyword =>
          cases keyword with
          | warna => simp only [hpassed]
          | socho | likho | pucho | agar =>
              simp only [declarationIn_eq h, printIn_eq h, inputIn_eq h, conditionIn_eq h]
              exact hread _ (by simp [statement?, hkeyword])
termination_by _ tokens => tokens.length

/-- A condition and its branches are parsed alike. -/
theorem conditionIn_eq {row tokens : List Token} {keyword : Token}
    (h : keyword :: tokens <:+ row) :
    conditionIn fallbacks row keyword tokens = condition keyword tokens := by
  rw [conditionIn, condition, guardedIn_eq h]
  refine Logged.bind_congr ?_
  intro head hhead
  have hshorter := head.shorter
  have hrest : head.rest <:+ row :=
    (guarded_eq_ok_iff.mp hhead).suffix.trans ((List.suffix_cons keyword tokens).trans h)
  simp only [blockIn_eq (List.suffix_refl head.inside)]
  refine Logged.bind_congr ?_
  intro body _
  refine Logged.bind_congr ?_
  intro _ _
  cases hbranch : branch head.rest with
  | none => rfl
  | chained next rest hlt =>
      simp only [conditionIn_eq ((suffix_of_branch_eq_chained hbranch).trans hrest)]
  | block opening rest hlt =>
      simp only [blockOf_eq ((suffix_of_branch_eq_block hbranch).trans hrest)]
      refine Logged.bind_congr ?_
      intro other _
      have hother := other.shorter
      simp only [blockIn_eq (List.suffix_refl other.inside)]
termination_by tokens.length

end

/-- **No fallback is needed.**  A parser that knows its rows only parses every row of tokens
as ours does, with the same complaints at the same places and the same events, whatever it
would fall back on. -/
theorem parseIn_eq (fallbacks : Fallbacks) (tokens : List Token) :
    parseIn fallbacks tokens = parse tokens := by
  rw [parseIn, parse, blockIn_eq (List.suffix_refl tokens)]

end Parser

end SochoScript
