import SochoScript.Logged
import SochoScript.Program.Block
import SochoScript.Program.Expression

/-!
# From tokens to programs

A program is read statement by statement from the front of a row of tokens.
Each statement is opened by its keyword; whatever stands between two statements
and is not the end of one is passed over, and told.  A condition reads its block
to the matching brace first and then the inside of the block as a row of tokens
of its own.  After `warna` there is either a block or, directly, another
condition, which is then the only statement of the other branch.

Every reader says how much it left over, and that this is not longer than what
it was given; the recursion of `block` and `condition` ends because of it.  When
the tokens run out, the complaint points just past the last token that was read.
-/

namespace SochoScript

/-- Something that was read from the front of `tokens`, and what is left. -/
structure Reading (α : Type) (tokens : List Token) where
  /-- What was read. -/
  value : α
  /-- The tokens that are left. -/
  rest : List Token
  /-- They are not more than there were. -/
  notLonger : rest.length ≤ tokens.length

namespace Parser

/-- One token that is expected after `previous`. -/
def expect (expected : Expectation) (accepts : Token → Bool) (previous : Token)
    (tokens : List Token) : Except Diagnostic (Reading Token tokens) :=
  match tokens with
  | [] => .error (.endOfInput expected previous.span.after)
  | t :: rest =>
    if accepts t then .ok ⟨t, rest, Nat.le_succ _⟩
    else .error (.unexpectedToken expected t)

/-- Whether a token can be a name. -/
def isName (t : Token) : Bool := t.kind = .identifier

/-- Whether a token can be printed. -/
def isPrintable (t : Token) : Bool := t.kind ≠ .endOfStatement && t.kind ≠ .bracket

/-- Whether a token ends the value of a declaration. -/
def endsStatement (t : Token) : Bool := t.kind = .endOfStatement

/-- What is left of a row of tokens after those in front that fail `stops`. -/
def remaining (stops : Token → Bool) (tokens : List Token) : List Token :=
  tokens.dropWhile fun t => !stops t

/-- The tokens in front that fail `stops`. -/
def leading (stops : Token → Bool) (tokens : List Token) : List Token :=
  tokens.takeWhile fun t => !stops t

/-- What remains is no longer than the row. -/
theorem length_remaining_le (stops : Token → Bool) (tokens : List Token) :
    (remaining stops tokens).length ≤ tokens.length :=
  (List.dropWhile_sublist _).length_le

/-- The value of a declaration, if an assignment follows its name. -/
def initializer (tokens : List Token) :
    Except Diagnostic (Reading (Option String) tokens) :=
  match tokens with
  | [] => .ok ⟨none, [], Nat.le_refl _⟩
  | t :: rest =>
    if t.assigns then
      match expression .declaration t.span (leading endsStatement rest) with
      | .ok text =>
        .ok ⟨some text, remaining endsStatement rest,
          Nat.le_succ_of_le (length_remaining_le _ _)⟩
      | .error diagnostic => .error diagnostic
    else .ok ⟨none, t :: rest, Nat.le_refl _⟩

/-- A declaration whose keyword has been read. -/
def declaration (keyword : Token) (tokens : List Token) :
    Except Diagnostic (Reading Statement tokens) := do
  let name ← expect (.nameAfter .socho) isName keyword tokens
  let value ← initializer name.rest
  return ⟨.declaration name.value.value.display value.value, value.rest,
    Nat.le_trans value.notLonger name.notLonger⟩

/-- A printed value whose keyword has been read. -/
def print (keyword : Token) (tokens : List Token) :
    Except Diagnostic (Reading Statement tokens) := do
  let printed ← expect .printedValue isPrintable keyword tokens
  return ⟨.print printed.value.value.display, printed.rest, printed.notLonger⟩

/-- The prompt of an input, if a literal follows its name. -/
def prompt (tokens : List Token) : Reading (Option String) tokens :=
  match tokens with
  | [] => ⟨none, [], Nat.le_refl _⟩
  | t :: rest =>
    if t.kind = .string then ⟨some t.value.display, rest, Nat.le_succ _⟩
    else ⟨none, t :: rest, Nat.le_refl _⟩

/-- An input whose keyword has been read. -/
def input (keyword : Token) (tokens : List Token) :
    Except Diagnostic (Reading Statement tokens) := do
  let name ← expect (.nameAfter .pucho) isName keyword tokens
  let asked := prompt name.rest
  return ⟨.input name.value.value.display asked.value, asked.rest,
    Nat.le_trans asked.notLonger name.notLonger⟩

/-- The test of a condition and its block. -/
structure Guarded (tokens : List Token) where
  /-- The text of the test. -/
  test : String
  /-- What stands between the braces. -/
  inside : List Token
  /-- What follows the block. -/
  rest : List Token
  /-- Inside and rest together are less than the whole. -/
  shorter : inside.length + rest.length < tokens.length

/-- The test and the block of a condition whose keyword has been read. -/
def guarded (keyword : Token) (tokens : List Token) : Except Diagnostic (Guarded tokens) := do
  let tested := leading Token.opensBlock tokens
  let test ← expression .condition keyword.span tested
  let block ← Block.read (tested.getLastD keyword) (remaining Token.opensBlock tokens)
  return ⟨test, block.inside, block.rest, by
    have hblock := block.shorter
    have hrest := length_remaining_le Token.opensBlock tokens
    omega⟩

/-- What follows a condition's block. -/
inductive Branch (tokens : List Token) where
  /-- No other branch. -/
  | none
  /-- Another condition, with its keyword and what follows that. -/
  | chained (keyword : Token) (rest : List Token) (shorter : rest.length < tokens.length)
  /-- A block, expected after the token that opens the branch. -/
  | block (opening : Token) (rest : List Token) (shorter : rest.length < tokens.length)

/-- The way in which a condition goes on. -/
def branch (tokens : List Token) : Branch tokens :=
  match tokens with
  | [] => .none
  | t :: rest =>
    if t.keyword? = some .warna then
      match rest with
      | [] => .block t [] (Nat.lt_succ_self _)
      | next :: more =>
        if next.keyword? = some .agar then
          .chained next more (Nat.lt_succ_of_lt (Nat.lt_succ_self _))
        else .block t (next :: more) (Nat.lt_succ_self _)
    else .none

mutual

/-- The statements of a row of tokens. -/
def block (tokens : List Token) : Logged Diagnostic (List Statement) :=
  match tokens with
  | [] => pure []
  | t :: rest =>
    let opened : Option (Logged Diagnostic (Reading Statement rest)) :=
      match t.keyword? with
      | some .socho => some (.ofExcept (declaration t rest))
      | some .likho => some (.ofExcept (print t rest))
      | some .pucho => some (.ofExcept (input t rest))
      | some .agar => some (condition t rest)
      | some .warna => none
      | none => none
    match opened with
    | some reading => do
      let read ← reading
      have _shorter := Nat.lt_succ_of_le read.notLonger
      .tell (.parsedStatement read.value)
      return read.value :: (← block read.rest)
    | none =>
      if t.kind = .endOfStatement then block rest
      else do
        .tell (.strayToken t)
        block rest
termination_by tokens.length

/-- A condition whose keyword has been read, with all of its branches. -/
def condition (keyword : Token) (tokens : List Token) :
    Logged Diagnostic (Reading Statement tokens) := do
  let head ← .ofExcept (guarded keyword tokens)
  have _shorter := head.shorter
  let body ← block head.inside
  .tell (.parsedBlock head.inside.length body.length)
  match branch head.rest with
  | .none => return ⟨.condition head.test body [], head.rest, by omega⟩
  | .chained next rest _ => do
    let chained ← condition next rest
    have _notLonger := chained.notLonger
    return ⟨.condition head.test body [chained.value], chained.rest, by omega⟩
  | .block opening rest _ => do
    let other ← .ofExcept (Block.read opening rest)
    have _other := other.shorter
    let otherwise ← block other.inside
    .tell (.parsedBlock other.inside.length otherwise.length)
    return ⟨.condition head.test body otherwise, other.rest, by omega⟩
termination_by tokens.length

end

end Parser

/-- The program of a row of tokens. -/
def parse (tokens : List Token) : Logged Diagnostic Program := do
  .tell (.parsing tokens.length)
  let body ← Parser.block tokens
  .tell (.parsed body.length)
  return ⟨body⟩

end SochoScript
