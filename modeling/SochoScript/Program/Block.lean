import SochoScript.Diagnostic

/-!
# Blocks

A block is what stands between an opening brace and the closing brace that
belongs to it.  Only bracket tokens count, and the matching brace is found by
counting how many blocks are open.

* `Block.close?` splits a row of tokens, whose opening brace has been read, at
  the matching closing brace.
* `Block.close?_eq_some`: the two parts and the brace between them are the whole
  row.
* `Block.read` also reads the opening brace and says what is missing.
-/

namespace SochoScript

namespace Block

/-- A split row with one more token in front. -/
def prepend (t : Token) (split : List Token × List Token) : List Token × List Token :=
  (t :: split.1, split.2)

/-- The tokens before the brace that closes the block, and those after it, when
`depth` further blocks are open inside. -/
def close? (depth : Nat) : List Token → Option (List Token × List Token)
  | [] => none
  | t :: rest =>
    if t.opensBlock then (close? (depth + 1) rest).map (prepend t)
    else if t.closesBlock then
      match depth with
      | 0 => some ([], rest)
      | outer + 1 => (close? outer rest).map (prepend t)
    else (close? depth rest).map (prepend t)

/-- A row that is split at a closing brace. -/
def SplitAt (tokens : List Token) (split : List Token × List Token) : Prop :=
  ∃ closing : Token, closing.closesBlock = true ∧ tokens = split.1 ++ closing :: split.2

/-- A split stays one with a token in front. -/
theorem SplitAt.prepend {rest : List Token} {split : List Token × List Token} (t : Token)
    (h : SplitAt rest split) : SplitAt (t :: rest) (prepend t split) := by
  obtain ⟨closing, hclosing, hrest⟩ := h
  exact ⟨closing, hclosing, by simp [hrest, Block.prepend]⟩

/-- Splitting at the matching brace loses nothing but that brace. -/
theorem close?_eq_some {depth : Nat} {tokens : List Token} {split : List Token × List Token}
    (h : close? depth tokens = some split) : SplitAt tokens split := by
  induction tokens generalizing depth split with
  | nil => simp [close?] at h
  | cons t rest ih =>
      unfold close? at h
      split at h
      · obtain ⟨inner, hinner, rfl⟩ := Option.map_eq_some_iff.mp h
        exact (ih hinner).prepend t
      · split at h
        · rename_i hclosing
          split at h
          · cases h
            exact ⟨t, hclosing, rfl⟩
          · obtain ⟨inner, hinner, rfl⟩ := Option.map_eq_some_iff.mp h
            exact (ih hinner).prepend t
        · obtain ⟨inner, hinner, rfl⟩ := Option.map_eq_some_iff.mp h
          exact (ih hinner).prepend t

end Block

/-- A block that was read from the front of `tokens`. -/
structure Block (tokens : List Token) where
  /-- What stands between the braces. -/
  inside : List Token
  /-- What follows the block. -/
  rest : List Token
  /-- Inside and rest are shorter than the whole by the braces. -/
  shorter : inside.length + rest.length + 2 = tokens.length

namespace Block

/-- Reads a block that is expected after the token `previous`. -/
def read (previous : Token) (tokens : List Token) : Except Diagnostic (Block tokens) :=
  match tokens with
  | [] => .error (.endOfInput .blockOpening previous.span.after)
  | t :: rest =>
    if t.opensBlock then
      match h : close? 0 rest with
      | some (inside, after) =>
        .ok ⟨inside, after, by
          obtain ⟨closing, _, hrest⟩ := close?_eq_some h
          simp [hrest]
          omega⟩
      | none => .error (.endOfInput .blockClosing (rest.getLastD t).span.after)
    else .error (.unexpectedToken .blockOpening t)

end Block

end SochoScript
