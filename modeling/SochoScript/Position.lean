import SochoScript.Text.Quoted

/-!
# Places in a source text

A `Position` is a point between two characters of a text.  It is kept in three
coordinates at once: the line and the column that a reader counts, both from
one, and the offset in UTF-8 bytes from the beginning.  Only a line feed starts
a new line, and every other character, however wide, moves one column.

A `Span` is the stretch between two positions.  It keeps the line and the
column of its beginning and the two offsets.

The main facts are:

* `Position.advanceAll_append`: walking over two texts in a row is walking over
  their concatenation, so positions can be compared piece by piece;
* `Position.offset_advanceAll`: the offset grows by exactly the number of bytes
  that were walked over.
-/

namespace SochoScript

/-- The number of bytes of a text in UTF-8. -/
def byteCount : List Char → Nat
  | [] => 0
  | c :: rest => c.utf8Size + byteCount rest

/-- A point in a source text. -/
structure Position where
  /-- The line, counted from one. -/
  line : Nat := 1
  /-- The column, counted from one in characters. -/
  column : Nat := 1
  /-- The number of UTF-8 bytes before the point. -/
  offset : Nat := 0
deriving DecidableEq, Repr

namespace Position

/-- The beginning of a text. -/
def origin : Position := {}

/-- The point just after `c`, when `c` stands at `p`. -/
def advance (p : Position) (c : Char) : Position :=
  if c = '\n' then ⟨p.line + 1, 1, p.offset + c.utf8Size⟩
  else ⟨p.line, p.column + 1, p.offset + c.utf8Size⟩

/-- The point just after a text that begins at `p`. -/
def advanceAll (p : Position) (text : List Char) : Position :=
  text.foldl advance p

@[simp] theorem advanceAll_nil (p : Position) : p.advanceAll [] = p := rfl

@[simp] theorem advanceAll_cons (p : Position) (c : Char) (text : List Char) :
    p.advanceAll (c :: text) = (p.advance c).advanceAll text := rfl

/-- Walking over two texts in a row is walking over their concatenation. -/
theorem advanceAll_append (p : Position) (left right : List Char) :
    p.advanceAll (left ++ right) = (p.advanceAll left).advanceAll right := by
  simp [advanceAll]

@[simp] theorem offset_advance (p : Position) (c : Char) :
    (p.advance c).offset = p.offset + c.utf8Size := by
  unfold advance
  split <;> rfl

/-- The offset grows by the number of bytes walked over. -/
theorem offset_advanceAll (p : Position) (text : List Char) :
    (p.advanceAll text).offset = p.offset + byteCount text := by
  induction text generalizing p with
  | nil => rfl
  | cons c rest ih =>
      rw [advanceAll_cons, ih, offset_advance, byteCount, Nat.add_assoc]

end Position

/-- A stretch of a source text: where it begins, for a reader, and the byte
offsets of both of its ends. -/
structure Span where
  /-- The line of the beginning. -/
  line : Nat := 1
  /-- The column of the beginning. -/
  column : Nat := 1
  /-- The offset of the beginning. -/
  start : Nat := 0
  /-- The offset just past the end. -/
  stop : Nat := 0
deriving DecidableEq, Repr

namespace Span

/-- The stretch from `p` up to `q`. -/
def between (p q : Position) : Span :=
  ⟨p.line, p.column, p.offset, q.offset⟩

/-- The empty stretch just past `s`.  Its column is moved by the number of
bytes of `s`, which ends where it begins or behind that: `s.start ≤ s.stop`, as
for all that is found in a text (`Span.between`). -/
def after (s : Span) : Span :=
  ⟨s.line, s.column + (s.stop - s.start), s.stop, s.stop⟩

/-- What a message says of the place: the line and the column of the beginning. -/
def place (s : Span) : String :=
  toString s.line ++ ":" ++ toString s.column

/-- All four coordinates with their names. -/
def inspect (s : Span) : String :=
  Text.record "Span"
    [("line", toString s.line), ("column", toString s.column),
     ("start", toString s.start), ("end", toString s.stop)]

end Span

end SochoScript
