import SochoScript.Number.Layout

/-!
# JSON

A tree of data and its written form.  The members of an object are kept in
order, because the order is part of what is written.  A number is either whole
or a finite binary number; whatever is not finite has no number form, and the
one who builds the tree decides what stands in its place.

The written form hangs on a `Style`, which lays out the space between the signs
and the binary numbers.  Two styles are in use; they lay numbers out alike.

* `Json.pretty` puts every item on a line of its own, indented by two spaces a
  level, with an empty array or object on one line.
* `Json.compact` writes no space at all.

Inside a string the quote, the backslash and the control characters below
`U+0020` are escaped; every other character stands for itself.
-/

namespace SochoScript

/-- A tree of data. -/
inductive Json where
  | null
  | bool (value : Bool)
  | integer (value : Int)
  | real (negative : Bool) (size : Number.Magnitude)
  | string (value : String)
  | array (items : List Json)
  | object (members : List (String × Json))

namespace Json

/-- How a tree is laid out. -/
structure Style where
  /-- What stands in front of an item at the given level. -/
  lineBreak : Nat → String
  /-- What stands between a name and its value. -/
  colon : String
  /-- A finite binary number with its sign. -/
  real : Bool → Number.Magnitude → List Char

/-- Two spaces a level. -/
def indent (depth : Nat) : String :=
  String.ofList (List.replicate (2 * depth) ' ')

/-- A binary number with a point or an exponent. -/
def scientific (negative : Bool) (size : Number.Magnitude) : List Char :=
  Number.signed negative size.scientific

/-- Every item on a line of its own. -/
def Style.pretty : Style := ⟨fun depth => "\n" ++ indent depth, ": ", scientific⟩

/-- No space at all. -/
def Style.compact : Style := ⟨fun _ => "", ":", scientific⟩

/-- A digit of base sixteen, in lower case. -/
def hexDigit (n : Nat) : Char := Nat.digitChar (n % 16)

/-- How a character is written inside a string. -/
def escape (c : Char) : List Char :=
  if c = '"' then ['\\', '"']
  else if c = '\\' then ['\\', '\\']
  else if c = '\x08' then ['\\', 'b']
  else if c = '\x0c' then ['\\', 'f']
  else if c = '\n' then ['\\', 'n']
  else if c = '\r' then ['\\', 'r']
  else if c = '\t' then ['\\', 't']
  else if c.toNat < 0x20 then ['\\', 'u', '0', '0', hexDigit (c.toNat / 16), hexDigit c.toNat]
  else [c]

/-- A string between its quotes. -/
def quoted (text : String) : String :=
  String.ofList ('"' :: text.toList.flatMap escape ++ ['"'])

mutual

/-- `out`, followed by the written form of a tree at the given level. -/
def writeOn (style : Style) (depth : Nat) (out : String) : Json → String
  | null => out ++ "null"
  | bool value => out ++ (if value then "true" else "false")
  | integer value => out ++ toString value
  | real negative size => out ++ String.ofList (style.real negative size)
  | string value => out ++ quoted value
  | array [] => out ++ "[]"
  | array (item :: rest) =>
    let first := writeOn style (depth + 1) (out ++ "[" ++ style.lineBreak (depth + 1)) item
    writeItemsOn style depth first rest ++ style.lineBreak depth ++ "]"
  | object [] => out ++ "\x7b\x7d"
  | object ((name, value) :: rest) =>
    let opened := out ++ "\x7b" ++ style.lineBreak (depth + 1) ++ quoted name ++ style.colon
    let first := writeOn style (depth + 1) opened value
    writeMembersOn style depth first rest ++ style.lineBreak depth ++ "\x7d"

/-- `out`, followed by the items of an array after the first. -/
def writeItemsOn (style : Style) (depth : Nat) (out : String) : List Json → String
  | [] => out
  | item :: rest =>
    let next := writeOn style (depth + 1) (out ++ "," ++ style.lineBreak (depth + 1)) item
    writeItemsOn style depth next rest

/-- `out`, followed by the members of an object after the first. -/
def writeMembersOn (style : Style) (depth : Nat) (out : String) :
    List (String × Json) → String
  | [] => out
  | (name, value) :: rest =>
    let opened := out ++ "," ++ style.lineBreak (depth + 1) ++ quoted name ++ style.colon
    let next := writeOn style (depth + 1) opened value
    writeMembersOn style depth next rest

end

/-- The written form with every item on a line of its own. -/
def pretty (tree : Json) : String := tree.writeOn .pretty 0 ""

/-- The written form without space. -/
def compact (tree : Json) : String := tree.writeOn .compact 0 ""

/-- A string, or null where there is none. -/
def ofOption : Option String → Json
  | none => .null
  | some text => .string text

end Json

end SochoScript
