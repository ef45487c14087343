/-!
# Blank characters

The characters that separate words without being part of any: the 25 code
points that have the Unicode property `White_Space`.  The source language lets
any of them stand between two tokens, and the text of an expression is stripped
of them at both ends.

The main facts are:

* `trim_append_blanks`: blanks added around a text do not survive trimming, so
  that trimming is exactly the removal of the outer blanks;
* `exists_blanks_trim`: a text is what is left of it between two rows of blanks.
-/

namespace SochoScript

namespace Text

/-- The ranges of code points with the property `White_Space`, in order. -/
def blankRanges : List (Nat × Nat) :=
  [(0x09, 0x0D), (0x20, 0x20), (0x85, 0x85), (0xA0, 0xA0), (0x1680, 0x1680),
   (0x2000, 0x200A), (0x2028, 0x2029), (0x202F, 0x202F), (0x205F, 0x205F),
   (0x3000, 0x3000)]

/-- Whether a code point lies in one of the ranges, ends included. -/
def inRanges (ranges : List (Nat × Nat)) (code : Nat) : Bool :=
  ranges.any fun range => range.1 ≤ code && code ≤ range.2

/-- Whether a character is blank. -/
def isBlank (c : Char) : Bool :=
  inRanges blankRanges c.toNat

/-- A text without the blanks at its beginning. -/
def trimStart (text : List Char) : List Char :=
  text.dropWhile isBlank

/-- A text without the blanks at its end. -/
def trimEnd (text : List Char) : List Char :=
  (text.reverse.dropWhile isBlank).reverse

/-- A text without the blanks at its two ends. -/
def trim (text : List Char) : List Char :=
  trimEnd (trimStart text)

/-- Blanks in front are trimmed. -/
theorem trimStart_append_left {left : List Char} (text : List Char)
    (h : ∀ c ∈ left, isBlank c) : trimStart (left ++ text) = trimStart text := by
  simp only [trimStart]
  exact List.dropWhile_append_of_pos h

/-- Blanks behind are trimmed. -/
theorem trimEnd_append_right {right : List Char} (text : List Char)
    (h : ∀ c ∈ right, isBlank c) : trimEnd (text ++ right) = trimEnd text := by
  simp only [trimEnd, List.reverse_append]
  rw [List.dropWhile_append_of_pos]
  simpa using h

/-- Blanks around a text do not survive trimming. -/
theorem trim_append_blanks {left right : List Char} (text : List Char)
    (hleft : ∀ c ∈ left, isBlank c) (hright : ∀ c ∈ right, isBlank c) :
    trim (left ++ text ++ right) = trim text := by
  rw [trim, List.append_assoc, trimStart_append_left _ hleft, trim]
  have hgone : trimStart right = [] := by
    simpa [trimStart] using trimStart_append_left [] hright
  by_cases hempty : (trimStart text).isEmpty
  · have hnil : trimStart text = [] := by simpa using hempty
    have htext : trimStart (text ++ right) = trimStart right := by
      simp only [trimStart, List.dropWhile_append] at hempty ⊢
      simp [hempty]
    rw [htext, hgone, hnil]
  · have htext : trimStart (text ++ right) = trimStart text ++ right := by
      simp only [trimStart, List.dropWhile_append] at hempty ⊢
      simp [hempty]
    rw [htext, trimEnd_append_right _ hright]

/-- What is trimmed at the end are blanks. -/
theorem trimEnd_append_blanks (text : List Char) :
    trimEnd text ++ (text.reverse.takeWhile isBlank).reverse = text := by
  rw [trimEnd, ← List.reverse_append, List.takeWhile_append_dropWhile, List.reverse_reverse]

/-- A text is what is left of it between two rows of blanks. -/
theorem exists_blanks_trim (text : List Char) :
    ∃ left right, text = left ++ trim text ++ right ∧ (∀ c ∈ left, isBlank c = true) ∧
      ∀ c ∈ right, isBlank c = true := by
  refine ⟨text.takeWhile isBlank, ((trimStart text).reverse.takeWhile isBlank).reverse, ?_,
    List.all_eq_true.mp List.all_takeWhile, ?_⟩
  · rw [List.append_assoc, trim, trimEnd_append_blanks, trimStart, List.takeWhile_append_dropWhile]
  · intro c hc
    exact List.all_eq_true.mp List.all_takeWhile c (List.mem_reverse.mp hc)

/-- What is left begins with no blank. -/
theorem isBlank_head_trim {text : List Char} :
    ∀ c ∈ (trim text).head?, isBlank c = false := by
  intro c hc
  have hfirst : c ∈ (trimStart text).head? := by
    obtain ⟨more, hmore⟩ := List.head?_eq_some_iff.mp hc
    rw [← trimEnd_append_blanks (trimStart text), ← trim, hmore]
    rfl
  have hhead := List.head?_dropWhile_not isBlank text
  rw [← trimStart, Option.mem_def.mp hfirst] at hhead
  exact hhead

/-- What is left ends with no blank. -/
theorem isBlank_getLast_trim {text : List Char} :
    ∀ c ∈ (trim text).getLast?, isBlank c = false := by
  intro c hc
  rw [trim, trimEnd, List.getLast?_reverse] at hc
  have hhead := List.head?_dropWhile_not isBlank (trimStart text).reverse
  rw [Option.mem_def.mp hc] at hhead
  exact hhead

end Text

end SochoScript
