import SochoScript.Proofs.Walk
import Mathlib.Data.List.Induction

/-!
# The layout of a scanned source

Where the tokens of a source stand.  The three counters of a position are tied
to the text before it: the line counts its line feeds, the column the characters
behind the last of them, and the offset its bytes.  Every walk keeps this, so
that nothing has to be said about the single steps again.

`Span.Covers` reads a stretch of bytes as a part of the source, which it can only
be if both of its ends lie between two characters; `Span.Placed` is the place
that a reader would count for its beginning; and `Tiles` says that some stretches
leave nothing but blanks between them.

* `advanceAll_origin`: the three counters in terms of the text before.
* `Passes.tiles`: the pieces of a walk to the end tile the source.
* `merge_spans`: merging tokens and characters set aside by their beginnings
  gives back the order in which they were found.
* `tokenize_layout`: **a scan loses, repeats and misplaces nothing.**
-/

namespace SochoScript

/-! ### Counters -/

@[simp] theorem byteCount_nil : byteCount [] = 0 := rfl

/-- The bytes of two texts add up. -/
theorem byteCount_append (left right : List Char) :
    byteCount (left ++ right) = byteCount left + byteCount right := by
  induction left with
  | nil => simp
  | cons c left ih => rw [List.cons_append, byteCount, byteCount, ih, Nat.add_assoc]

/-- A text that is not empty has a byte. -/
theorem byteCount_pos {text : List Char} (h : text ≠ []) : 0 < byteCount text := by
  cases text with
  | nil => exact absurd rfl h
  | cons c text =>
      have hsize := c.utf8Size_pos
      rw [byteCount]
      omega

/-- Two beginnings of one text with the same number of bytes are the same. -/
theorem eq_of_byteCount_eq {left left' right right' : List Char}
    (h : left ++ right = left' ++ right') (hcount : byteCount left = byteCount left') :
    left = left' := by
  have hnil : ∀ front more : List Char,
      byteCount front = byteCount (front ++ more) → more = [] := by
    intro front more hsame
    by_contra hmore
    have hpos := byteCount_pos hmore
    rw [byteCount_append] at hsame
    omega
  rcases List.append_eq_append_iff.mp h with ⟨more, rfl, -⟩ | ⟨more, rfl, -⟩
  · rw [hnil left more hcount, List.append_nil]
  · rw [hnil left' more hcount.symm, List.append_nil]

/-- The characters behind the last line feed. -/
def lastLine (text : List Char) : List Char :=
  (text.reverse.takeWhile (· ≠ '\n')).reverse

/-- A line break begins a new line, and any other character stays on its line. -/
theorem lastLine_concat (text : List Char) (c : Char) :
    lastLine (text ++ [c]) = if c = '\n' then [] else lastLine text ++ [c] := by
  by_cases h : c = '\n' <;> simp [lastLine, h]

/-- **The three counters in terms of the text before.** -/
theorem advanceAll_origin (before : List Char) :
    Position.origin.advanceAll before =
      ⟨1 + before.count '\n', 1 + (lastLine before).length, byteCount before⟩ := by
  induction before using List.reverseRecOn with
  | nil => rfl
  | append_singleton before c ih =>
      rw [Position.advanceAll_append, ih, Position.advanceAll_cons, Position.advanceAll_nil,
        Position.advance, lastLine_concat, byteCount_append, List.count_append]
      by_cases h : c = '\n'
      · simp [h, byteCount, Nat.add_assoc]
      · simp [h, byteCount, Nat.add_assoc]

/-! ### Stretches of a source -/

namespace Span

/-- The stretch lies between characters of the source, and `text` stands there. -/
def Covers (span : Span) (source text : List Char) : Prop :=
  ∃ before after, source = before ++ text ++ after ∧
    span.start = byteCount before ∧ span.stop = byteCount (before ++ text)

/-- The line and the column are those of the beginning of the stretch, counted
from one. -/
def Placed (span : Span) (source : List Char) : Prop :=
  ∃ before after, source = before ++ after ∧ span.start = byteCount before ∧
    span.line = 1 + before.count '\n' ∧ span.column = 1 + (lastLine before).length

/-- Only one text stands at a place. -/
theorem Covers.unique {span : Span} {source text text' : List Char}
    (h : span.Covers source text) (h' : span.Covers source text') : text = text' := by
  obtain ⟨before, after, rfl, hstart, hstop⟩ := h
  obtain ⟨before', after', hsame, hstart', hstop'⟩ := h'
  have hwhole := eq_of_byteCount_eq hsame (hstop.symm.trans hstop')
  rw [List.append_assoc, List.append_assoc] at hsame
  rw [eq_of_byteCount_eq hsame (hstart.symm.trans hstart')] at hwhole
  exact List.append_cancel_left hwhole

/-- The span from the end of what was read over a lexeme covers the lexeme. -/
theorem covers_covering (before lexeme rest : List Char) :
    (covering before lexeme).Covers (before ++ (lexeme ++ rest)) lexeme :=
  ⟨before, rest, (List.append_assoc before lexeme rest).symm, start_covering _ _, stop_covering _ _⟩

/-- Its line and column are the true ones. -/
theorem placed_covering (before lexeme rest : List Char) :
    (covering before lexeme).Placed (before ++ (lexeme ++ rest)) := by
  refine ⟨before, lexeme ++ rest, rfl, start_covering _ _, ?_, ?_⟩
  · simp [covering, between, advanceAll_origin]
  · simp [covering, between, advanceAll_origin]

end Span

/-- The stretches stand in the source one behind the other, none is empty, and
what they leave out is blank. -/
structure Tiles (source : List Char) (spans : List Span) : Prop where
  nonempty : ∀ span ∈ spans, span.start < span.stop
  ordered : spans.Pairwise fun left right => left.stop ≤ right.start
  bounded : ∀ span ∈ spans, ∃ text, span.Covers source text
  blank : ∀ before c after, source = before ++ c :: after →
    (∃ span ∈ spans, span.start ≤ byteCount before ∧ byteCount (before ++ [c]) ≤ span.stop) ∨
      Text.isBlank c = true

namespace Scan

open Lexeme

/-! ### What a walk keeps -/

/-- What is found has the span of its lexeme. -/
theorem Finds.span_eq {policy : Policy} {before lexeme rest : List Char} {piece : Piece}
    (h : Finds policy before lexeme rest piece) : piece.span = .covering before lexeme := by
  cases h <;> rfl

/-- No lexeme is empty. -/
theorem Finds.lexeme_ne_nil {policy : Policy} {before lexeme rest : List Char} {piece : Piece}
    (h : Finds policy before lexeme rest piece) : lexeme ≠ [] := by
  cases h with
  | token hmunch =>
      obtain ⟨c, cs, -, -, rfl, -⟩ := hmunch.exists_cut
      obtain ⟨more, hmore⟩ := exists_text_eq c cs
      simp [hmore]
  | skipped hpolicy hnothing hlexeme => simp [hlexeme]

/-- Every piece of a walk stands where the source says. -/
theorem Passes.exists_over {policy : Policy} {source after left : List Char}
    {pieces : List Piece} {piece : Piece} (h : Passes policy [] source pieces after left)
    (hpiece : piece ∈ pieces) :
    ∃ before lexeme rest, source = before ++ (lexeme ++ rest) ∧
      Finds policy before lexeme rest piece := by
  obtain ⟨earlier, later, hsplit⟩ := List.append_of_mem hpiece
  obtain ⟨before, lexeme, rest, hearlier, hfinds, -⟩ := h.split hsplit
  exact ⟨before, lexeme, rest, hearlier.append_eq, hfinds⟩

/-- A walk finds nothing before the place where it starts. -/
theorem Passes.le_start {policy : Policy} {before text after left : List Char}
    {pieces : List Piece} (h : Passes policy before text pieces after left) :
    ∀ piece ∈ pieces, byteCount before ≤ piece.span.start := by
  induction h with
  | here before text => simp
  | blank hblank tail ih =>
      intro piece hpiece
      have hle := ih piece hpiece
      rw [byteCount_append] at hle
      omega
  | piece hfinds tail ih =>
      intro other hother
      rcases List.mem_cons.mp hother with rfl | hother
      · exact Nat.le_of_eq (by rw [hfinds.span_eq, Span.start_covering])
      · have hle := ih other hother
        rw [byteCount_append] at hle
        omega

/-- A walk finds its pieces one behind the other. -/
theorem Passes.ordered {policy : Policy} {before text after left : List Char}
    {pieces : List Piece} (h : Passes policy before text pieces after left) :
    (pieces.map Piece.span).Pairwise fun left right => left.stop ≤ right.start := by
  induction h with
  | here before text => exact .nil
  | blank hblank tail ih => exact ih
  | piece hfinds tail ih =>
      rw [List.map_cons, List.pairwise_cons]
      refine ⟨?_, ih⟩
      intro span hspan
      obtain ⟨other, hother, rfl⟩ := List.mem_map.mp hspan
      rw [hfinds.span_eq, Span.stop_covering]
      exact tail.le_start other hother

/-- What a walk passes over without finding a piece is blank. -/
theorem Passes.blank_outside {policy : Policy} {before text after left : List Char}
    {pieces : List Piece} (h : Passes policy before text pieces after left) :
    ∃ passed, after = before ++ passed ∧
      ∀ front c back, passed = front ++ c :: back →
        (∃ piece ∈ pieces, piece.span.start ≤ byteCount (before ++ front) ∧
          byteCount (before ++ front ++ [c]) ≤ piece.span.stop) ∨ Text.isBlank c = true := by
  induction h with
  | here before text => exact ⟨[], by simp, by intro front c back h; simp at h⟩
  | @blank d before text after left pieces hblank tail ih =>
      obtain ⟨passed, rfl, hpassed⟩ := ih
      refine ⟨d :: passed, by simp, ?_⟩
      intro front c back heq
      rcases List.cons_eq_append_iff.mp heq with ⟨rfl, hback⟩ | ⟨front, rfl, hback⟩
      · cases hback
        exact .inr hblank
      · have hinside := hpassed front c back hback
        simpa using hinside
  | @piece before lexeme text after left piece pieces hfinds tail ih =>
      obtain ⟨passed, rfl, hpassed⟩ := ih
      refine ⟨lexeme ++ passed, by simp, ?_⟩
      intro front c back heq
      rcases List.append_eq_append_iff.mp heq with ⟨more, rfl, hmore⟩ | ⟨more, rfl, hmore⟩
      · -- The character stands behind the first piece.
        rcases hpassed more c back hmore with ⟨other, hother, hinside⟩ | hblank
        · refine .inl ⟨other, List.mem_cons_of_mem _ hother, ?_⟩
          simpa using hinside
        · exact .inr hblank
      · cases more with
        | nil =>
            -- It is the first one behind it.
            have hnext : passed = [] ++ c :: back := by simpa using hmore.symm
            rcases hpassed [] c back hnext with ⟨other, hother, hinside⟩ | hblank
            · refine .inl ⟨other, List.mem_cons_of_mem _ hother, ?_⟩
              simpa using hinside
            · exact .inr hblank
        | cons d more =>
            rw [List.cons_append, List.cons.injEq] at hmore
            obtain ⟨rfl, -⟩ := hmore
            refine .inl ⟨piece, List.mem_cons_self, ?_⟩
            rw [hfinds.span_eq, Span.start_covering, Span.stop_covering]
            simp only [byteCount_append, byteCount]
            omega

/-- **The pieces of a walk to the end tile the source.** -/
theorem Passes.tiles {policy : Policy} {source after : List Char} {pieces : List Piece}
    (h : Passes policy [] source pieces after []) : Tiles source (pieces.map Piece.span) := by
  refine ⟨?_, h.ordered, ?_, ?_⟩
  · intro span hspan
    obtain ⟨piece, hpiece, rfl⟩ := List.mem_map.mp hspan
    obtain ⟨before, lexeme, rest, -, hfinds⟩ := h.exists_over hpiece
    have hpos := byteCount_pos hfinds.lexeme_ne_nil
    rw [hfinds.span_eq, Span.start_covering, Span.stop_covering, byteCount_append]
    omega
  · intro span hspan
    obtain ⟨piece, hpiece, rfl⟩ := List.mem_map.mp hspan
    obtain ⟨before, lexeme, rest, rfl, hfinds⟩ := h.exists_over hpiece
    rw [hfinds.span_eq]
    exact ⟨lexeme, Span.covers_covering before lexeme rest⟩
  · intro before c rest hsource
    obtain ⟨passed, hafter, hpassed⟩ := h.blank_outside
    have hall : source = passed := by simpa [hafter] using h.append_eq
    rcases hpassed before c rest (hall ▸ hsource) with ⟨piece, hpiece, hinside⟩ | hblank
    · exact .inl ⟨piece.span, List.mem_map_of_mem hpiece, hinside⟩
    · exact .inr hblank

/-! ### Tokens and characters together -/

/-- Merging the two views of a scan by their beginnings gives back the order in
which the pieces were found. -/
theorem merge_spans {pieces : List Piece}
    (h : (pieces.map Piece.span).Pairwise fun left right => left.start < right.start) :
    List.merge ((pieces.filterMap Piece.token?).map Token.span)
        ((pieces.filterMap Piece.skipped?).map Skipped.span)
        (fun left right => left.start ≤ right.start) =
      pieces.map Piece.span := by
  induction pieces with
  | nil => simp
  | cons piece pieces ih =>
      rw [List.map_cons, List.pairwise_cons] at h
      obtain ⟨hfirst, hrest⟩ := h
      have hih := ih hrest
      cases piece with
      | token t =>
          simp only [List.filterMap_cons, Piece.token?, Piece.skipped?, List.map_cons, Piece.span]
          cases hskipped : (pieces.filterMap Piece.skipped?).map Skipped.span with
          | nil => simpa [hskipped] using hih
          | cons s others =>
              have hmem : s ∈ pieces.map Piece.span := by
                rw [← hih, hskipped, List.mem_merge]
                exact .inr List.mem_cons_self
              have hle : t.span.start ≤ s.start := Nat.le_of_lt (hfirst s hmem)
              rw [List.cons_merge_cons, if_pos (by simpa using hle), ← hskipped, hih]
      | skipped u =>
          simp only [List.filterMap_cons, Piece.token?, Piece.skipped?, List.map_cons, Piece.span]
          cases htokens : (pieces.filterMap Piece.token?).map Token.span with
          | nil => simpa [htokens] using hih
          | cons t others =>
              have hmem : t ∈ pieces.map Piece.span := by
                rw [← hih, htokens, List.mem_merge]
                exact .inl List.mem_cons_self
              have hlt : u.span.start < t.start := hfirst t hmem
              rw [List.cons_merge_cons, if_neg (by simpa using hlt), ← htokens, hih]

/-- The pieces of a pass begin one behind the other. -/
theorem Passes.increasing {policy : Policy} {source after : List Char} {pieces : List Piece}
    (h : Passes policy [] source pieces after []) :
    (pieces.map Piece.span).Pairwise fun left right => left.start < right.start := by
  apply h.ordered.imp_of_mem
  intro left right hleft hright hle
  have hlt := h.tiles.nonempty left hleft
  omega

/-- The spans of tokens and skipped characters, merged, are those of the pieces. -/
theorem Passes.merge_spans {policy : Policy} {source after : List Char} {pieces : List Piece}
    (h : Passes policy [] source pieces after []) :
    List.merge ((pieces.filterMap Piece.token?).map Token.span)
        ((pieces.filterMap Piece.skipped?).map Skipped.span)
        (fun left right => left.start ≤ right.start) =
      pieces.map Piece.span := by
  exact Scan.merge_spans h.increasing

/-- A token that carries a text carries the one that stands in its place. -/
theorem Passes.covers_token {policy : Policy} {source after left : List Char}
    {pieces : List Piece} {t : Token} {text : String}
    (h : Passes policy [] source pieces after left) (ht : .token t ∈ pieces)
    (hvalue : t.value = .text text) : t.span.Covers source text.toList := by
  obtain ⟨before, lexeme, rest, rfl, hfinds⟩ := h.exists_over ht
  cases hfinds with
  | token hmunch =>
      rw [hmunch.text_eq hvalue]
      exact Span.covers_covering before lexeme rest

/-- A character that was set aside stands in its place. -/
theorem Passes.covers_skipped {policy : Policy} {source after left : List Char}
    {pieces : List Piece} {s : Skipped} (h : Passes policy [] source pieces after left)
    (hs : .skipped s ∈ pieces) : s.span.Covers source [s.character] := by
  obtain ⟨before, lexeme, rest, rfl, hfinds⟩ := h.exists_over hs
  cases hfinds with
  | skipped hpolicy hnothing hlexeme =>
      subst hlexeme
      exact Span.covers_covering before _ rest

/-- Every piece of a walk has the line and the column of its beginning. -/
theorem Passes.placed {policy : Policy} {source after left : List Char} {pieces : List Piece}
    {piece : Piece} (h : Passes policy [] source pieces after left) (hpiece : piece ∈ pieces) :
    piece.span.Placed source := by
  obtain ⟨before, lexeme, rest, rfl, hfinds⟩ := h.exists_over hpiece
  rw [hfinds.span_eq]
  exact Span.placed_covering before lexeme rest

end Scan

namespace Lexeme

/-- A complaint points to the place it was given. -/
theorem Fault.span?_eq {policy : Policy} {text lexeme : List Char}
    {complaint : Span → Diagnostic} (h : Fault policy text lexeme complaint) (span : Span) :
    (complaint span).span? = some span := by
  cases h <;> rfl

end Lexeme

open Scan

/-- **A scan loses, repeats and misplaces nothing.**  The tokens of a source that is
not refused and the characters that were set aside, merged by their beginnings,
tile the source, and those that carry a text carry the one that stands there.
Tokens, characters set aside and failures all have the line and the column of
their beginning. -/
theorem tokenize_layout (policy : Policy) (source : String) :
    (∀ tokens, (tokenize policy source).outcome = .ok tokens →
      Tiles source.toList
        (List.merge (tokens.map Token.span)
          ((Lexer.ofSource source policy).next.skipped.map Skipped.span)
          (fun left right => left.start ≤ right.start)) ∧
      (∀ t ∈ tokens, ∀ text, t.value = .text text → t.span.Covers source.toList text.toList) ∧
      (∀ t ∈ tokens, t.span.Placed source.toList)) ∧
    (∀ s ∈ (Lexer.ofSource source policy).next.skipped,
      s.span.Covers source.toList [s.character] ∧ s.span.Placed source.toList) ∧
    (∀ d, (tokenize policy source).outcome = .error d →
      ∃ span, d.span? = some span ∧ span.Placed source.toList) := by
  refine ⟨?_, ?_, ?_⟩
  · intro tokens hok
    obtain ⟨pieces, hpasses, rfl, hskipped⟩ := exists_passes_of_tokenize hok
    rw [hskipped, hpasses.merge_spans]
    refine ⟨hpasses.tiles, ?_, ?_⟩
    · intro t ht text hvalue
      exact hpasses.covers_token (token_mem_of_mem_tokens ht) hvalue
    · intro t ht
      exact hpasses.placed (token_mem_of_mem_tokens ht)
  · intro s hs
    obtain ⟨after, left, hpasses, -⟩ := isWalk_run policy [] source.toList
    have hmem := skipped_mem_of_mem_skipped hs
    exact ⟨hpasses.covers_skipped hmem, hpasses.placed hmem⟩
  · intro d herror
    rw [tokenize_eq_error_iff, fault?_run_eq_some_iff] at herror
    obtain ⟨before, lexeme, rest, complaint, ⟨pieces, hwalk⟩, hfault, rfl⟩ := herror
    have hsource : source.toList = before ++ (lexeme ++ rest) := hwalk.append_eq
    rw [hsource]
    exact ⟨_, hfault.span?_eq _, Span.placed_covering before lexeme rest⟩

end SochoScript
