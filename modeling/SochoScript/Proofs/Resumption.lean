import SochoScript.Proofs.Failures
import Mathlib.Logic.Function.Iterate

/-!
# Going on behind a failure

A lexer may be asked again after it has failed, and goes on where it stopped.  What
it answers then depends on the part of the source that is left and on nothing else:
a new lexer over that part gives the same answer, with all places counted from the
beginning of the part.

There are two ingredients.

1.  A scan does not look at the place where it starts.  Starting it elsewhere moves
    every place by the same amount, `Span.shift`: lines and offsets by what stands
    before, columns only in the first line.  Each step of a scan has this property,
    so `run_shift` follows along the text.
2.  A lexer that has been asked any number of times has read some beginning of the
    source, `Lexer.HasRead`, and stands at the place behind it.

* `run_shift`: **a scan that starts elsewhere finds the same elsewhere.**
* `ends_run`: a scan stops at the end of the text or just behind a fault.
* `exists_hasRead`: calls read the source from left to right and lose nothing.
* `tokenize_resumes`: **after any calls the next one answers like a new lexer over
  what is left**, goes on behind what it failed on, and has nothing more to say once
  the end is reached.
-/

namespace SochoScript

/-! ### Places in a text that begins elsewhere -/

namespace Position

/-- Lines and columns are counted from one. -/
structure Counted (p : Position) : Prop where
  line : 1 ≤ p.line
  column : 1 ≤ p.column

/-- Counting begins with one. -/
theorem counted_origin : origin.Counted := ⟨Nat.le_refl 1, Nat.le_refl 1⟩

/-- A character keeps lines and columns counted from one. -/
theorem Counted.advance {p : Position} (h : p.Counted) (c : Char) : (p.advance c).Counted := by
  unfold Position.advance
  split
  · exact ⟨Nat.le_add_left 1 _, Nat.le_refl 1⟩
  · exact ⟨h.line, Nat.le_add_left 1 _⟩

/-- So does a text. -/
theorem Counted.advanceAll {p : Position} (h : p.Counted) (text : List Char) :
    (p.advanceAll text).Counted := by
  induction text generalizing p with
  | nil => exact h
  | cons c text ih => exact ih (h.advance c)

/-- The point that is `p` in a part of a text, when that part begins at `start`.  Only
in its first line the column goes on from that of `start`. -/
def shift (start p : Position) : Position :=
  ⟨p.line + (start.line - 1), if p.line = 1 then p.column + (start.column - 1) else p.column,
    p.offset + start.offset⟩

/-- The beginning is shifted to the start. -/
theorem shift_origin {start : Position} (h : start.Counted) : start.shift origin = start := by
  obtain ⟨hline, hcolumn⟩ := h
  obtain ⟨line, column, offset⟩ := start
  simp only at hline hcolumn
  simp only [shift, origin, mk.injEq, if_true]
  omega

/-- Shifting and passing a character can be done in either order. -/
theorem shift_advance (start : Position) {p : Position} (h : p.Counted) (c : Char) :
    start.shift (p.advance c) = (start.shift p).advance c := by
  have hline := h.line
  obtain ⟨line, column, offset⟩ := p
  simp only at hline
  by_cases hfeed : c = '\n'
  · -- The next line is not the first one, so its columns are counted anew.
    have hnext : line + 1 ≠ 1 := by omega
    simp only [advance, shift, if_pos hfeed, if_neg hnext, mk.injEq, true_and]
    omega
  · simp only [advance, shift, if_neg hfeed, mk.injEq, true_and]
    refine ⟨?_, by omega⟩
    split <;> omega

/-- So can shifting and passing a text. -/
theorem shift_advanceAll (start : Position) {p : Position} (h : p.Counted) (text : List Char) :
    start.shift (p.advanceAll text) = (start.shift p).advanceAll text := by
  induction text generalizing p with
  | nil => rfl
  | cons c text ih => rw [advanceAll_cons, advanceAll_cons, ih (h.advance c), shift_advance _ h]

end Position

namespace Span

/-- The stretch that is `s` in a part of a text, when that part begins at `start`. -/
def shift (start : Position) (s : Span) : Span :=
  ⟨s.line + (start.line - 1), if s.line = 1 then s.column + (start.column - 1) else s.column,
    s.start + start.offset, s.stop + start.offset⟩

/-- A span is shifted by its ends. -/
theorem shift_between (start p q : Position) :
    shift start (between p q) = between (start.shift p) (start.shift q) := rfl

end Span

/-- The same character at another place. -/
def Skipped.relocate (f : Span → Span) (s : Skipped) : Skipped := { s with span := f s.span }

/-- The same piece at another place. -/
def Piece.relocate (f : Span → Span) : Piece → Piece
  | token t => .token (t.relocate f)
  | skipped s => .skipped (s.relocate f)

/-- Tokens or a complaint, all at other places. -/
def relocateOutcome (f : Span → Span) :
    Except Diagnostic (List Token) → Except Diagnostic (List Token)
  | .ok tokens => .ok (tokens.map (Token.relocate f))
  | .error d => .error (d.relocate f)

/-- The moved complaint of a fault is its complaint at the moved place. -/
theorem Lexeme.Fault.relocate_eq {policy : Policy} {text lexeme : List Char}
    {complaint : Span → Diagnostic} (h : Fault policy text lexeme complaint) (f : Span → Span)
    (span : Span) : (complaint span).relocate f = complaint (f span) := by
  cases h <;> rfl

namespace Scan

open Lexeme

/-- What a scan comes to: its tokens, or the fault that ended it. -/
def outcome (s : Scan) : Except Diagnostic (List Token) :=
  match s.fault? with
  | some d => .error d
  | none => .ok s.tokens

/-- Tokens that were found before come before all others. -/
theorem outcome_prepend (pieces : List Piece) (s : Scan) :
    ({ s with pieces := pieces ++ s.pieces } : Scan).outcome = do
      let tokens ← s.outcome
      return pieces.filterMap Piece.token? ++ tokens := by
  simp only [outcome, tokens, List.filterMap_append]
  cases s.fault? <;> rfl

/-- The scan of a part of a text, when that part begins at `start`. -/
def shift (start : Position) (s : Scan) : Scan :=
  ⟨s.pieces.map (Piece.relocate (Span.shift start)),
    s.fault?.map (Diagnostic.relocate (Span.shift start)), s.rest, start.shift s.position⟩

/-- What is found is shifted piece by piece. -/
theorem shift_found (start : Position) (piece : Piece) (s : Scan) :
    (found piece s).shift start = found (piece.relocate (Span.shift start)) (s.shift start) := rfl

/-- The tokens of a shifted scan are the shifted ones. -/
theorem tokens_shift (start : Position) (s : Scan) :
    (s.shift start).tokens = s.tokens.map (Token.relocate (Span.shift start)) := by
  have hpiece : Piece.token? ∘ Piece.relocate (Span.shift start) =
      Option.map (Token.relocate (Span.shift start)) ∘ Piece.token? := by
    funext piece
    cases piece <;> rfl
  rw [tokens, tokens, shift, List.filterMap_map, hpiece, List.map_filterMap]
  rfl

/-- So are the skipped characters. -/
theorem skipped_shift (start : Position) (s : Scan) :
    (s.shift start).skipped = s.skipped.map (Skipped.relocate (Span.shift start)) := by
  have hpiece : Piece.skipped? ∘ Piece.relocate (Span.shift start) =
      Option.map (Skipped.relocate (Span.shift start)) ∘ Piece.skipped? := by
    funext piece
    cases piece <;> rfl
  rw [skipped, skipped, shift, List.filterMap_map, hpiece, List.map_filterMap]
  rfl

/-- So is the outcome. -/
theorem outcome_shift (start : Position) (s : Scan) :
    (s.shift start).outcome = relocateOutcome (Span.shift start) s.outcome := by
  have htokens := tokens_shift start s
  unfold outcome
  cases hfault : s.fault? with
  | none => simp only [shift, hfault, Option.map_none, relocateOutcome, ← htokens]
  | some d => simp only [shift, hfault, Option.map_some, relocateOutcome]

variable {policy : Policy}

/-- A scan that ends with a fault is shifted as a whole. -/
theorem run_shift_of_fault (start : Position) {p : Position} (hp : p.Counted)
    {lexeme rest : List Char} {complaint : Span → Diagnostic}
    (h : Fault policy (lexeme ++ rest) lexeme complaint) :
    run policy (start.shift p) (lexeme ++ rest) = (run policy p (lexeme ++ rest)).shift start := by
  rw [run_fault _ h, run_fault _ h, ← Position.shift_advanceAll start hp, ← Span.shift_between,
    ← h.relocate_eq]
  rfl

/-- **A scan that starts elsewhere finds the same elsewhere.** -/
theorem run_shift (start : Position) {p : Position} (hp : p.Counted) (text : List Char) :
    run policy (start.shift p) text = (run policy p text).shift start := by
  induction text using scan_induction generalizing p with
  | nil =>
      rw [run_nil, run_nil]
      rfl
  | blank c rest hblank ih =>
      rw [run_blank _ hblank, run_blank _ hblank, ← Position.shift_advance start hp,
        ih (hp.advance c)]
  | token lexeme rest kind value hmunch ih =>
      rw [run_munch _ hmunch, run_munch _ hmunch, ← Position.shift_advanceAll start hp,
        ih (hp.advanceAll lexeme), shift_found]
      rfl
  | nothing c rest hnothing ih =>
      cases policy with
      | skip =>
          rw [run_skip _ hnothing, run_skip _ hnothing, ← Position.shift_advance start hp,
            ih (hp.advance c), shift_found]
          rfl
      | reject =>
          have hfault : Fault .reject ([c] ++ rest) [c] _ := .character rfl rfl hnothing
          exact run_shift_of_fault start hp hfault
  | fault lexeme rest complaint hfault => exact run_shift_of_fault start hp (hfault policy)

/-- Behind other text a scan finds what it finds in the text alone, elsewhere. -/
theorem run_behind (before text : List Char) :
    run policy (Position.origin.advanceAll before) text =
      (run policy .origin text).shift (Position.origin.advanceAll before) := by
  have hcounted := Position.counted_origin.advanceAll before
  rw [← run_shift _ Position.counted_origin, Position.shift_origin hcounted]

/-! ### Where a scan stops -/

/-- The scan `s` of `text`, which stands behind `before`, has read the text to its end,
or up to a fault and just that. -/
inductive Ends (policy : Policy) (before text : List Char) (s : Scan) : Prop
  | whole (hfault : s.fault? = none) (hrest : s.rest = [])
      (hposition : s.position = Position.origin.advanceAll (before ++ text))
  | fault {passed lexeme : List Char} {complaint : Span → Diagnostic}
      (hfault : Fault policy (lexeme ++ s.rest) lexeme complaint)
      (htext : text = passed ++ (lexeme ++ s.rest))
      (hcomplaint : s.fault? = some (complaint (.covering (before ++ passed) lexeme)))
      (hposition : s.position = Position.origin.advanceAll (before ++ (passed ++ lexeme)))

/-- **A scan stops at the end of the text or just behind a fault.** -/
theorem ends_run (policy : Policy) (before text : List Char) :
    Ends policy before text (run policy (Position.origin.advanceAll before) text) := by
  obtain ⟨after, left, hpasses, hend⟩ := isWalk_run policy before text
  obtain ⟨passed, rfl, -⟩ := hpasses.blank_outside
  have htext : text = passed ++ left := by simpa using hpasses.append_eq
  have hrun := run_of_passes hpasses
  rcases hend with ⟨rfl, hnone⟩ | ⟨lexeme, rest, complaint, rfl, hfault, hsome⟩
  · rw [run_nil] at hrun
    rw [hrun, htext, List.append_nil]
    exact .whole rfl rfl rfl
  · rw [run_fault _ hfault, ← Position.advanceAll_append] at hrun
    rw [hrun]
    refine .fault hfault htext rfl ?_
    rw [← List.append_assoc]

/-- What a scan has read, and what it has not, are the text. -/
theorem Ends.exists_passed {before text : List Char} {s : Scan} (h : Ends policy before text s) :
    ∃ passed, text = passed ++ s.rest ∧
      s.position = Position.origin.advanceAll (before ++ passed) := by
  cases h with
  | whole hfault hrest hposition => exact ⟨text, by rw [hrest, List.append_nil], hposition⟩
  | @fault passed lexeme complaint hfault htext hcomplaint hposition =>
      exact ⟨passed ++ lexeme, by rw [htext, List.append_assoc], hposition⟩

end Scan

/-! ### Calls one after the other -/

/-- A call that fails with the diagnostic leaves the source read up to the offset:
just behind the character that begins nothing, or the whole run of digits and points,
or at the end of the source if a literal is not closed. -/
inductive StopsBehind (source : List Char) : Diagnostic → Nat → Prop
  | character {before rest : List Char} {c : Char} (hc : Lexeme.BeginsNothing c)
      (hsource : source = before ++ ([c] ++ rest)) :
      StopsBehind source (.unexpectedCharacter c (.covering before [c]))
        (byteCount (before ++ [c]))
  | number {before run rest : List Char}
      (hrun : Lexeme.Longest (Lexeme.All Lexeme.isNumberPart) (run ++ rest) run)
      (hsource : source = before ++ (run ++ rest)) :
      StopsBehind source (.invalidNumber (String.ofList run) (.covering before run))
        (byteCount (before ++ run))
  | literal {before body : List Char} {mark : Char} (hbody : mark ∉ body)
      (hsource : source = before ++ mark :: body) :
      StopsBehind source (.unterminatedLiteral mark (.covering before (mark :: body)))
        (byteCount source)

/-- The fault that ends a scan is the last thing that was read. -/
theorem Lexeme.Fault.stopsBehind {policy : Policy} {before lexeme rest source : List Char}
    {complaint : Span → Diagnostic} (h : Fault policy (lexeme ++ rest) lexeme complaint)
    (hsource : source = before ++ (lexeme ++ rest)) :
    StopsBehind source (complaint (.covering before lexeme)) (byteCount (before ++ lexeme)) := by
  generalize htext : lexeme ++ rest = text at h
  cases h with
  | number hfirst hstart hlexeme hpoints => exact .number (htext ▸ hlexeme) hsource
  | literal hmark hbegins hbody =>
      have hrest : rest = [] := by simpa using htext
      rw [hrest, List.append_nil] at hsource
      rw [← hsource, hbegins]
      rw [hbegins] at hsource
      exact .literal hbody hsource
  | character hpolicy hbegins hc => exact .character hc hsource

/-- A fault concerns a character at least. -/
theorem Lexeme.Fault.lexeme_ne_nil {policy : Policy} {text lexeme : List Char}
    {complaint : Span → Diagnostic} (h : Fault policy text lexeme complaint) : lexeme ≠ [] := by
  obtain ⟨c, cs, -, -, rfl, -⟩ := h.exists_cut
  obtain ⟨more, hmore⟩ := exists_text_eq c cs
  simp [hmore]

namespace Lexer

/-- The outcome of a call is that of its scan. -/
theorem outcome_tokenize (l : Lexer) : l.tokenize.outcome = l.scan.outcome := by
  simp only [tokenize, Scan.outcome]
  cases l.scan.fault? <;> rfl

/-- The lexer has read the beginning `read` of the source and stands behind it. -/
structure HasRead (source : List Char) (policy : Policy) (read : List Char) (l : Lexer) :
    Prop where
  policy : l.policy = policy
  source : source = read ++ l.rest
  position : l.position = Position.origin.advanceAll read

variable {source read : List Char} {policy : Policy} {l : Lexer}

/-- A call scans the rest from the position behind what was read. -/
theorem HasRead.scan_eq (h : HasRead source policy read l) :
    l.scan = Scan.run policy (Position.origin.advanceAll read) l.rest := by
  rw [scan, h.policy, h.position]

/-- A call reads on. -/
theorem HasRead.next (h : HasRead source policy read l) :
    ∃ passed, HasRead source policy (read ++ passed) l.next := by
  have hends := Scan.ends_run policy read l.rest
  rw [← h.scan_eq] at hends
  obtain ⟨passed, hrest, hposition⟩ := hends.exists_passed
  refine ⟨passed, h.policy, ?_, hposition⟩
  calc source = read ++ l.rest := h.source
    _ = read ++ (passed ++ l.scan.rest) := by rw [← hrest]
    _ = read ++ passed ++ l.next.rest := (List.append_assoc ..).symm

/-- **Calls read the source from left to right and lose nothing.** -/
theorem exists_hasRead (source : String) (policy : Policy) (calls : Nat) :
    ∃ read, HasRead source.toList policy read (Lexer.next^[calls] (ofSource source policy)) := by
  induction calls with
  | zero => exact ⟨[], rfl, rfl, rfl⟩
  | succ calls ih =>
      obtain ⟨read, hread⟩ := ih
      obtain ⟨passed, hnext⟩ := hread.next
      rw [Function.iterate_succ_apply']
      exact ⟨read ++ passed, hnext⟩

/-- The next scan is that of a new lexer, elsewhere. -/
theorem HasRead.scan_shift (h : HasRead source policy read l) :
    l.scan = (ofSource (String.ofList l.rest) policy).scan.shift l.position := by
  rw [h.scan_eq, Scan.run_behind, ← h.position, scan, ofSource, String.toList_ofList]

/-- Its outcome is that of a fresh lexer over the rest, shifted. -/
theorem HasRead.outcome_tokenize (h : HasRead source policy read l) :
    l.tokenize.outcome = relocateOutcome (Span.shift l.position)
      (SochoScript.tokenize policy (String.ofList l.rest)).outcome := by
  rw [Lexer.outcome_tokenize, h.scan_shift, Scan.outcome_shift, SochoScript.tokenize,
    Lexer.outcome_tokenize]

/-- It skips what a fresh lexer over the rest skips, shifted. -/
theorem HasRead.skipped_next (h : HasRead source policy read l) :
    l.next.skipped = l.skipped ++ (ofSource (String.ofList l.rest) policy).next.skipped.map
      (Skipped.relocate (Span.shift l.position)) := by
  have hfresh : (ofSource (String.ofList l.rest) policy).next.skipped =
      (ofSource (String.ofList l.rest) policy).scan.skipped := rfl
  rw [hfresh, ← Scan.skipped_shift, ← h.scan_shift]
  rfl

/-- A call that fails goes on, up to just behind what it failed on. -/
theorem HasRead.stopsBehind (h : HasRead source policy read l) {d : Diagnostic}
    (herror : l.tokenize.outcome = .error d) :
    l.position.offset < l.next.position.offset ∧
      StopsBehind source d l.next.position.offset := by
  have hnext : l.next.position = l.scan.position := rfl
  have hends := Scan.ends_run policy read l.rest
  rw [← h.scan_eq] at hends
  rw [Lexer.outcome_tokenize, Scan.outcome] at herror
  cases hends with
  | whole hfault hrest hposition =>
      rw [hfault] at herror
      cases herror
  | @fault passed lexeme complaint hfault htext hcomplaint hposition =>
      rw [hcomplaint] at herror
      cases herror
      have hpos := byteCount_pos hfault.lexeme_ne_nil
      have hsource : source = read ++ passed ++ (lexeme ++ l.scan.rest) := by
        rw [h.source, htext, List.append_assoc]
      rw [hnext, hposition, h.position, ← List.append_assoc]
      simp only [Position.offset_advanceAll, Position.origin, Nat.zero_add, byteCount_append]
      refine ⟨by omega, ?_⟩
      rw [← byteCount_append, ← byteCount_append]
      exact hfault.stopsBehind hsource

/-- A call that succeeds has read the whole source. -/
theorem HasRead.rest_next (h : HasRead source policy read l) {tokens : List Token}
    (hok : l.tokenize.outcome = .ok tokens) :
    l.next.rest = [] ∧ l.next.position.offset = byteCount source := by
  have hends := Scan.ends_run policy read l.rest
  rw [← h.scan_eq] at hends
  rw [Lexer.outcome_tokenize, Scan.outcome] at hok
  cases hends with
  | whole hfault hrest hposition =>
      have hnext : l.next.position = l.scan.position := rfl
      rw [hnext, hposition, ← h.source, Position.offset_advanceAll]
      exact ⟨hrest, Nat.zero_add _⟩
  | fault hfault htext hcomplaint hposition =>
      rw [hcomplaint] at hok
      cases hok

/-- Where nothing is left, a call finds nothing and changes nothing. -/
theorem next_of_rest_eq_nil (h : l.rest = []) : l.next = l ∧ l.tokenize.outcome = .ok [] := by
  have hscan : l.scan = ⟨[], none, [], l.position⟩ := by rw [scan, h, Scan.run_nil]
  refine ⟨?_, ?_⟩
  · rw [next]
    simp only [hscan, Scan.skipped, List.filterMap_nil, List.append_nil, ← h]
  · rw [outcome_tokenize, hscan]
    rfl

/-- What the lexer `l` does when it is asked the next time, with `left` not yet read. -/
structure Resumes (source left : String) (policy : Policy) (l : Lexer) : Prop where
  /-- It answers like a new lexer over what is left, elsewhere. -/
  outcome : l.tokenize.outcome =
    relocateOutcome (Span.shift l.position) (SochoScript.tokenize policy left).outcome
  /-- It sets aside what that lexer does, elsewhere, behind what was set aside before. -/
  skipped : l.next.skipped = l.skipped ++
    (ofSource left policy).next.skipped.map (Skipped.relocate (Span.shift l.position))
  /-- If it fails, it has read on up to just behind what it failed on. -/
  fails : ∀ d, l.tokenize.outcome = .error d →
    l.position.offset < l.next.position.offset ∧
      StopsBehind source.toList d l.next.position.offset
  /-- If it does not, it has read the whole source, and there is nothing more to find. -/
  succeeds : ∀ tokens, l.tokenize.outcome = .ok tokens →
    l.next.position.offset = source.utf8ByteSize ∧
      ∀ more, (Lexer.next^[more] l.next).tokenize.outcome = .ok [] ∧
        (Lexer.next^[more] l.next).next.skipped = l.next.skipped

/-- A lexer that has read a part goes on like a fresh one over the rest. -/
theorem HasRead.resumes {source : String} (h : HasRead source.toList policy read l) :
    Resumes source (String.ofList l.rest) policy l := by
  refine ⟨h.outcome_tokenize, h.skipped_next, fun d => h.stopsBehind, ?_⟩
  intro tokens hok
  obtain ⟨hrest, hoffset⟩ := h.rest_next hok
  obtain ⟨hsame, hnothing⟩ := next_of_rest_eq_nil hrest
  refine ⟨hoffset.trans (byteCount_toList source), ?_⟩
  intro more
  rw [Function.iterate_fixed hsame]
  exact ⟨hnothing, by rw [hsame]⟩

/-- **A lexer goes on correctly after any calls.**  Let it be asked any number of
times.  The offset where it stands then divides the source into what was read and
what is left.  The next call answers like a new lexer over what is left, with every
place moved to where that part begins, and remembers what is set aside.  If it fails,
it has gone on; if it does not, it has reached the end, and all further calls find
nothing. -/
theorem tokenize_resumes (source : String) (policy : Policy) (calls : Nat) :
    ∃ read left : String, source = read ++ left ∧
      (Lexer.next^[calls] (ofSource source policy)).position.offset = read.utf8ByteSize ∧
      Resumes source left policy (Lexer.next^[calls] (ofSource source policy)) := by
  obtain ⟨read, h⟩ := exists_hasRead source policy calls
  refine ⟨String.ofList read, String.ofList _, ?_, ?_, h.resumes⟩
  · rw [← String.ofList_append, ← h.source, String.ofList_toList]
  · rw [h.position, Position.offset_advanceAll, ← byteCount_toList, String.toList_ofList]
    exact Nat.zero_add _

end Lexer

end SochoScript
