import SochoScript.Proofs.Rereading
import SochoScript.Proofs.Resumption

/-!
# What becomes of characters that begin nothing

A permissive scan sets such a character aside and goes on, and a strict one ends
there.  Two comparisons say that this is all there is between them.

The first one runs both scans over the same text.  They keep step up to the first
character that is set aside, and it is this character that the strict scan complains
about; a fault that the permissive scan meets later is never reached.

The second one runs the strict scan over another text, where each character that was
set aside is a space.  The two scans keep step to the end: a space ends a lexeme just
as well as a character that begins nothing, and it moves as many columns.  Only
offsets differ, since a character may have more bytes than a space.

* `stopsAtFirst_run`: the strict scan is the permissive one, or it ends at the first
  character that is set aside.
* `strict_stops_at_first_skipped`: **strictness is only a matter of that character**,
  and so for whole compilations.
* `Blanked.agree`: a text and its blanked form have the same tokens at the same spots.
* `compile_blanked`: **a character that is set aside means a blank.**
-/

namespace SochoScript

open Lexeme

/-! ### The first character that is set aside -/

namespace Scan

/-- A token that is found is in front of those that follow. -/
theorem outcome_found_token (t : Token) (s : Scan) :
    (found (.token t) s).outcome = do
      let tokens ← s.outcome
      return t :: tokens :=
  outcome_prepend [.token t] s

/-- A skipped character has no influence on the outcome. -/
theorem outcome_found_skipped (x : Skipped) (s : Scan) :
    (found (.skipped x) s).outcome = s.outcome := rfl

/-- The strict scan `s'` is the permissive scan `s`, or it ends at the first character
that `s` has set aside. -/
def StopsAtFirst (s s' : Scan) : Prop :=
  match s.skipped with
  | [] => s' = s
  | first :: _ => s'.outcome = .error (.unexpectedCharacter first.character first.span)

/-- A token in front of both scans changes nothing in how they are related. -/
theorem StopsAtFirst.found_token {s s' : Scan} (h : StopsAtFirst s s') (t : Token) :
    StopsAtFirst (found (.token t) s) (found (.token t) s') := by
  have hskipped : (found (.token t) s).skipped = s.skipped := rfl
  unfold StopsAtFirst at h ⊢
  rw [hskipped]
  cases hs : s.skipped with
  | nil =>
      simp only [hs] at h ⊢
      rw [h]
  | cons first more =>
      simp only [hs] at h ⊢
      rw [outcome_found_token, h]
      rfl

/-- **The strict scan ends at the first character that begins nothing**, and is the
permissive one if there is none. -/
theorem stopsAtFirst_run (p : Position) (text : List Char) :
    StopsAtFirst (run .skip p text) (run .reject p text) := by
  induction text using scan_induction generalizing p with
  | nil =>
      rw [run_nil, run_nil]
      exact rfl
  | blank c rest hblank ih =>
      rw [run_blank _ hblank, run_blank _ hblank]
      exact ih _
  | token lexeme rest kind value hmunch ih =>
      rw [run_munch _ hmunch, run_munch _ hmunch]
      exact (ih _).found_token _
  | nothing c rest hnothing ih =>
      have hfault : Fault .reject ([c] ++ rest) [c] _ := .character rfl rfl hnothing
      have hreject := run_fault p hfault
      rw [List.singleton_append] at hreject
      rw [run_skip _ hnothing, hreject]
      exact rfl
  | fault lexeme rest complaint hfault =>
      rw [run_fault _ (hfault .skip), run_fault _ (hfault .reject)]
      exact rfl

end Scan

open Scan

/-- Tokenizing is scanning from the beginning. -/
theorem outcome_tokenize (policy : Policy) (source : String) :
    (tokenize policy source).outcome = (run policy .origin source.toList).outcome :=
  Lexer.outcome_tokenize _

section

variable {source : String}

/-- The strict scan complains about the first character that the other one skips. -/
theorem tokenize_reject_of_cons {first : Skipped} {more : List Skipped}
    (h : (Lexer.ofSource source .skip).next.skipped = first :: more) :
    (tokenize .reject source).outcome =
      .error (.unexpectedCharacter first.character first.span) := by
  have hstops := stopsAtFirst_run .origin source.toList
  have hskipped : (run .skip .origin source.toList).skipped = first :: more := h
  simp only [StopsAtFirst, hskipped] at hstops
  rw [outcome_tokenize, hstops]

/-- If none is skipped, both scans have the same outcome. -/
theorem tokenize_reject_of_nil (h : (Lexer.ofSource source .skip).next.skipped = []) :
    (tokenize .reject source).outcome = (tokenize .skip source).outcome := by
  have hstops := stopsAtFirst_run .origin source.toList
  have hskipped : (run .skip .origin source.toList).skipped = [] := h
  simp only [StopsAtFirst, hskipped] at hstops
  rw [outcome_tokenize, outcome_tokenize, hstops]

end

/-- **Strictness is only a matter of the first character that begins nothing.**  If the
permissive lexer has set characters aside, the strict one complains about the first of
them, whatever comes later.  If it has not, the strict lexer gives the same answer.  So
a strict compilation succeeds exactly if the permissive one does and sets nothing
aside, and it has the same tokens, program and code. -/
theorem strict_stops_at_first_skipped (settings : Settings) (source : String) :
    (∀ first more, (Lexer.ofSource source .skip).next.skipped = first :: more →
      (tokenize .reject source).outcome =
        .error (.unexpectedCharacter first.character first.span)) ∧
    ((Lexer.ofSource source .skip).next.skipped = [] →
      (tokenize .reject source).outcome = (tokenize .skip source).outcome) ∧
    ∀ result, (compile (settings.strict true) source).outcome = .ok result ↔
      (compile (settings.strict false) source).outcome = .ok result ∧
        (Lexer.ofSource source .skip).next.skipped = [] := by
  refine ⟨fun first more => tokenize_reject_of_cons, tokenize_reject_of_nil, ?_⟩
  intro result
  have hstrict : (settings.strict true).policy = .reject := rfl
  have hpermissive : (settings.strict false).policy = .skip := rfl
  rw [outcome_compile, outcome_compile, hstrict, hpermissive]
  cases hskipped : (Lexer.ofSource source .skip).next.skipped with
  | nil =>
      rw [tokenize_reject_of_nil hskipped]
      exact (and_iff_left rfl).symm
  | cons first more =>
      rw [tokenize_reject_of_cons hskipped]
      apply iff_of_false
      · intro h
        cases h
      · intro h
        cases h.2

/-! ### The same spots -/

/-- Two points in the same line and column. -/
structure Position.SameSpot (p q : Position) : Prop where
  line : p.line = q.line
  column : p.column = q.column

namespace Position.SameSpot

variable {p q : Position}

/-- The same character leads from the same spot to the same spot. -/
theorem advance (h : p.SameSpot q) (c : Char) : (p.advance c).SameSpot (q.advance c) := by
  unfold Position.advance
  rw [h.line, h.column]
  split <;> exact ⟨rfl, rfl⟩

/-- So does the same text. -/
theorem advanceAll (h : p.SameSpot q) (text : List Char) :
    (p.advanceAll text).SameSpot (q.advanceAll text) := by
  induction text generalizing p q with
  | nil => exact h
  | cons c text ih => exact ih (h.advance c)

/-- A character that begins nothing moves as far as a space. -/
theorem advance_space (h : p.SameSpot q) {c : Char} (hc : BeginsNothing c) :
    (p.advance c).SameSpot (q.advance ' ') := by
  have hfeed : c ≠ '\n' := by
    rintro rfl
    exact absurd hc.notBlank (by decide)
  have hspace : ' ' ≠ '\n' := by decide
  unfold Position.advance
  rw [h.line, h.column, if_neg hfeed, if_neg hspace]
  exact ⟨rfl, rfl⟩

end Position.SameSpot

/-- Two stretches that begin in the same line and column and have as many bytes. -/
structure Span.SameSpot (s s' : Span) : Prop where
  line : s.line = s'.line
  column : s.column = s'.column
  width : s.stop - s.start = s'.stop - s'.start

/-- The places just past the same spots are the same spot. -/
theorem Span.SameSpot.after {s s' : Span} (h : s.SameSpot s') : s.after.SameSpot s'.after := by
  refine ⟨h.line, ?_, ?_⟩
  · simp only [Span.after, h.column, h.width]
  · simp only [Span.after, Nat.sub_self]

/-- The spans of a lexeme from the same spot on are at the same spot. -/
theorem Position.SameSpot.between {p q : Position} (h : p.SameSpot q) (lexeme : List Char) :
    (Span.between p (p.advanceAll lexeme)).SameSpot (.between q (q.advanceAll lexeme)) := by
  refine ⟨h.line, h.column, ?_⟩
  simp only [Span.between, Position.offset_advanceAll]
  omega

/-- Two diagnostics that say the same, at places that `P` relates. -/
structure Diagnostic.Elsewhere (P : Span → Span → Prop) (d d' : Diagnostic) : Prop where
  /-- Without their places they are the same. -/
  saying : d.relocate (fun _ => {}) = d'.relocate (fun _ => {})
  place : Option.Rel P d.span? d'.span?

/-- The same fault at another place is the same complaint elsewhere. -/
theorem Lexeme.Fault.elsewhere {policy : Policy} {text lexeme : List Char}
    {complaint : Span → Diagnostic} (h : Fault policy text lexeme complaint)
    {P : Span → Span → Prop} {s s' : Span} (hs : P s s') :
    (complaint s).Elsewhere P (complaint s') := by
  refine ⟨by rw [h.relocate_eq, h.relocate_eq], ?_⟩
  rw [h.span?_eq, h.span?_eq]
  exact .some hs

/-- Complaints that are alike at the same spots are the same elsewhere. -/
theorem Diagnostic.Alike.elsewhere {d d' : Diagnostic} (h : d.Alike Span.SameSpot d') :
    d.Elsewhere Span.SameSpot d' := by
  cases h with
  | endOfInput hspan => exact ⟨rfl, .some hspan.after⟩
  | @unexpectedToken expected t t' ht =>
      refine ⟨?_, .some ht.span⟩
      simp only [Diagnostic.relocate, Token.relocate, ht.kind, ht.value]
  | emptyExpression hspan => exact ⟨rfl, .some hspan⟩

/-! ### A text and its blanked form -/

/-- The second text is the first one with a space in place of each character that a
permissive scan sets aside.  Behind a fault nothing is set aside. -/
inductive Blanked : List Char → List Char → Prop
  | nil : Blanked [] []
  | blank {c : Char} {rest rest' : List Char} (hblank : Text.isBlank c = true)
      (tail : Blanked rest rest') : Blanked (c :: rest) (c :: rest')
  | token {lexeme rest rest' : List Char} {kind : Kind} {value : Value}
      (hmunch : Munch (lexeme ++ rest) lexeme kind value) (tail : Blanked rest rest') :
      Blanked (lexeme ++ rest) (lexeme ++ rest')
  | nothing {c : Char} {rest rest' : List Char} (hnothing : BeginsNothing c)
      (tail : Blanked rest rest') : Blanked (c :: rest) (' ' :: rest')
  | fault {lexeme rest : List Char} {complaint : Span → Diagnostic}
      (hfault : ∀ policy, Fault policy (lexeme ++ rest) lexeme complaint) :
      Blanked (lexeme ++ rest) (lexeme ++ rest)

/-- The blanked form begins like the text or with a space. -/
theorem Blanked.head?_eq {text text' : List Char} (h : Blanked text text') :
    text'.head? = text.head? ∨ text'.head? = some ' ' := by
  cases h with
  | nil => exact .inl rfl
  | blank hblank tail => exact .inl rfl
  | token hmunch tail =>
      obtain ⟨c, more, rest, rfl, -, -⟩ := hmunch.exists_cons
      exact .inl rfl
  | nothing hnothing tail => exact .inr rfl
  | fault hfault => exact .inl rfl

/-- A lexeme in front of a text is one in front of the blanked form, for a space does
not extend it. -/
theorem Blanked.munch {text text' lexeme : List Char} {kind : Kind} {value : Value}
    (h : Blanked text text') (hmunch : Munch (lexeme ++ text) lexeme kind value) :
    Munch (lexeme ++ text') lexeme kind value := by
  obtain ⟨halone, hstops⟩ := munch_append_iff.mp hmunch
  refine munch_append_iff.mpr ⟨halone, ?_⟩
  intro c hc
  rcases h.head?_eq with hsame | hspace
  · exact hstops c (hsame ▸ hc)
  · rw [Option.mem_def, hspace, Option.some.injEq] at hc
    subst hc
    exact extends?_of_isBlank lexeme (by decide)

/-- **A text and its blanked form have the same tokens at the same spots**, or fail in
the same way at the same spot. -/
theorem Blanked.agree {text text' : List Char} (h : Blanked text text') {p q : Position}
    (hpq : p.SameSpot q) :
    Agree (Diagnostic.Elsewhere Span.SameSpot) (Alikes Span.SameSpot)
      (run .skip p text).outcome (run .reject q text').outcome := by
  induction h generalizing p q with
  | nil =>
      rw [run_nil, run_nil]
      exact .ok .nil
  | @blank c rest rest' hblank tail ih =>
      rw [run_blank _ hblank, run_blank _ hblank]
      exact ih (hpq.advance c)
  | @token lexeme rest rest' kind value hmunch tail ih =>
      rw [run_munch _ hmunch, run_munch _ (tail.munch hmunch), outcome_found_token,
        outcome_found_token]
      refine (ih (hpq.advanceAll lexeme)).bind ?_
      intro tokens tokens' htokens
      exact .ok (.cons ⟨rfl, rfl, hpq.between lexeme⟩ htokens)
  | @nothing c rest rest' hnothing tail ih =>
      have hspace : Text.isBlank ' ' = true := by decide
      rw [run_skip _ hnothing, run_blank _ hspace, outcome_found_skipped]
      exact ih (hpq.advance_space hnothing)
  | @fault lexeme rest complaint hfault =>
      rw [run_fault _ (hfault .skip), run_fault _ (hfault .reject)]
      exact .error ((hfault .skip).elsewhere (hpq.between lexeme))

/-! ### Writing spaces -/

/-- A text that begins at `offset`, with a space in place of each character whose
offset is in `aside`. -/
def maskFrom (aside : Nat → Bool) (offset : Nat) : List Char → List Char
  | [] => []
  | c :: cs => (if aside offset then ' ' else c) :: maskFrom aside (offset + c.utf8Size) cs

/-- The source with a space in place of each character that the permissive lexer sets
aside. -/
def blanked (source : String) : String :=
  .ofList (maskFrom
    (fun offset => (Lexer.ofSource source .skip).next.skipped.any (·.span.start = offset))
    0 source.toList)

/-- Two texts are masked one after the other, the second from the bytes of the first on. -/
theorem maskFrom_append (aside : Nat → Bool) (offset : Nat) (left right : List Char) :
    maskFrom aside offset (left ++ right) =
      maskFrom aside offset left ++ maskFrom aside (offset + byteCount left) right := by
  induction left generalizing offset with
  | nil => rfl
  | cons c left ih => simp only [List.cons_append, maskFrom, ih, byteCount, Nat.add_assoc]

/-- Where nothing is set aside, the text stays. -/
theorem maskFrom_eq_self {aside : Nat → Bool} {offset : Nat} {text : List Char}
    (h : ∀ o, offset ≤ o → o < offset + byteCount text → aside o = false) :
    maskFrom aside offset text = text := by
  induction text generalizing offset with
  | nil => rfl
  | cons c text ih =>
      have hsize := c.utf8Size_pos
      rw [byteCount] at h
      have hhere : aside offset = false := h offset (Nat.le_refl _) (by omega)
      have hrest : maskFrom aside (offset + c.utf8Size) text = text :=
        ih fun o hle hlt => h o (by omega) (by omega)
      rw [maskFrom, hhere, hrest]
      rfl

/-- From `before` on, `aside` holds of the offsets of those characters that the
permissive scan of `text` sets aside. -/
def Marks (aside : Nat → Bool) (before text : List Char) : Prop :=
  ∀ offset, byteCount before ≤ offset →
    (aside offset = true ↔
      ∃ s ∈ (run .skip (Position.origin.advanceAll before) text).skipped, s.span.start = offset)

/-- What is skipped stands behind what was read before. -/
theorem le_start_of_mem_skipped {before text : List Char} {s : Skipped}
    (hs : s ∈ (run .skip (Position.origin.advanceAll before) text).skipped) :
    byteCount before ≤ s.span.start := by
  obtain ⟨after, left, hpasses, -⟩ := isWalk_run .skip before text
  exact hpasses.le_start _ (skipped_mem_of_mem_skipped hs)

section

variable {aside : Nat → Bool} {before lexeme rest : List Char}

/-- What the scan passes over without setting it aside stays. -/
theorem Marks.pass (h : Marks aside before (lexeme ++ rest))
    (hsame : (run .skip (Position.origin.advanceAll before) (lexeme ++ rest)).skipped =
      (run .skip (Position.origin.advanceAll (before ++ lexeme)) rest).skipped) :
    maskFrom aside (byteCount before) (lexeme ++ rest) =
        lexeme ++ maskFrom aside (byteCount (before ++ lexeme)) rest ∧
      Marks aside (before ++ lexeme) rest := by
  unfold Marks at h
  rw [hsame] at h
  refine ⟨?_, ?_⟩
  · rw [maskFrom_append, byteCount_append, maskFrom_eq_self]
    intro offset hle hlt
    rw [← Bool.not_eq_true, h offset hle]
    rintro ⟨s, hs, rfl⟩
    have hstart := le_start_of_mem_skipped hs
    rw [byteCount_append] at hstart
    omega
  · intro offset hle
    rw [byteCount_append] at hle
    exact h offset (by omega)

/-- A character that is set aside becomes a space. -/
theorem Marks.skip {c : Char} (h : Marks aside before (c :: rest)) (hc : BeginsNothing c) :
    maskFrom aside (byteCount before) (c :: rest) =
        ' ' :: maskFrom aside (byteCount (before ++ [c])) rest ∧
      Marks aside (before ++ [c]) rest := by
  have hsize := c.utf8Size_pos
  have hcount : byteCount (before ++ [c]) = byteCount before + c.utf8Size := by
    simp only [byteCount_append, byteCount, Nat.add_zero]
  have hskipped : (run .skip (Position.origin.advanceAll before) (c :: rest)).skipped =
      ⟨c, .covering before [c]⟩ ::
        (run .skip (Position.origin.advanceAll (before ++ [c])) rest).skipped := by
    rw [run_skip _ hc, Span.covering, Position.advanceAll_append]
    rfl
  unfold Marks at h
  rw [hskipped] at h
  refine ⟨?_, ?_⟩
  · have hhere : aside (byteCount before) = true :=
      (h _ (Nat.le_refl _)).mpr ⟨_, List.mem_cons_self, Span.start_covering _ _⟩
    rw [maskFrom, hhere, hcount]
    rfl
  · intro offset hle
    rw [hcount] at hle
    rw [h offset (by omega), List.exists_mem_cons_iff, Span.start_covering]
    exact or_iff_right (by omega)

end

/-- **Writing spaces over what is set aside gives the blanked form.** -/
theorem blanked_maskFrom {aside : Nat → Bool} {before text : List Char}
    (h : Marks aside before text) :
    Blanked text (maskFrom aside (byteCount before) text) := by
  induction text using scan_induction generalizing before with
  | nil => exact .nil
  | blank c rest hblank ih =>
      rw [← List.singleton_append] at h
      obtain ⟨hmask, hrest⟩ := h.pass (by
        rw [List.singleton_append, run_blank _ hblank, Position.advanceAll_append]
        rfl)
      rw [← List.singleton_append, hmask]
      exact .blank hblank (ih hrest)
  | token lexeme rest kind value hmunch ih =>
      obtain ⟨hmask, hrest⟩ := h.pass (by
        rw [run_munch _ hmunch, Position.advanceAll_append]
        rfl)
      rw [hmask]
      exact .token hmunch (ih hrest)
  | nothing c rest hnothing ih =>
      obtain ⟨hmask, hrest⟩ := h.skip hnothing
      rw [hmask]
      exact .nothing hnothing (ih hrest)
  | fault lexeme rest complaint hfault =>
      rw [maskFrom_eq_self]
      · exact .fault hfault
      · intro offset hle hlt
        have hnone := h offset hle
        rw [run_fault _ (hfault .skip)] at hnone
        rw [← Bool.not_eq_true, hnone]
        simp [Scan.skipped]

/-- The masked source is the source with blanks for what is skipped. -/
theorem blanked_toList (source : String) : Blanked source.toList (blanked source).toList := by
  have hmarks : Marks
      (fun offset => (Lexer.ofSource source .skip).next.skipped.any (·.span.start = offset))
      [] source.toList := by
    intro offset _
    simp only [List.any_eq_true, decide_eq_true_eq]
    rfl
  rw [blanked, String.toList_ofList]
  exact blanked_maskFrom hmarks

/-- The masked source is tokenized strictly as the source is leniently, up to bytes. -/
theorem tokenize_blanked (source : String) :
    Agree (Diagnostic.Elsewhere Span.SameSpot) (Alikes Span.SameSpot)
      (tokenize .skip source).outcome (tokenize .reject (blanked source)).outcome := by
  rw [outcome_tokenize, outcome_tokenize]
  exact (blanked_toList source).agree ⟨rfl, rfl⟩

/-- A permissive lexer only fails on a number or on a literal. -/
theorem number_or_literal_of_tokenize {source : String} {d : Diagnostic}
    (h : (tokenize .skip source).outcome = .error d) :
    (∃ run span, d = .invalidNumber run span) ∨
      ∃ mark span, d = .unterminatedLiteral mark span := by
  rw [tokenize_eq_error_iff, fault?_run_eq_some_iff] at h
  obtain ⟨before, lexeme, rest, complaint, -, hfault, rfl⟩ := h
  generalize lexeme ++ rest = text at hfault
  cases hfault with
  | number hfirst hstart hlexeme hpoints => exact .inl ⟨_, _, rfl⟩
  | literal hmark hbegins hbody => exact .inr ⟨_, _, rfl⟩
  | character hpolicy hbegins hc => cases hpolicy

/-- **A character that is set aside means a blank.**  If each of them is replaced by a
space, the strict lexer finds the same tokens in the same lines and columns that the
permissive one finds in the source, or it fails on the same number or literal at the
same spot.  So strict compilation of the one has the program and the code of permissive
compilation of the other, or fails with the same complaint at the same spot. -/
theorem compile_blanked (settings : Settings) (source : String) :
    Agree (Diagnostic.Elsewhere Span.SameSpot) (Alikes Span.SameSpot)
        (tokenize .skip source).outcome (tokenize .reject (blanked source)).outcome ∧
      (∀ d, (tokenize .skip source).outcome = .error d →
        (∃ run span, d = .invalidNumber run span) ∨
          ∃ mark span, d = .unterminatedLiteral mark span) ∧
      Agree (Diagnostic.Elsewhere Span.SameSpot)
        (fun c c' => c.program = c'.program ∧ c.code = c'.code)
        (compile (settings.strict false) source).outcome
        (compile (settings.strict true) (blanked source)).outcome := by
  refine ⟨tokenize_blanked source, fun d => number_or_literal_of_tokenize, ?_⟩
  rw [outcome_compile, outcome_compile]
  refine (tokenize_blanked source).bind ?_
  intro tokens tokens' htokens
  refine ((parse_agree htokens).imp_error fun d d' h => h.elsewhere).bind ?_
  rintro program _ rfl
  exact .ok ⟨rfl, rfl⟩

end SochoScript
