import SochoScript.Proofs.Munch
import SochoScript.Token.Lexer

/-!
# The walk of a scan

A scan as a walk over the source, with everything that was passed kept in view.
`Passes policy before text pieces after left` says that the walk may start
behind `before` with `text` still to come, find `pieces` and arrive behind
`after` with `left` still to come.  Each step passes one blank, one lexeme that
the rules of `Munch` allow, or one character that is set aside.  The places of
the pieces are counted from the beginning of the source.

The relation knows nothing of counters and of cutting, and the two directions of
its agreement with `Scan.run` are all that the later modules need.

* `run_of_passes`: the scan follows every walk.
* `isWalk_run`: the scan itself is a walk, and it ends at the end of the source
  or at a fault.
* `Passes.split`: a walk can be taken apart at every piece.
* `tokenize_maximal_munch`: **the tokens are found by maximal munch**, and the
  failures are the faults that the walk reaches.
-/

namespace SochoScript

/-- The place of `lexeme` in a source that begins with `before` and `lexeme`. -/
def Span.covering (before lexeme : List Char) : Span :=
  .between (Position.origin.advanceAll before) (Position.origin.advanceAll (before ++ lexeme))

/-- The span of a lexeme begins behind the bytes before it. -/
@[simp] theorem Span.start_covering (before lexeme : List Char) :
    (Span.covering before lexeme).start = byteCount before := by
  simp [Span.covering, Span.between, Position.offset_advanceAll, Position.origin]

/-- It ends behind its own bytes. -/
@[simp] theorem Span.stop_covering (before lexeme : List Char) :
    (Span.covering before lexeme).stop = byteCount (before ++ lexeme) := by
  simp [Span.covering, Span.between, Position.offset_advanceAll, Position.origin]

namespace Scan

open Lexeme

/-- The piece that is found behind `before`, where the source goes on with
`lexeme` and `rest`. -/
inductive Finds (policy : Policy) (before lexeme rest : List Char) : Piece → Prop
  | token {kind : Kind} {value : Value} (hmunch : Munch (lexeme ++ rest) lexeme kind value) :
      Finds policy before lexeme rest (.token ⟨kind, value, .covering before lexeme⟩)
  | skipped {c : Char} (hpolicy : policy = .skip) (hnothing : BeginsNothing c)
      (hlexeme : lexeme = [c]) :
      Finds policy before lexeme rest (.skipped ⟨c, .covering before lexeme⟩)

/-- The walk from behind `before`, where `text` follows, to behind `after`, where
`left` follows. -/
inductive Passes (policy : Policy) :
    List Char → List Char → List Piece → List Char → List Char → Prop
  | here (before text : List Char) : Passes policy before text [] before text
  | blank {c : Char} {before text after left : List Char} {pieces : List Piece}
      (hblank : Text.isBlank c = true)
      (tail : Passes policy (before ++ [c]) text pieces after left) :
      Passes policy before (c :: text) pieces after left
  | piece {before lexeme text after left : List Char} {piece : Piece} {pieces : List Piece}
      (hfinds : Finds policy before lexeme text piece)
      (tail : Passes policy (before ++ lexeme) text pieces after left) :
      Passes policy before (lexeme ++ text) (piece :: pieces) after left

/-- The walk can arrive behind `before`, where `text` follows. -/
def Reaches (policy : Policy) (source before text : List Char) : Prop :=
  ∃ pieces, Passes policy [] source pieces before text

/-! ### The scan follows the walk -/

/-- One piece of the walk is one piece of the scan. -/
theorem Finds.run_eq {policy : Policy} {before lexeme text : List Char} {piece : Piece}
    (h : Finds policy before lexeme text piece) :
    run policy (Position.origin.advanceAll before) (lexeme ++ text) =
      found piece (run policy (Position.origin.advanceAll (before ++ lexeme)) text) := by
  cases h with
  | token hmunch =>
      rw [run_munch _ hmunch, ← Position.advanceAll_append]
      rfl
  | skipped hpolicy hnothing hlexeme =>
      subst hpolicy hlexeme
      rw [List.singleton_append, run_skip _ hnothing, Position.advanceAll_append]
      simp [Span.covering, Position.advanceAll_append]

/-- The scan follows every walk. -/
theorem run_of_passes {policy : Policy} {before text after left : List Char}
    {pieces : List Piece} (h : Passes policy before text pieces after left) :
    run policy (Position.origin.advanceAll before) text =
      { run policy (Position.origin.advanceAll after) left with
        pieces := pieces ++ (run policy (Position.origin.advanceAll after) left).pieces } := by
  induction h with
  | here before text => rfl
  | blank hblank tail ih =>
      rw [Position.advanceAll_append] at ih
      rw [run_blank _ hblank]
      exact ih
  | piece hfinds tail ih =>
      rw [hfinds.run_eq, ih]
      rfl

/-- The result `s` is that of a walk from behind `before` over `text`, which ends at
the end of the text or at a fault. -/
def IsWalk (policy : Policy) (before text : List Char) (s : Scan) : Prop :=
  ∃ after left, Passes policy before text s.pieces after left ∧
    ((left = [] ∧ s.fault? = none) ∨
      ∃ lexeme rest complaint, left = lexeme ++ rest ∧ Fault policy left lexeme complaint ∧
        s.fault? = some (complaint (.covering after lexeme)))

/-- A walk may begin with a blank. -/
theorem IsWalk.blank {policy : Policy} {c : Char} {before text : List Char} {s : Scan}
    (hblank : Text.isBlank c = true) (h : IsWalk policy (before ++ [c]) text s) :
    IsWalk policy before (c :: text) s := by
  obtain ⟨after, left, hpasses, hend⟩ := h
  exact ⟨after, left, .blank hblank hpasses, hend⟩

/-- A walk may begin with what is found. -/
theorem IsWalk.found {policy : Policy} {before lexeme text : List Char} {piece : Piece}
    {s : Scan} (hfinds : Finds policy before lexeme text piece)
    (h : IsWalk policy (before ++ lexeme) text s) :
    IsWalk policy before (lexeme ++ text) (found piece s) := by
  obtain ⟨after, left, hpasses, hend⟩ := h
  exact ⟨after, left, .piece hfinds hpasses, hend⟩

/-- A scan that meets a fault at once is a walk of no steps. -/
theorem isWalk_of_fault {policy : Policy} {before lexeme rest : List Char}
    {complaint : Span → Diagnostic} (h : Fault policy (lexeme ++ rest) lexeme complaint) :
    IsWalk policy before (lexeme ++ rest)
      (run policy (Position.origin.advanceAll before) (lexeme ++ rest)) := by
  rw [run_fault _ h, ← Position.advanceAll_append]
  exact ⟨before, lexeme ++ rest, .here _ _, .inr ⟨lexeme, rest, complaint, rfl, h, rfl⟩⟩

/-- **The scan is a walk.** -/
theorem isWalk_run (policy : Policy) (before text : List Char) :
    IsWalk policy before text (run policy (Position.origin.advanceAll before) text) := by
  induction text using scan_induction generalizing before with
  | nil =>
      rw [run_nil]
      exact ⟨before, [], .here _ _, .inl ⟨rfl, rfl⟩⟩
  | blank c rest hblank ih =>
      have hrest := ih (before ++ [c])
      rw [Position.advanceAll_append] at hrest
      rw [run_blank _ hblank]
      exact hrest.blank hblank
  | token lexeme rest kind value hmunch ih =>
      have hfinds : Finds policy before _ _ _ := .token hmunch
      rw [hfinds.run_eq]
      exact (ih _).found hfinds
  | nothing c rest hnothing ih =>
      cases policy with
      | skip =>
          have hfinds : Finds .skip before [c] rest _ := .skipped rfl hnothing rfl
          rw [← List.singleton_append, hfinds.run_eq]
          exact (ih _).found hfinds
      | reject =>
          have hfault : Fault .reject ([c] ++ rest) [c] _ := .character rfl rfl hnothing
          exact isWalk_of_fault hfault
  | fault lexeme rest complaint hfault => exact isWalk_of_fault (hfault policy)

/-! ### Taking a walk apart -/

/-- A walk loses nothing of the source. -/
theorem Passes.append_eq {policy : Policy} {before text after left : List Char}
    {pieces : List Piece} (h : Passes policy before text pieces after left) :
    before ++ text = after ++ left := by
  induction h with
  | here before text => rfl
  | blank hblank tail ih => rw [← ih, List.append_assoc, List.singleton_append]
  | piece hfinds tail ih => rw [← ih, List.append_assoc]

/-- A walk can be taken apart at every piece. -/
theorem Passes.split {policy : Policy} {before text after left : List Char} {piece : Piece}
    {pieces earlier later : List Piece} (h : Passes policy before text pieces after left)
    (hpieces : pieces = earlier ++ piece :: later) :
    ∃ place lexeme rest, Passes policy before text earlier place (lexeme ++ rest) ∧
      Finds policy place lexeme rest piece ∧
      Passes policy (place ++ lexeme) rest later after left := by
  induction h generalizing earlier with
  | here before text => simp at hpieces
  | blank hblank tail ih =>
      obtain ⟨place, lexeme, rest, hearlier, hfinds, hlater⟩ := ih hpieces
      exact ⟨place, lexeme, rest, .blank hblank hearlier, hfinds, hlater⟩
  | @piece before lexeme text after left first pieces hfinds tail ih =>
      cases earlier with
      | nil =>
          rw [List.nil_append, List.cons.injEq] at hpieces
          obtain ⟨rfl, rfl⟩ := hpieces
          exact ⟨before, lexeme, text, .here _ _, hfinds, tail⟩
      | cons other earlier =>
          rw [List.cons_append, List.cons.injEq] at hpieces
          obtain ⟨rfl, hpieces⟩ := hpieces
          obtain ⟨place, found, rest, hearlier, hhere, hlater⟩ := ih hpieces
          exact ⟨place, found, rest, .piece hfinds hearlier, hhere, hlater⟩

/-- The character `c` behind `before` is blank, or it is one of those set aside. -/
def IsAside (skipped : List Skipped) (before : List Char) (c : Char) : Prop :=
  Text.isBlank c = true ∨
    ∃ s ∈ skipped, s.character = c ∧ s.span.start = byteCount before

/-- All characters of `gap`, which stands behind `before`, are blank or set aside. -/
def IsGap (skipped : List Skipped) (before gap : List Char) : Prop :=
  ∀ left c right, gap = left ++ c :: right → IsAside skipped (before ++ left) c

/-- A gap may begin with one more character that is set aside. -/
theorem isGap_cons {skipped : List Skipped} {before gap : List Char} {c : Char}
    (hc : IsAside skipped before c) (h : IsGap skipped (before ++ [c]) gap) :
    IsGap skipped before (c :: gap) := by
  intro left d right heq
  cases left with
  | nil =>
      rw [List.nil_append, List.cons.injEq] at heq
      obtain ⟨rfl, rfl⟩ := heq
      rwa [List.append_nil]
  | cons e left =>
      rw [List.cons_append, List.cons.injEq] at heq
      obtain ⟨rfl, rfl⟩ := heq
      have hd := h left d right rfl
      rwa [List.append_assoc, List.singleton_append] at hd

/-- A walk without a token passes over a gap. -/
theorem Passes.isGap {policy : Policy} {before text after left : List Char}
    {pieces : List Piece} {skipped : List Skipped}
    (h : Passes policy before text pieces after left) (htokens : pieces.filterMap Piece.token? = [])
    (hskipped : ∀ s ∈ pieces.filterMap Piece.skipped?, s ∈ skipped) :
    ∃ gap, after = before ++ gap ∧ IsGap skipped before gap := by
  induction h with
  | here before text => exact ⟨[], by simp, by intro left c right h; simp at h⟩
  | @blank c before text after left pieces hblank tail ih =>
      obtain ⟨gap, rfl, hgap⟩ := ih htokens hskipped
      exact ⟨c :: gap, by simp, isGap_cons (.inl hblank) hgap⟩
  | @piece before lexeme text after left first pieces hfinds tail ih =>
      cases hfinds with
      | token hmunch => simp [Piece.token?] at htokens
      | @skipped c hpolicy hnothing hlexeme =>
          subst hlexeme
          have hmem := hskipped _ (List.mem_filterMap.mpr ⟨_, List.mem_cons_self, rfl⟩)
          have hrest : ∀ s ∈ pieces.filterMap Piece.skipped?, s ∈ skipped := by
            intro s hs
            apply hskipped
            rw [List.filterMap_cons]
            exact List.mem_cons_of_mem _ hs
          obtain ⟨gap, rfl, hgap⟩ := ih (by simpa [Piece.token?] using htokens) hrest
          refine ⟨c :: gap, by simp, isGap_cons (.inr ⟨_, hmem, rfl, ?_⟩) hgap⟩
          exact Span.start_covering before [c]

/-- The offset behind the last of some tokens, or the beginning of the source. -/
def lastStop (tokens : List Token) : Nat :=
  (tokens.getLast?.map fun t => t.span.stop).getD 0

/-- The tokens of a scan are among its pieces. -/
theorem token_mem_of_mem_tokens {pieces : List Piece} {t : Token}
    (h : t ∈ pieces.filterMap Piece.token?) : .token t ∈ pieces := by
  obtain ⟨piece, hpiece, hsome⟩ := List.mem_filterMap.mp h
  cases piece with
  | token u =>
      cases hsome
      exact hpiece
  | skipped s => cases hsome

/-- So are the skipped characters. -/
theorem skipped_mem_of_mem_skipped {pieces : List Piece} {s : Skipped}
    (h : s ∈ pieces.filterMap Piece.skipped?) : .skipped s ∈ pieces := by
  obtain ⟨piece, hpiece, hsome⟩ := List.mem_filterMap.mp h
  cases piece with
  | token t => cases hsome
  | skipped u =>
      cases hsome
      exact hpiece

/-- Each token of a scan is one of its pieces. -/
theorem split_of_tokens {pieces : List Piece} {earlier later : List Token} {t : Token}
    (h : pieces.filterMap Piece.token? = earlier ++ t :: later) :
    ∃ left right, pieces = left ++ .token t :: right ∧
      left.filterMap Piece.token? = earlier ∧ right.filterMap Piece.token? = later := by
  obtain ⟨front, back, rfl, hfront, hback⟩ := List.filterMap_eq_append_iff.mp h
  obtain ⟨aside, piece, right, rfl, haside, hpiece, hright⟩ := List.filterMap_eq_cons_iff.mp hback
  cases piece with
  | skipped s => cases hpiece
  | token u =>
      cases hpiece
      refine ⟨front ++ aside, right, by simp, ?_, hright⟩
      rw [List.filterMap_append, hfront, List.filterMap_eq_nil_iff.mpr haside, List.append_nil]

/-- Behind the last token of a walk there is only a gap. -/
theorem Passes.isGap_lastStop {policy : Policy} {source after left : List Char}
    {pieces : List Piece} {skipped : List Skipped} (h : Passes policy [] source pieces after left)
    (hskipped : ∀ s ∈ pieces.filterMap Piece.skipped?, s ∈ skipped) :
    ∃ passed gap, after = passed ++ gap ∧
      byteCount passed = lastStop (pieces.filterMap Piece.token?) ∧ IsGap skipped passed gap := by
  rcases List.eq_nil_or_concat (pieces.filterMap Piece.token?) with hnil | ⟨earlier, u, hconcat⟩
  · obtain ⟨gap, hafter, hgap⟩ := h.isGap hnil hskipped
    exact ⟨[], gap, hafter, by simp [hnil, lastStop, byteCount], hgap⟩
  · rw [List.concat_eq_append] at hconcat
    obtain ⟨front, back, rfl, hfront, hback⟩ := split_of_tokens hconcat
    obtain ⟨place, lexeme, rest, -, hfinds, hlater⟩ := h.split rfl
    have hrest : ∀ s ∈ back.filterMap Piece.skipped?, s ∈ skipped := by
      intro s hs
      apply hskipped
      rw [List.filterMap_append, List.filterMap_cons]
      exact List.mem_append_right _ hs
    obtain ⟨gap, rfl, hgap⟩ := hlater.isGap hback hrest
    refine ⟨place ++ lexeme, gap, rfl, ?_, hgap⟩
    cases hfinds with
    | token hmunch => simp [hconcat, lastStop]

/-- A token does not begin with a character that begins nothing. -/
theorem not_munch_of_beginsNothing {c : Char} {text lexeme : List Char} {kind : Kind}
    {value : Value} (hnothing : BeginsNothing c) (hhead : text.head? = some c) :
    ¬ Munch text lexeme kind value := by
  intro hmunch
  obtain ⟨d, cs, rfl, hblank, htext, hmeaning⟩ := hmunch.exists_cut
  cases hhead
  have htoken := hmeaning {}
  rw [hnothing.cut_eq] at htoken
  cases htoken

/-- What is set aside begins nothing. -/
theorem Passes.beginsNothing {policy : Policy} {before text after left : List Char}
    {pieces : List Piece} {s : Skipped} (h : Passes policy before text pieces after left)
    (hs : s ∈ pieces.filterMap Piece.skipped?) : BeginsNothing s.character := by
  obtain ⟨earlier, later, hsplit⟩ := List.append_of_mem (skipped_mem_of_mem_skipped hs)
  obtain ⟨place, lexeme, rest, -, hfinds, -⟩ := h.split hsplit
  cases hfinds with
  | skipped hpolicy hnothing hlexeme => exact hnothing

/-- The token `t` is the lexeme at the first place behind `offset` that is neither
blank nor set aside. -/
def IsMunched (source : List Char) (skipped : List Skipped) (offset : Nat) (t : Token) : Prop :=
  ∃ passed gap lexeme rest, source = passed ++ gap ++ (lexeme ++ rest) ∧
    byteCount passed = offset ∧ IsGap skipped passed gap ∧
    (∀ c, (lexeme ++ rest).head? = some c → ¬ IsAside skipped (passed ++ gap) c) ∧
    t.span.start = byteCount (passed ++ gap) ∧
    t.span.stop = byteCount (passed ++ gap ++ lexeme) ∧
    Munch (lexeme ++ rest) lexeme t.kind t.value

/-- Each token of a walk is munched behind the one before it. -/
theorem Passes.isMunched {policy : Policy} {source after left : List Char}
    {pieces : List Piece} {earlier later : List Token} {t : Token}
    (h : Passes policy [] source pieces after left)
    (htokens : pieces.filterMap Piece.token? = earlier ++ t :: later) :
    IsMunched source (pieces.filterMap Piece.skipped?) (lastStop earlier) t := by
  obtain ⟨front, back, rfl, rfl, -⟩ := split_of_tokens htokens
  obtain ⟨place, lexeme, rest, hearlier, hfinds, -⟩ := h.split rfl
  have hskipped : ∀ s ∈ front.filterMap Piece.skipped?,
      s ∈ (front ++ Piece.token t :: back).filterMap Piece.skipped? := by
    intro s hs
    rw [List.filterMap_append]
    exact List.mem_append_left _ hs
  obtain ⟨passed, gap, rfl, hpassed, hgap⟩ := hearlier.isGap_lastStop hskipped
  have hsource := hearlier.append_eq
  cases hfinds with
  | token hmunch =>
      refine ⟨passed, gap, lexeme, rest, hsource, hpassed, hgap, ?_, ?_, ?_, hmunch⟩
      · intro c hhead haside
        rcases haside with hblank | ⟨s, hs, rfl, hstart⟩
        · obtain ⟨d, cs, htext, hnotBlank, -⟩ := hmunch.exists_cut
          rw [htext] at hhead
          cases hhead
          rw [hnotBlank] at hblank
          cases hblank
        · exact not_munch_of_beginsNothing (h.beginsNothing hs) hhead hmunch
      · exact Span.start_covering (passed ++ gap) lexeme
      · exact Span.stop_covering (passed ++ gap) lexeme

/-- A scan of a source ends in a fault exactly when the walk reaches one. -/
theorem fault?_run_eq_some_iff {policy : Policy} {source : List Char} {d : Diagnostic} :
    (run policy .origin source).fault? = some d ↔
      ∃ before lexeme rest complaint, Reaches policy source before (lexeme ++ rest) ∧
        Fault policy (lexeme ++ rest) lexeme complaint ∧
        d = complaint (.covering before lexeme) := by
  apply Iff.intro
  · intro h
    obtain ⟨after, left, hpasses, hend⟩ := isWalk_run policy [] source
    rcases hend with ⟨-, hnone⟩ | ⟨lexeme, rest, complaint, rfl, hfault, hsome⟩
    · rw [Position.advanceAll_nil, h] at hnone
      cases hnone
    · rw [Position.advanceAll_nil, h, Option.some.injEq] at hsome
      exact ⟨after, lexeme, rest, complaint, ⟨_, hpasses⟩, hfault, hsome⟩
  · intro h
    obtain ⟨before, lexeme, rest, complaint, ⟨pieces, hpasses⟩, hfault, rfl⟩ := h
    have hrun := run_of_passes hpasses
    rw [Position.advanceAll_nil, run_fault _ hfault, ← Position.advanceAll_append] at hrun
    rw [hrun]
    rfl

end Scan

open Scan Lexeme

/-- Tokenizing fails exactly with the fault of its scan. -/
theorem tokenize_eq_error_iff {policy : Policy} {source : String} {d : Diagnostic} :
    (tokenize policy source).outcome = .error d ↔
      (run policy .origin source.toList).fault? = some d := by
  have hscan : (Lexer.ofSource source policy).scan = run policy .origin source.toList := rfl
  simp only [tokenize, Lexer.tokenize, hscan]
  cases (run policy .origin source.toList).fault? <;> simp

/-- Without a fault it gives the tokens of its scan. -/
theorem tokenize_eq_ok_iff {policy : Policy} {source : String} {tokens : List Token} :
    (tokenize policy source).outcome = .ok tokens ↔
      (run policy .origin source.toList).fault? = none ∧
        (run policy .origin source.toList).tokens = tokens := by
  have hscan : (Lexer.ofSource source policy).scan = run policy .origin source.toList := rfl
  simp only [tokenize, Lexer.tokenize, hscan]
  cases (run policy .origin source.toList).fault? <;> simp

/-- A walk to the end of a source finds its tokens. -/
theorem tokenize_of_passes {policy : Policy} {source : String} {pieces : List Piece}
    {after : List Char} (h : Passes policy [] source.toList pieces after []) :
    (tokenize policy source).outcome = .ok (pieces.filterMap Piece.token?) := by
  have hrun := run_of_passes h
  rw [Position.advanceAll_nil, run_nil] at hrun
  rw [tokenize_eq_ok_iff, hrun, Scan.tokens, List.append_nil]
  exact ⟨rfl, rfl⟩

/-- The tokens of a source that is not refused are found by a walk to its end. -/
theorem exists_passes_of_tokenize {policy : Policy} {source : String} {tokens : List Token}
    (h : (tokenize policy source).outcome = .ok tokens) :
    ∃ pieces, Passes policy [] source.toList pieces source.toList [] ∧
      tokens = pieces.filterMap Piece.token? ∧
      (Lexer.ofSource source policy).next.skipped = pieces.filterMap Piece.skipped? := by
  obtain ⟨hnone, rfl⟩ := tokenize_eq_ok_iff.mp h
  obtain ⟨after, left, hpasses, hend⟩ := isWalk_run policy [] source.toList
  rw [Position.advanceAll_nil] at hpasses hend
  rcases hend with ⟨rfl, -⟩ | ⟨lexeme, rest, complaint, -, -, hsome⟩
  · have hsource : source.toList = after := by simpa using hpasses.append_eq
    subst hsource
    exact ⟨_, hpasses, rfl, rfl⟩
  · rw [hnone] at hsome
    cases hsome

/-- Every token of a source is a lexeme that stands at its place. -/
theorem exists_munch_of_tokenize {policy : Policy} {source : String} {tokens : List Token}
    {t : Token} (h : (tokenize policy source).outcome = .ok tokens) (ht : t ∈ tokens) :
    ∃ before lexeme rest, source.toList = before ++ (lexeme ++ rest) ∧
      t.span = .covering before lexeme ∧ Munch (lexeme ++ rest) lexeme t.kind t.value := by
  obtain ⟨pieces, hpasses, rfl, -⟩ := exists_passes_of_tokenize h
  obtain ⟨earlier, later, hsplit⟩ := List.append_of_mem (token_mem_of_mem_tokens ht)
  obtain ⟨before, lexeme, rest, hearlier, hfinds, -⟩ := hpasses.split hsplit
  cases hfinds with
  | token hmunch => exact ⟨before, lexeme, rest, hearlier.append_eq, rfl, hmunch⟩

/-- **Maximal munch.**  Every token of a source is the lexeme at the first place
behind the token before it that is neither blank nor set aside, and behind the
last token there is nothing else.  The source is refused exactly when the walk
from left to right reaches a number with two points, a literal without its end,
or, if these are rejected, a character that begins nothing. -/
theorem tokenize_maximal_munch (policy : Policy) (source : String) :
    (∀ tokens, (tokenize policy source).outcome = .ok tokens →
      (∀ earlier t later, tokens = earlier ++ t :: later →
        IsMunched source.toList (Lexer.ofSource source policy).next.skipped (lastStop earlier) t) ∧
      ∃ passed gap, source.toList = passed ++ gap ∧ byteCount passed = lastStop tokens ∧
        IsGap (Lexer.ofSource source policy).next.skipped passed gap) ∧
    (∀ d, (tokenize policy source).outcome = .error d ↔
      ∃ before lexeme rest complaint, Reaches policy source.toList before (lexeme ++ rest) ∧
        Fault policy (lexeme ++ rest) lexeme complaint ∧
        d = complaint (.covering before lexeme)) := by
  refine ⟨?_, ?_⟩
  · intro tokens hok
    obtain ⟨pieces, hpasses, rfl, hskipped⟩ := exists_passes_of_tokenize hok
    rw [hskipped]
    refine ⟨?_, hpasses.isGap_lastStop fun s hs => hs⟩
    intro earlier t later htokens
    exact hpasses.isMunched htokens
  · intro d
    rw [tokenize_eq_error_iff, fault?_run_eq_some_iff]

end SochoScript
