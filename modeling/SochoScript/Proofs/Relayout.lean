import SochoScript.Proofs.Layout
import SochoScript.Proofs.Rereading
import SochoScript.Proofs.Places
import SochoScript.Compilation

/-!
# Layout does not matter

The lexemes of a source may be laid out anew, with any blanks in front of them,
behind them and between them, as long as there is at least one between two.
Blanks inside of a literal belong to its lexeme and stay as they are, and
characters that were set aside are gone.

The new text is scanned without a complaint, and its tokens differ from those of
the source in nothing but their places.  The parser only hands these on, so that
nothing else changes in what it says.

* `LaidOut.exists_passes`: each lexeme is found again behind its blanks.
* `tokenize_relaid`: the tokens of the new text are those of the source elsewhere.
* `compile_relaid`: **program and code do not hang on the layout**, and neither does
  what is complained about.
-/

namespace SochoScript

open Lexeme Scan

/-- Any two places. -/
def Anywhere (_ _ : Span) : Prop := True

/-- The lexemes of the tokens with blanks behind each of them, where two lexemes are
always kept apart. -/
inductive LaidOut (source : List Char) : List Token → List Char → Prop
  | nil : LaidOut source [] []
  | cons {t : Token} {tokens : List Token} {lexeme gap text : List Char}
      (hlexeme : t.span.Covers source lexeme) (hgap : All Text.isBlank gap)
      (hapart : tokens ≠ [] → gap ≠ []) (tail : LaidOut source tokens text) :
      LaidOut source (t :: tokens) (lexeme ++ (gap ++ text))

/-- The text has the lexemes of the tokens, which stand in the source, in a layout
of its own. -/
def Relaid (source : String) (tokens : List Token) (text : String) : Prop :=
  ∃ lead body, text.toList = lead ++ body ∧ All Text.isBlank lead ∧
    LaidOut source.toList tokens body

/-! ### The tokens of a new layout -/

/-- A walk passes over blanks. -/
theorem passes_blanks {policy : Policy} {before gap text after left : List Char}
    {pieces : List Piece} (hgap : All Text.isBlank gap)
    (h : Passes policy (before ++ gap) text pieces after left) :
    Passes policy before (gap ++ text) pieces after left := by
  induction gap generalizing before with
  | nil => simpa using h
  | cons c gap ih =>
      refine .blank (hgap c List.mem_cons_self) (ih ?_ (by simpa using h))
      intro d hd
      exact hgap d (List.mem_cons_of_mem c hd)

/-- The text that stands at the place of a token is its lexeme. -/
theorem munch_of_covers {policy : Policy} {source : String} {tokens : List Token} {t : Token}
    {lexeme : List Char} (htokens : (tokenize policy source).outcome = .ok tokens)
    (ht : t ∈ tokens) (hlexeme : t.span.Covers source.toList lexeme) :
    Munch lexeme lexeme t.kind t.value := by
  obtain ⟨before, found, rest, hsource, hspan, hmunch⟩ := exists_munch_of_tokenize htokens ht
  have hfound := Span.covers_covering before found rest
  rw [← hsource, ← hspan] at hfound
  rw [hlexeme.unique hfound]
  exact (munch_append_iff.mp hmunch).1

/-- What follows a lexeme does not extend it. -/
theorem LaidOut.stops {source lexeme gap text : List Char} {tokens : List Token}
    (hgap : All Text.isBlank gap) (hapart : tokens ≠ [] → gap ≠ [])
    (h : LaidOut source tokens text) :
    ∀ c ∈ (gap ++ text).head?, extends? lexeme c = false := by
  intro c hc
  cases gap with
  | cons d gap =>
      cases hc
      exact extends?_of_isBlank lexeme (hgap c List.mem_cons_self)
  | nil =>
      cases h with
      | nil => cases hc
      | cons => simp at hapart

/-- **Each lexeme is found again behind its blanks.** -/
theorem LaidOut.exists_passes {source text : List Char} {tokens : List Token}
    (h : LaidOut source tokens text)
    (hmunch : ∀ t ∈ tokens, ∀ lexeme, t.span.Covers source lexeme →
      Munch lexeme lexeme t.kind t.value) (policy : Policy) (before : List Char) :
    ∃ pieces, Passes policy before text pieces (before ++ text) [] ∧
      Alikes Anywhere tokens (pieces.filterMap Piece.token?) := by
  induction h generalizing before with
  | nil => exact ⟨[], by simpa using Passes.here before [], .nil⟩
  | @cons t tokens lexeme gap text hlexeme hgap hapart tail ih =>
      obtain ⟨pieces, hpasses, halike⟩ :=
        ih (fun u hu => hmunch u (List.mem_cons_of_mem t hu)) (before ++ lexeme ++ gap)
      have hhere := hmunch t List.mem_cons_self lexeme hlexeme
      have hfinds : Finds policy before lexeme (gap ++ text)
          (.token ⟨t.kind, t.value, .covering before lexeme⟩) :=
        .token (munch_append_iff.mpr ⟨hhere, tail.stops hgap hapart⟩)
      refine ⟨_, .piece hfinds (passes_blanks hgap ?_), .cons ⟨rfl, rfl, trivial⟩ halike⟩
      simpa using hpasses

/-- **The tokens of a new layout are those of the source elsewhere.** -/
theorem tokenize_relaid {policy : Policy} {source text : String} {tokens : List Token}
    (htokens : (tokenize policy source).outcome = .ok tokens) (h : Relaid source tokens text)
    (policy' : Policy) :
    ∃ tokens', (tokenize policy' text).outcome = .ok tokens' ∧ Alikes Anywhere tokens tokens' := by
  obtain ⟨lead, body, htext, hlead, hbody⟩ := h
  obtain ⟨pieces, hpasses, halike⟩ :=
    hbody.exists_passes (fun t ht lexeme => munch_of_covers htokens ht) policy' lead
  have hwalk : Passes policy' [] text.toList pieces (lead ++ body) [] := by
    rw [htext]
    exact passes_blanks hlead hpasses
  exact ⟨_, tokenize_of_passes hwalk, halike⟩

/-! ### The program and the code of a new layout -/

/-- **Layout does not matter.**  If the lexemes of a source are laid out anew, with
blanks of any kind around them and at least one between two, then the new text has
the same tokens up to their places.  Its program is the same, or the same is
complained about; and so is its code. -/
theorem compile_relaid (settings : Settings) (policy : Policy) (source text : String)
    (tokens : List Token) (htokens : (tokenize settings.policy source).outcome = .ok tokens)
    (h : Relaid source tokens text) :
    (∃ tokens', (tokenize policy text).outcome = .ok tokens' ∧ Alikes Anywhere tokens tokens') ∧
      Agree (Diagnostic.Alike Anywhere) Eq (parseSource settings.policy source).outcome
        (parseSource policy text).outcome ∧
      Agree (Diagnostic.Alike Anywhere)
        (fun c c' => c.program = c'.program ∧ c.code = c'.code)
        (compile settings source).outcome (compile { settings with policy } text).outcome := by
  obtain ⟨tokens', htokens', halike⟩ := tokenize_relaid htokens h policy
  have hparse := parse_agree halike
  refine ⟨⟨tokens', htokens', halike⟩, ?_, ?_⟩
  · rw [outcome_parseSource, outcome_parseSource, htokens, htokens']
    exact hparse
  · rw [outcome_compile, outcome_compile, htokens, htokens']
    refine hparse.bind ?_
    rintro program _ rfl
    exact .ok ⟨rfl, rfl⟩

/-- The tokens of a source with a character that is set aside and a blank inside of a
literal. -/
def crowdedTokens : List Token :=
  [⟨.keyword, .text "likho", ⟨1, 1, 0, 5⟩⟩, ⟨.string, .text "'a b'", ⟨1, 7, 6, 11⟩⟩]

/-- A skipped character is all that stands between the two tokens. -/
theorem tokenize_crowded :
    (tokenize .skip "likho@'a b'").outcome = .ok crowdedTokens := by
  decide +kernel

/-- The same tokens with other space around them. -/
theorem relaid_crowded : Relaid "likho@'a b'" crowdedTokens "\nlikho\u3000'a b'" := by
  have hliteral : LaidOut "likho@'a b'".toList crowdedTokens.tail
      ("'a b'".toList ++ ([] ++ [])) :=
    .cons ⟨"likho@".toList, [], by decide, rfl, rfl⟩ (by simp [All]) (by simp) .nil
  have hlikho : LaidOut "likho@'a b'".toList crowdedTokens
      ("likho".toList ++ (['\u3000'] ++ ("'a b'".toList ++ ([] ++ [])))) :=
    .cons ⟨[], "@'a b'".toList, by decide, rfl, rfl⟩ (by simp [All]; decide) (by simp) hliteral
  exact ⟨['\n'], _, by decide, by simp [All]; decide, hlikho⟩

/-- The second layout is scanned strictly and gives the same program and code. -/
theorem compile_relaid_crowded :
    (tokenize .skip "likho@'a b'").outcome = .ok crowdedTokens ∧
      Relaid "likho@'a b'" crowdedTokens "\nlikho\u3000'a b'" ∧
      (∃ tokens', (tokenize .reject "\nlikho\u3000'a b'").outcome = .ok tokens' ∧
        Alikes Anywhere crowdedTokens tokens') ∧
      Agree (Diagnostic.Alike Anywhere) Eq (parseSource .skip "likho@'a b'").outcome
        (parseSource .reject "\nlikho\u3000'a b'").outcome ∧
      Agree (Diagnostic.Alike Anywhere)
        (fun c c' => c.program = c'.program ∧ c.code = c'.code)
        (compile {} "likho@'a b'").outcome
        (compile { policy := .reject } "\nlikho\u3000'a b'").outcome :=
  ⟨tokenize_crowded, relaid_crowded,
    compile_relaid {} .reject _ _ _ tokenize_crowded relaid_crowded⟩

end SochoScript
