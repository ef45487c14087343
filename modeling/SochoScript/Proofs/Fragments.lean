import SochoScript.Proofs.Literals

/-!
# How an expression is rebuilt

The parser takes the tokens of an expression one after the other, up to the token that
ends it, and writes a fragment for each of them.  Here that walk is described over the
whole row, with the end token and everything behind it still in view: a step looks at the
next token of the row, whatever that is.  The fragments keep apart what comes from the
tokens and the spaces that were put around it, so that it can be said of each dropped
character which of the two it was.

The readers do it in another order.  They cut the row at the end token first, then join
all pieces and drop every blank at the two ends of the result.

* `Rebuilds`: the walk, with the rules for words of `replaced` and `stepped`.
* `Rebuilds.split`: the walk stops at the first token that ends the expression.  A step
  never takes that token, because it takes an integer only.
* `Rebuilds.pieces_eq`: cut first, the tokens give the same pieces.
* `Rebuilds.text_eq`: all blanks that are dropped are padding, one space on either side at
  most, because no core begins or ends with a blank.
* `expression_rebuilds_row`: **rebuilding an expression drops and repeats nothing.**
-/

namespace SochoScript

namespace Text

/-- A text that begins and ends with no blank is left as it is. -/
theorem trim_eq_self {text : List Char} (hfirst : ∀ c ∈ text.head?, isBlank c = false)
    (hlast : ∀ c ∈ text.getLast?, isBlank c = false) : trim text = text := by
  have hstart : trimStart text = text := by
    cases text with
    | nil => rfl
    | cons c more => simp [trimStart, hfirst c rfl]
  have hend : trimEnd text = text := by
    rw [trimEnd]
    cases hreverse : text.reverse with
    | nil => simpa using hreverse.symm
    | cons c more =>
        have hc : isBlank c = false := by
          apply hlast
          rw [← List.head?_reverse, hreverse]
          rfl
        rw [List.dropWhile_cons_of_neg (by simp [hc]), ← hreverse, List.reverse_reverse]
  rw [trim, hstart, hend]

end Text

namespace Expression

open Lexeme

/-! ### The rules -/

/-- The words that are replaced, and by what. -/
def replaced : Context → List (String × String)
  | .condition =>
    [("equals", "=="), ("not_equals", "!="), ("AND", "&&"), ("OR", "||"), ("NOT", "!"),
     ("sehi", "true"), ("galat", "false")]
  | .declaration =>
    [("equals", "=="), ("not_equals", "!="), ("AND", "&&"), ("OR", "||"), ("NOT", "!"),
     ("sehi", "true"), ("galat", "false"), ("plus", "+"), ("minus", "-"), ("times", "*"),
     ("divided_by", "/"), ("modulus", "%"), ("mod", "%")]

/-- The words that stand for a step, and its sign. -/
def stepped : Context → List (String × String)
  | .condition => []
  | .declaration => [("increase", "+"), ("decrease", "-")]

/-- The token is an operator that is spelled so. -/
def IsSpelled (t : Token) (word : String) : Prop := t.kind = .operator ∧ t.value = .text word

/-- What one token becomes, or a step with the integer behind it. -/
structure Fragment where
  /-- The padding in front. -/
  lead : String
  /-- What comes from the tokens. -/
  core : String
  /-- The padding behind. -/
  trail : String

/-- A fragment with its padding. -/
def Fragment.text (f : Fragment) : String := f.lead ++ f.core ++ f.trail

/-- The walk over a row of tokens: it takes `run` from the front, writes `fragments`, and
stops in front of `follow`. -/
inductive Rebuilds (context : Context) :
    List Token → List Token → List Fragment → List Token → Prop
  /-- The row is at its end, or a token ends the expression. -/
  | stop {follow : List Token} (hfollow : ∀ t ∈ follow.head?, endsAt context t = true) :
      Rebuilds context follow [] [] follow
  /-- A token without a rule of its own is written as it is. -/
  | verbatim {t : Token} {row run follow : List Token} {fragments : List Fragment}
      (hends : endsAt context t = false)
      (hword : ∀ word, IsSpelled t word →
        word ∉ (replaced context ++ stepped context).map Prod.fst)
      (tail : Rebuilds context row run fragments follow) :
      Rebuilds context (t :: row) (t :: run) (⟨"", t.value.display, ""⟩ :: fragments) follow
  /-- A word is replaced, with a space on either side. -/
  | replaced {t : Token} {word symbol : String} {row run follow : List Token}
      {fragments : List Fragment} (hword : IsSpelled t word)
      (hsymbol : (word, symbol) ∈ replaced context)
      (tail : Rebuilds context row run fragments follow) :
      Rebuilds context (t :: row) (t :: run) (⟨" ", symbol, " "⟩ :: fragments) follow
  /-- A step takes the next token of the row with it if that is an integer. -/
  | compound {t amount : Token} {word sign : String} {row run follow : List Token}
      {fragments : List Fragment} (hword : IsSpelled t word)
      (hsign : (word, sign) ∈ stepped context) (hamount : amount.kind = .integer)
      (tail : Rebuilds context row run fragments follow) :
      Rebuilds context (t :: amount :: row) (t :: amount :: run)
        (⟨" ", sign ++ "= " ++ amount.value.display, ""⟩ :: fragments) follow
  /-- Any other step is one by one. -/
  | unary {t : Token} {word sign : String} {row run follow : List Token}
      {fragments : List Fragment} (hword : IsSpelled t word)
      (hsign : (word, sign) ∈ stepped context)
      (hnext : ∀ next ∈ row.head?, next.kind ≠ .integer)
      (tail : Rebuilds context row run fragments follow) :
      Rebuilds context (t :: row) (t :: run) (⟨" ", sign ++ sign, " "⟩ :: fragments) follow

/-! ### The rules and the table -/

/-- An operator that is a word is lowered as the table says for the word. -/
theorem lowering?_of_isSpelled {context : Context} {t : Token} {word : String}
    (h : IsSpelled t word) : lowering? context t = lower? word context := by
  simp [lowering?, Token.text?, h.1, h.2]

/-- The table has every word that is replaced. -/
theorem lower?_of_mem_replaced {context : Context} {word symbol : String}
    (h : (word, symbol) ∈ replaced context) : lower? word context = some (.padded symbol) := by
  have hall : ∀ pair ∈ replaced context, lower? pair.1 context = some (.padded pair.2) := by
    cases context <;> decide
  exact hall _ h

/-- The table has every word that stands for a step. -/
theorem lower?_of_mem_stepped {context : Context} {word sign : String}
    (h : (word, sign) ∈ stepped context) :
    lower? word context = some (.step (sign ++ "=") (sign ++ sign)) := by
  have hall : ∀ pair ∈ stepped context,
      lower? pair.1 context = some (.step (pair.2 ++ "=") (pair.2 ++ pair.2)) := by
    cases context <;> decide
  exact hall _ h

/-- A token that no rule replaces is not lowered. -/
theorem lowering?_eq_none {context : Context} {t : Token}
    (h : ∀ word, IsSpelled t word → word ∉ (replaced context ++ stepped context).map Prod.fst) :
    lowering? context t = none := by
  have hlowered : ∀ operator : WordOperator, operator.lowering context ≠ none →
      operator.spelling ∈ (replaced context ++ stepped context).map Prod.fst := by
    intro operator
    cases operator <;> cases context <;> decide
  cases hlowering : lowering? context t with
  | none => rfl
  | some lowering =>
      exfalso
      rw [lowering?] at hlowering
      split at hlowering
      · rename_i hkind
        obtain ⟨word, htext, hword⟩ := Option.bind_eq_some_iff.mp hlowering
        obtain ⟨operator, hspelling, hoperator⟩ := Option.bind_eq_some_iff.mp hword
        have hvalue : t.value = .text word := by
          cases hvalue : t.value with
          | text value => simpa [Token.text?, hvalue] using htext
          | integer value => simp [Token.text?, hvalue] at htext
          | float value => simp [Token.text?, hvalue] at htext
        apply h word ⟨hkind, hvalue⟩
        rw [← WordOperator.ofSpelling?_eq_some_iff.mp hspelling]
        exact hlowered operator (by simp [hoperator])
      · cases hlowering

/-- An operator ends no expression. -/
theorem IsSpelled.endsAt_eq {context : Context} {t : Token} {word : String}
    (h : IsSpelled t word) : endsAt context t = false := by
  cases context with
  | declaration => simp [endsAt, Parser.endsStatement, h.1]
  | condition => simp [endsAt, Token.opensBlock, Token.isText, h.1]

/-- An integer ends no expression. -/
theorem endsAt_of_integer {context : Context} {t : Token} (h : t.kind = .integer) :
    endsAt context t = false := by
  cases context with
  | declaration => simp [endsAt, Parser.endsStatement, h]
  | condition => simp [endsAt, Token.opensBlock, Token.isText, h]

/-- There is a rule for every token that does not end the expression. -/
theorem rule_cases (context : Context) (t : Token) :
    (∀ word, IsSpelled t word → word ∉ (replaced context ++ stepped context).map Prod.fst) ∨
      (∃ word symbol, IsSpelled t word ∧ (word, symbol) ∈ replaced context) ∨
      ∃ word sign, IsSpelled t word ∧ (word, sign) ∈ stepped context := by
  by_cases hverbatim : ∀ word, IsSpelled t word →
      word ∉ (replaced context ++ stepped context).map Prod.fst
  · exact .inl hverbatim
  · obtain ⟨word, hnot⟩ := Classical.not_forall.mp hverbatim
    obtain ⟨hword, hmem⟩ := Classical.not_imp.mp hnot
    rw [Classical.not_not, List.map_append, List.mem_append] at hmem
    rcases hmem with hmem | hmem
    · obtain ⟨⟨_, symbol⟩, hpair, rfl⟩ := List.mem_map.mp hmem
      exact .inr (.inl ⟨_, symbol, hword, hpair⟩)
    · obtain ⟨⟨_, sign⟩, hpair, rfl⟩ := List.mem_map.mp hmem
      exact .inr (.inr ⟨_, sign, hword, hpair⟩)

/-! ### The walk -/

/-- Every row has a walk. -/
theorem exists_rebuilds (context : Context) (row : List Token) :
    ∃ run fragments follow, Rebuilds context row run fragments follow := by
  induction hlength : row.length using Nat.strongRecOn generalizing row with
  | ind n ih =>
      cases row with
      | nil => exact ⟨[], [], [], .stop (by simp)⟩
      | cons t rest =>
          rw [List.length_cons] at hlength
          cases hends : endsAt context t with
          | true =>
              refine ⟨[], [], t :: rest, .stop ?_⟩
              intro first hfirst
              cases hfirst
              exact hends
          | false =>
              obtain ⟨run, fragments, follow, hrest⟩ := ih rest.length (by omega) rest rfl
              rcases rule_cases context t with hverbatim | ⟨word, symbol, hword, hsymbol⟩ |
                  ⟨word, sign, hword, hsign⟩
              · exact ⟨_, _, _, .verbatim hends hverbatim hrest⟩
              · exact ⟨_, _, _, .replaced hword hsymbol hrest⟩
              · by_cases hnext : ∀ next ∈ rest.head?, next.kind ≠ .integer
                · exact ⟨_, _, _, .unary hword hsign hnext hrest⟩
                · cases rest with
                  | nil => simp at hnext
                  | cons amount more =>
                      have hamount : amount.kind = .integer := by simpa using hnext
                      rw [List.length_cons] at hlength
                      obtain ⟨run, fragments, follow, hmore⟩ := ih more.length (by omega) more rfl
                      exact ⟨_, _, _, .compound hword hsign hamount hmore⟩

section

variable {context : Context} {row run follow : List Token} {fragments : List Fragment}

/-- **The walk stops at the first token that ends the expression.** -/
theorem Rebuilds.split (h : Rebuilds context row run fragments follow) :
    row = run ++ follow ∧ (∀ t ∈ run, endsAt context t = false) ∧
      ∀ t ∈ follow.head?, endsAt context t = true := by
  induction h with
  | stop hfollow => exact ⟨rfl, by simp, hfollow⟩
  | verbatim hends hword tail ih =>
      obtain ⟨hrow, hrun, hfollow⟩ := ih
      exact ⟨congrArg _ hrow, List.forall_mem_cons.mpr ⟨hends, hrun⟩, hfollow⟩
  | replaced hword hsymbol tail ih =>
      obtain ⟨hrow, hrun, hfollow⟩ := ih
      exact ⟨congrArg _ hrow, List.forall_mem_cons.mpr ⟨hword.endsAt_eq, hrun⟩, hfollow⟩
  | @compound t amount _ _ _ _ _ _ hword hsign hamount tail ih =>
      obtain ⟨hrow, hrun, hfollow⟩ := ih
      refine ⟨congrArg (fun more => t :: amount :: more) hrow, ?_, hfollow⟩
      exact List.forall_mem_cons.mpr ⟨hword.endsAt_eq,
        List.forall_mem_cons.mpr ⟨endsAt_of_integer hamount, hrun⟩⟩
  | unary hword hsign hnext tail ih =>
      obtain ⟨hrow, hrun, hfollow⟩ := ih
      exact ⟨congrArg _ hrow, List.forall_mem_cons.mpr ⟨hword.endsAt_eq, hrun⟩, hfollow⟩

/-- Cut off first, the tokens that the walk takes give the same pieces. -/
theorem Rebuilds.pieces_eq (h : Rebuilds context row run fragments follow) :
    pieces context run = fragments.map Fragment.text := by
  induction h with
  | stop hfollow => rw [pieces, List.map_nil]
  | verbatim hends hword tail ih =>
      rw [pieces, lowering?_eq_none hword, List.map_cons, ← ih]
      simp [Fragment.text]
  | replaced hword hsymbol tail ih =>
      rw [pieces, lowering?_of_isSpelled hword, lower?_of_mem_replaced hsymbol, List.map_cons, ← ih]
      rfl
  | compound hword hsign hamount tail ih =>
      rw [pieces, lowering?_of_isSpelled hword, lower?_of_mem_stepped hsign, List.map_cons, ← ih]
      simp [hamount, compoundStep, Fragment.text, String.append_assoc]
  | @unary t _ _ row run follow _ hword hsign hnext tail ih =>
      rw [pieces, lowering?_of_isSpelled hword, lower?_of_mem_stepped hsign, List.map_cons, ← ih]
      -- The token behind the step is the same in the row and in what was cut off.
      cases run with
      | nil => simp [pieces, padded, Fragment.text]
      | cons amount more =>
          have hamount : amount.kind ≠ .integer := by
            apply hnext
            rw [tail.split.1]
            rfl
          simp [hamount, padded, Fragment.text]

/-! ### Padding -/

/-- The text begins and ends with a character that is not blank. -/
structure Solid (text : List Char) : Prop where
  first : ∃ c, text.head? = some c ∧ Text.isBlank c = false
  last : ∃ c, text.getLast? = some c ∧ Text.isBlank c = false

/-- A solid text has a character. -/
theorem Solid.ne_nil {text : List Char} (h : Solid text) : text ≠ [] := by
  obtain ⟨c, hc, -⟩ := h.first
  rintro rfl
  cases hc

/-- Trimming leaves a solid text as it is. -/
theorem Solid.trim_eq {text : List Char} (h : Solid text) : Text.trim text = text := by
  obtain ⟨⟨first, hfirst, hfirstBlank⟩, last, hlast, hlastBlank⟩ := h
  apply Text.trim_eq_self
  · intro c hc
    rw [Option.mem_def.mp hc, Option.some.injEq] at hfirst
    rwa [hfirst]
  · intro c hc
    rw [Option.mem_def.mp hc, Option.some.injEq] at hlast
    rwa [hlast]

/-- Anything may stand between two such texts. -/
theorem Solid.append {left right : List Char} (hleft : Solid left) (middle : List Char)
    (hright : Solid right) : Solid (left ++ middle ++ right) := by
  obtain ⟨c, hc, hcBlank⟩ := hleft.first
  obtain ⟨d, hd, hdBlank⟩ := hright.last
  refine ⟨⟨c, ?_, hcBlank⟩, d, ?_, hdBlank⟩
  · rw [List.append_assoc, List.head?_append, hc]
    rfl
  · rw [List.getLast?_append, hd]
    rfl

/-- The written form of a token begins and ends with no blank. -/
theorem solid_of_stands {text : String} (h : Stands text) : Solid text.toList := by
  obtain ⟨kind, value, hmunch, -⟩ := h
  obtain ⟨c, more, rest, hcons, -, hblank⟩ := hmunch.exists_cons
  refine ⟨⟨c, by rw [hcons]; rfl, hblank⟩, ?_⟩
  rcases List.eq_nil_or_concat text.toList with hnil | ⟨front, last, hconcat⟩
  · rw [hnil] at hcons
    cases hcons
  · rw [List.concat_eq_append] at hconcat
    rw [hconcat] at hmunch ⊢
    exact ⟨last, by simp, hmunch.isBlank_last⟩

/-- A fragment whose padding is blank and whose core is not, at its two ends. -/
structure Fragment.Sound (f : Fragment) : Prop where
  lead : ∀ c ∈ f.lead.toList, Text.isBlank c = true
  core : Solid f.core.toList
  trail : ∀ c ∈ f.trail.toList, Text.isBlank c = true

/-- The fragments of scanned tokens are so. -/
theorem Rebuilds.sound (h : Rebuilds context row run fragments follow)
    (hrun : ∀ t ∈ run, Scanned t) : ∀ f ∈ fragments, f.Sound := by
  have hnone : ∀ c ∈ "".toList, Text.isBlank c = true := by simp
  have hspace : ∀ c ∈ " ".toList, Text.isBlank c = true := by
    have hall : " ".toList.all Text.isBlank = true := by decide
    exact List.all_eq_true.mp hall
  have hdisplay : ∀ t, Scanned t → Solid t.value.display.toList := by
    rintro t ⟨text, lexeme, hmunch⟩
    exact solid_of_stands hmunch.stands
  induction h with
  | stop hfollow => simp
  | verbatim hends hword tail ih =>
      obtain ⟨ht, hrun⟩ := List.forall_mem_cons.mp hrun
      exact List.forall_mem_cons.mpr ⟨⟨hnone, hdisplay _ ht, hnone⟩, ih hrun⟩
  | @replaced t word symbol _ _ _ _ hword hsymbol tail ih =>
      have hlowered : ∀ pair ∈ Expression.replaced context,
          pair.2 ∈ Reserved.symbolOperators ∨ pair.2 = "true" ∨ pair.2 = "false" := by
        cases context <;> decide
      have hsound : Part.Sound ⟨symbol, true⟩ := IsLowered.sound (hlowered _ hsymbol)
      obtain ⟨-, hrun⟩ := List.forall_mem_cons.mp hrun
      exact List.forall_mem_cons.mpr
        ⟨⟨hspace, solid_of_stands hsound.stands, hspace⟩, ih hrun⟩
  | @compound t amount word sign _ _ _ _ hword hsign hamount tail ih =>
      have hsigns : ∀ pair ∈ stepped context, pair.2 ∈ Reserved.symbolOperators := by
        cases context <;> decide
      have hsolid := solid_of_stands (stands_symbol (hsigns _ hsign))
      obtain ⟨-, hrest⟩ := List.forall_mem_cons.mp hrun
      obtain ⟨ht, hrun⟩ := List.forall_mem_cons.mp hrest
      refine List.forall_mem_cons.mpr ⟨⟨hspace, ?_, hnone⟩, ih hrun⟩
      rw [String.toList_append, String.toList_append]
      exact hsolid.append _ (hdisplay _ ht)
  | @unary t word sign _ _ _ _ hword hsign hnext tail ih =>
      have hsigns : ∀ pair ∈ stepped context, pair.2 ++ pair.2 ∈ Reserved.symbolOperators := by
        cases context <;> decide
      have hsolid := solid_of_stands (stands_symbol (hsigns _ hsign))
      obtain ⟨-, hrun⟩ := List.forall_mem_cons.mp hrun
      exact List.forall_mem_cons.mpr ⟨⟨hspace, hsolid, hspace⟩, ih hrun⟩

/-- The text is that of all fragments, one behind the other, without the padding in front
of the first and behind the last. -/
def Trimmed (fragments : List Fragment) (text : String) : Prop :=
  ∃ first ∈ fragments.head?, ∃ last ∈ fragments.getLast?,
    String.join (fragments.map Fragment.text) = first.lead ++ text ++ last.trail

/-- What is left between the two paddings begins and ends with no blank. -/
theorem exists_trimmed {first : Fragment} {others : List Fragment}
    (h : ∀ f ∈ first :: others, f.Sound) :
    ∃ text : String, Trimmed (first :: others) text ∧ Solid text.toList := by
  induction others generalizing first with
  | nil =>
      refine ⟨first.core, ⟨first, rfl, first, rfl, ?_⟩, (h first List.mem_cons_self).core⟩
      simp [Fragment.text]
  | cons next others ih =>
      obtain ⟨hfirst, hothers⟩ := List.forall_mem_cons.mp h
      obtain ⟨text, ⟨_, hnext, last, hlast, hjoin⟩, hsolid⟩ := ih hothers
      cases hnext
      refine ⟨first.core ++ (first.trail ++ next.lead) ++ text,
        ⟨first, rfl, last, by simpa using hlast, ?_⟩, ?_⟩
      · rw [List.map_cons, String.join_cons, hjoin]
        simp [Fragment.text, String.append_assoc]
      · rw [String.toList_append, String.toList_append]
        exact hfirst.core.append _ hsolid

/-- **Only padding is dropped.** -/
theorem Rebuilds.text_eq (h : Rebuilds context row run fragments follow)
    (hrun : ∀ t ∈ run, Scanned t) (hne : run ≠ []) :
    ∃ text, Trimmed fragments text ∧ Expression.text context run = text.toList ∧
      text.toList ≠ [] := by
  have hsound := h.sound hrun
  have hpieces := h.pieces_eq
  cases hfragments : fragments with
  | nil =>
      cases h with
      | stop hfollow => exact absurd rfl hne
      | _ => cases hfragments
  | cons first others =>
      rw [hfragments] at hsound hpieces
      obtain ⟨text, htrimmed, hsolid⟩ := exists_trimmed hsound
      refine ⟨text, htrimmed, ?_, hsolid.ne_nil⟩
      obtain ⟨_, hfirst, last, hlast, hjoin⟩ := htrimmed
      cases hfirst
      have hlead := (hsound first List.mem_cons_self).lead
      have htrail := (hsound last (List.mem_of_getLast? hlast)).trail
      rw [Expression.text, hpieces, hjoin, String.toList_append, String.toList_append,
        Text.trim_append_blanks _ hlead htrail, hsolid.trim_eq]

/-- What an expression gives: its text, or a complaint at `anchor` if there is no token. -/
inductive Gives (context : Context) (anchor : Token) :
    List Token → List Fragment → Except Diagnostic String → Prop
  | nothing : Gives context anchor [] [] (.error (.emptyExpression context anchor.span))
  | text {run : List Token} {fragments : List Fragment} {text : String} (hrun : run ≠ [])
      (htext : Trimmed fragments text) : Gives context anchor run fragments (.ok text)

/-- What the walk writes is what the reader of the expression gives. -/
theorem Rebuilds.gives (h : Rebuilds context row run fragments follow)
    (hrun : ∀ t ∈ run, Scanned t) (anchor : Token) :
    Gives context anchor run fragments (expression context anchor.span run) := by
  cases hne : run with
  | nil =>
      cases h with
      | stop hfollow =>
          have hempty : expression context anchor.span [] =
              .error (.emptyExpression context anchor.span) := by
            simp [expression, Expression.text, pieces, Text.trim, Text.trimStart, Text.trimEnd]
          rw [hempty]
          exact .nothing
      | _ => cases hne
  | cons t more =>
      have hcons : run ≠ [] := by simp [hne]
      obtain ⟨text, htrimmed, htext, hnonempty⟩ := h.text_eq hrun hcons
      have hok : expression context anchor.span run = .ok text := by
        refine Parser.expression_eq_ok_iff.mpr ⟨by rwa [htext], ?_⟩
        rw [htext, String.ofList_toList]
      rw [← hne, hok]
      exact .text hcons htrimmed

end

end Expression

namespace Parser

/-- The parser has come to the expression in front of `row`, behind the token `anchor`.  It
takes the tokens `run` for it with the given result, and goes on with `follow`: behind an
assignment the statement is complete then, and behind the word of a condition a block is
read. -/
def Takes (anchor : Token) (row run : List Token) (result : Except Diagnostic String)
    (follow : List Token) : Context → Prop
  | .declaration => anchor.assigns = true →
    (initializer (anchor :: row)).map (fun read => (read.value, read.rest)) =
      result.map fun text => (some text, follow)
  | .condition =>
    (guarded anchor row).map (fun head => (head.test, head.inside, head.rest)) = do
      let text ← result
      let block ← Block.read (run.getLastD anchor) follow
      return (text, block.inside, block.rest)

/-- What stands in front of the end token is taken. -/
theorem takes_of_split {context : Context} {row run follow : List Token} (anchor : Token)
    (hrow : row = run ++ follow) (hrun : ∀ t ∈ run, Expression.endsAt context t = false)
    (hfollow : ∀ t ∈ follow.head?, Expression.endsAt context t = true) :
    Takes anchor row run (expression context anchor.span run) follow context := by
  obtain ⟨rfl, rfl⟩ :=
    (leading_remaining_iff (Expression.endsAt context) row).mpr ⟨hrow, hrun, hfollow⟩
  cases context with
  | declaration =>
      intro hassigns
      rw [initializer_of_assigns hassigns]
      unfold Expression.endsAt
      cases expression .declaration anchor.span (leading endsStatement row) with
      | error d => rfl
      | ok text => rfl
  | condition =>
      simp only [Expression.endsAt, Takes, guarded]
      cases expression .condition anchor.span (leading Token.opensBlock row) with
      | error d => rfl
      | ok text =>
          cases Block.read ((leading Token.opensBlock row).getLastD anchor)
            (remaining Token.opensBlock row) with
          | error d => rfl
          | ok block => rfl

end Parser

open Expression in
/-- **Rebuilding an expression drops and repeats nothing.**  Of a row of scanned tokens, the
tokens in front of the first one that ends the expression are taken, each becomes a
fragment by the rule for it, and the text is that of the fragments in order without the
padding at its two ends.  There is no text exactly if there is no token. -/
theorem expression_rebuilds_row (context : Context) (row : List Token)
    (hrow : ∀ t ∈ row, Scanned t) :
    ∃ run fragments follow, Rebuilds context row run fragments follow ∧ row = run ++ follow ∧
      (∀ t ∈ run, endsAt context t = false) ∧ (∀ t ∈ follow.head?, endsAt context t = true) ∧
      ∀ anchor, ∃ result, Gives context anchor run fragments result ∧
        Parser.Takes anchor row run result follow context := by
  obtain ⟨run, fragments, follow, hrebuilds⟩ := exists_rebuilds context row
  obtain ⟨hsplit, hrun, hfollow⟩ := hrebuilds.split
  refine ⟨run, fragments, follow, hrebuilds, hsplit, hrun, hfollow, ?_⟩
  intro anchor
  have hscanned : ∀ t ∈ run, Scanned t := by
    intro t ht
    apply hrow
    rw [hsplit]
    exact List.mem_append_left _ ht
  exact ⟨_, hrebuilds.gives hscanned anchor, Parser.takes_of_split anchor hsplit hrun hfollow⟩

/-- The tokens of `increase 5 plus ' a ' decrease; 7`. -/
def steppedRow : List Token :=
  [⟨.operator, .text "increase", ⟨1, 1, 0, 8⟩⟩, ⟨.integer, .integer 5, ⟨1, 10, 9, 10⟩⟩,
    ⟨.operator, .text "plus", ⟨1, 12, 11, 15⟩⟩, ⟨.string, .text "' a '", ⟨1, 17, 16, 21⟩⟩,
    ⟨.operator, .text "decrease", ⟨1, 23, 22, 30⟩⟩, ⟨.endOfStatement, .text ";", ⟨1, 31, 30, 31⟩⟩,
    ⟨.integer, .integer 7, ⟨1, 33, 32, 33⟩⟩]

-- The padding between two fragments stays, and so do the blanks of the literal.
example : expression .declaration {} (steppedRow.take 5) = .ok "+= 5 + ' a ' --" := by
  decide +kernel

open Expression in
/-- A row with two steps, of which only the first takes an integer with it. -/
theorem expression_rebuilds_row_steppedRow :
    (∀ t ∈ steppedRow, Scanned t) ∧
      ∃ run fragments follow, Rebuilds .declaration steppedRow run fragments follow ∧
        steppedRow = run ++ follow ∧ (∀ t ∈ run, endsAt .declaration t = false) ∧
        (∀ t ∈ follow.head?, endsAt .declaration t = true) ∧
        ∀ anchor, ∃ result, Gives .declaration anchor run fragments result ∧
          Parser.Takes anchor steppedRow run result follow .declaration := by
  have htokens : (tokenize .reject "increase 5 plus ' a ' decrease; 7").outcome =
      .ok steppedRow := by
    decide +kernel
  exact ⟨scanned_of_tokenize htokens,
    expression_rebuilds_row .declaration steppedRow (scanned_of_tokenize htokens)⟩

end SochoScript
