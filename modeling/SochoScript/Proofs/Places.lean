import SochoScript.Proofs.Readers
import Mathlib.Data.List.Forall2

/-!
# What the parser does with places

The parser never looks at the place of a token.  It hands a place on when it
complains about that token, and moves just past it when the tokens have run out.

This is said of two runs at once.  Let two rows of tokens have the same kinds and
values in the same order, and let `P` relate the places of each pair of tokens.
Then both runs end in the same way: with the same program, or with complaints of
the same sort that say the same, at places that `P` relates or just past such
places.  With `P` true of all places, the places have no influence on what is
read; with one row taken twice, every complaint is traced back to a token of it.

* `Agree.bind`: two sequences agree if their steps do.
* `pieces_eq`, `close?_rel`: expressions and blocks are found without looking at
  places.
* `parse_agree`: **the parser only hands places on.**
* `parse_relocate`: moving all tokens moves the complaint and nothing else.
-/

namespace SochoScript

/-! ### Two outcomes at once -/

/-- Both outcomes are values that `R` relates, or both are failures that `E`
relates. -/
inductive Agree {ε α β : Type} (E : ε → ε → Prop) (R : α → β → Prop) :
    Except ε α → Except ε β → Prop
  | ok {a : α} {b : β} (h : R a b) : Agree E R (.ok a) (.ok b)
  | error {d d' : ε} (h : E d d') : Agree E R (.error d) (.error d')

namespace Agree

variable {ε α β γ δ : Type} {E : ε → ε → Prop} {R : α → β → Prop} {S : γ → δ → Prop}

/-- Sequences agree if their first parts do, and what is done with values that are alike. -/
theorem bind {first : Except ε α} {first' : Except ε β} {next : α → Except ε γ}
    {next' : β → Except ε δ} (hfirst : Agree E R first first')
    (hnext : ∀ a b, R a b → Agree E S (next a) (next' b)) :
    Agree E S (first >>= next) (first' >>= next') := by
  cases hfirst with
  | ok h => exact hnext _ _ h
  | error h => exact .error h

/-- Failures may be related more loosely. -/
theorem imp_error {E' : ε → ε → Prop} {first : Except ε α} {first' : Except ε β}
    (h : Agree E R first first') (hE : ∀ d d', E d d' → E' d d') : Agree E' R first first' := by
  cases h with
  | ok h => exact .ok h
  | error h => exact .error (hE _ _ h)

end Agree

variable {P : Span → Span → Prop}

/-- Two tokens of the same kind and value, at places that `P` relates. -/
structure Token.Alike (P : Span → Span → Prop) (t t' : Token) : Prop where
  kind : t.kind = t'.kind
  value : t.value = t'.value
  span : P t.span t'.span

/-- Two complaints of the parser that say the same, about tokens at places that `P`
relates. -/
inductive Diagnostic.Alike (P : Span → Span → Prop) : Diagnostic → Diagnostic → Prop
  | endOfInput {expected : Expectation} {span span' : Span} (h : P span span') :
      Alike P (.endOfInput expected span.after) (.endOfInput expected span'.after)
  | unexpectedToken {expected : Expectation} {t t' : Token} (h : t.Alike P t') :
      Alike P (.unexpectedToken expected t) (.unexpectedToken expected t')
  | emptyExpression {context : Context} {span span' : Span} (h : P span span') :
      Alike P (.emptyExpression context span) (.emptyExpression context span')

/-- Two rows of tokens that are alike one by one. -/
def Alikes (P : Span → Span → Prop) (tokens tokens' : List Token) : Prop :=
  List.Forall₂ (Token.Alike P) tokens tokens'

/-- Two readings of values that `R` relates, which leave rows that are alike. -/
structure Reading.Alike {α : Type} {tokens tokens' : List Token} (P : Span → Span → Prop)
    (R : α → α → Prop) (r : Reading α tokens) (r' : Reading α tokens') : Prop where
  value : R r.value r'.value
  rest : Alikes P r.rest r'.rest

namespace Token.Alike

variable {t t' : Token}

/-- Tokens that are alike have the same text. -/
theorem text?_eq (h : t.Alike P t') : t.text? = t'.text? := by
  rw [Token.text?, Token.text?, h.value]

/-- They are the same sign of the same kind, or none of them is. -/
theorem isText_eq (h : t.Alike P t') (kind : Kind) (text : String) :
    t.isText kind text = t'.isText kind text := by
  rw [Token.isText, Token.isText, h.kind, h.text?_eq]

/-- They are the same keyword. -/
theorem keyword?_eq (h : t.Alike P t') : t.keyword? = t'.keyword? := by
  rw [Token.keyword?, Token.keyword?, h.kind, h.text?_eq]

/-- They open a block alike. -/
theorem opensBlock_eq (h : t.Alike P t') : t.opensBlock = t'.opensBlock := h.isText_eq _ _

/-- They close one alike. -/
theorem closesBlock_eq (h : t.Alike P t') : t.closesBlock = t'.closesBlock := h.isText_eq _ _

/-- They assign alike. -/
theorem assigns_eq (h : t.Alike P t') : t.assigns = t'.assigns := by
  rw [Token.assigns, Token.assigns, h.kind, h.text?_eq]

/-- They are lowered alike. -/
theorem lowering?_eq (h : t.Alike P t') (context : Context) :
    Expression.lowering? context t = Expression.lowering? context t' := by
  rw [Expression.lowering?, Expression.lowering?, h.kind, h.text?_eq]

end Token.Alike

/-! ### Expressions and blocks -/

namespace Alikes

variable {tokens tokens' : List Token}

/-- The last tokens of rows that are alike are alike. -/
theorem getLastD (h : Alikes P tokens tokens') {t t' : Token} (ht : t.Alike P t') :
    (tokens.getLastD t).Alike P (tokens'.getLastD t') := by
  induction h generalizing t t' with
  | nil => exact ht
  | cons hfirst _ ih =>
      rw [List.getLastD_cons, List.getLastD_cons]
      exact ih hfirst

/-- The tokens in front of the first that stops are alike. -/
theorem leading (h : Alikes P tokens tokens') {stops : Token → Bool}
    (hstops : ∀ t t' : Token, t.Alike P t' → stops t = stops t') :
    Alikes P (Parser.leading stops tokens) (Parser.leading stops tokens') := by
  induction h with
  | nil => exact .nil
  | cons hfirst _ ih =>
      simp only [Parser.leading, List.takeWhile_cons, hstops _ _ hfirst]
      split
      · exact .cons hfirst ih
      · exact .nil

/-- So are the tokens from that one on. -/
theorem remaining (h : Alikes P tokens tokens') {stops : Token → Bool}
    (hstops : ∀ t t' : Token, t.Alike P t' → stops t = stops t') :
    Alikes P (Parser.remaining stops tokens) (Parser.remaining stops tokens') := by
  induction h with
  | nil => exact .nil
  | cons hfirst hrest ih =>
      simp only [Parser.remaining, List.dropWhile_cons, hstops _ _ hfirst]
      split
      · exact ih
      · exact .cons hfirst hrest

end Alikes

/-- The pieces of an expression do not hang on places. -/
theorem Expression.pieces_eq {context : Context} {tokens tokens' : List Token}
    (h : Alikes P tokens tokens') : pieces context tokens = pieces context tokens' := by
  fun_induction pieces context tokens generalizing tokens' with
  | case1 =>
      cases h
      rw [pieces]
  | case2 t rest hnone ih =>
      cases h with
      | cons hfirst hrest =>
          rw [pieces, ← hfirst.lowering?_eq, hnone, ih hrest, hfirst.value]
  | case3 t rest symbol hpadded ih =>
      cases h with
      | cons hfirst hrest =>
          rw [pieces, ← hfirst.lowering?_eq, hpadded, ih hrest]
  | case4 t compound unary hstep =>
      cases h with
      | cons hfirst hrest =>
          cases hrest
          rw [pieces, ← hfirst.lowering?_eq, hstep]
  | case5 t compound unary hstep amount more hinteger ih =>
      cases h with
      | cons hfirst hrest =>
          cases hrest with
          | cons hamount hmore =>
              rw [pieces, ← hfirst.lowering?_eq, hstep]
              simp only [← hamount.kind, if_pos hinteger, ih hmore, compoundStep, hamount.value]
  | case6 t compound unary hstep amount more hinteger ih =>
      cases h with
      | cons hfirst hrest =>
          rw [ih hrest]
          cases hrest with
          | @cons _ amount' _ more' hamount hmore =>
              conv_rhs => rw [pieces, ← hfirst.lowering?_eq, hstep]
              simp only [← hamount.kind, if_neg hinteger]

/-- Expressions are read alike, up to places. -/
theorem expression_agree {context : Context} {anchor anchor' : Span}
    {tokens tokens' : List Token} (hanchor : P anchor anchor') (h : Alikes P tokens tokens') :
    Agree (Diagnostic.Alike P) Eq (expression context anchor tokens)
      (expression context anchor' tokens') := by
  unfold expression Expression.text
  rw [Expression.pieces_eq h]
  split
  · exact .error (.emptyExpression hanchor)
  · exact .ok rfl

namespace Block

/-- Two split rows whose parts are alike. -/
def SplitsAlike (P : Span → Span → Prop) (split split' : List Token × List Token) : Prop :=
  Alikes P split.1 split'.1 ∧ Alikes P split.2 split'.2

/-- Splits that are alike stay so with tokens in front that are alike. -/
theorem rel_map_prepend {t t' : Token} (ht : t.Alike P t')
    {split split' : Option (List Token × List Token)}
    (h : Option.Rel (SplitsAlike P) split split') :
    Option.Rel (SplitsAlike P) (split.map (prepend t)) (split'.map (prepend t')) := by
  cases h with
  | none => exact .none
  | some h => exact .some ⟨.cons ht h.1, h.2⟩

/-- The matching brace does not hang on places. -/
theorem close?_rel {tokens tokens' : List Token} (h : Alikes P tokens tokens') (depth : Nat) :
    Option.Rel (SplitsAlike P) (close? depth tokens) (close? depth tokens') := by
  induction h generalizing depth with
  | nil => exact .none
  | cons hfirst hrest ih =>
      unfold close?
      rw [hfirst.opensBlock_eq, hfirst.closesBlock_eq]
      split
      · exact rel_map_prepend hfirst (ih _)
      · split
        · cases depth with
          | zero => exact .some ⟨.nil, hrest⟩
          | succ outer => exact rel_map_prepend hfirst (ih outer)
        · exact rel_map_prepend hfirst (ih depth)

/-- Two blocks with insides and rests that are alike. -/
structure Alike {tokens tokens' : List Token} (P : Span → Span → Prop) (b : Block tokens)
    (b' : Block tokens') : Prop where
  inside : Alikes P b.inside b'.inside
  rest : Alikes P b.rest b'.rest

/-- Blocks are read alike, up to places. -/
theorem read_agree {previous previous' : Token} {tokens tokens' : List Token}
    (hprevious : previous.Alike P previous') (h : Alikes P tokens tokens') :
    Agree (Diagnostic.Alike P) (Alike P) (read previous tokens) (read previous' tokens') := by
  cases h with
  | nil => exact .error (.endOfInput hprevious.span)
  | @cons t t' rest rest' hfirst hrest =>
      have hclose := close?_rel hrest 0
      unfold read
      simp only [hfirst.opensBlock_eq]
      split
      · split <;> split
        · rename_i hsome _ _ hsome'
          rw [hsome, hsome'] at hclose
          cases hclose with
          | some hsplit => exact .ok ⟨hsplit.1, hsplit.2⟩
        · rename_i hsome hnone'
          rw [hsome, hnone'] at hclose
          cases hclose
        · rename_i hnone _ _ hsome'
          rw [hnone, hsome'] at hclose
          cases hclose
        · exact .error (.endOfInput (Alikes.getLastD hrest hfirst).span)
      · exact .error (.unexpectedToken hfirst)

end Block

/-! ### Readers -/

namespace Parser

/-- One token that is expected is read alike, up to places. -/
theorem expect_agree {expected : Expectation} {accepts : Token → Bool}
    (haccepts : ∀ t t' : Token, t.Alike P t' → accepts t = accepts t') {previous previous' : Token}
    {tokens tokens' : List Token} (hprevious : previous.Alike P previous')
    (h : Alikes P tokens tokens') :
    Agree (Diagnostic.Alike P) (Reading.Alike P (Token.Alike P))
      (expect expected accepts previous tokens) (expect expected accepts previous' tokens') := by
  cases h with
  | nil => exact .error (.endOfInput hprevious.span)
  | cons hfirst hrest =>
      simp only [expect, haccepts _ _ hfirst]
      split
      · exact .ok ⟨hfirst, hrest⟩
      · exact .error (.unexpectedToken hfirst)

/-- Tokens that are alike are names alike. -/
theorem isName_eq {t t' : Token} (h : t.Alike P t') : isName t = isName t' := by
  rw [isName, isName, h.kind]

/-- They are printable alike. -/
theorem isPrintable_eq {t t' : Token} (h : t.Alike P t') : isPrintable t = isPrintable t' := by
  rw [isPrintable, isPrintable, h.kind]

/-- They end a statement alike. -/
theorem endsStatement_eq {t t' : Token} (h : t.Alike P t') :
    endsStatement t = endsStatement t' := by
  rw [endsStatement, endsStatement, h.kind]

/-- The value of a declaration is read alike, up to places. -/
theorem initializer_agree {tokens tokens' : List Token} (h : Alikes P tokens tokens') :
    Agree (Diagnostic.Alike P) (Reading.Alike P Eq) (initializer tokens) (initializer tokens') := by
  cases h with
  | nil => exact .ok ⟨rfl, .nil⟩
  | @cons first first' rest rest' hfirst hrest =>
      cases hassigns : first.assigns with
      | true =>
          have hstops : ∀ t t' : Token, t.Alike P t' → endsStatement t = endsStatement t' :=
            fun _ _ => endsStatement_eq
          have hassigns' : first'.assigns = true := hfirst.assigns_eq ▸ hassigns
          rw [initializer_of_assigns hassigns, initializer_of_assigns hassigns']
          refine (expression_agree hfirst.span (Alikes.leading hrest hstops)).bind ?_
          rintro text _ rfl
          exact .ok ⟨rfl, Alikes.remaining hrest hstops⟩
      | false =>
          simp only [initializer, ← hfirst.assigns_eq, hassigns]
          exact .ok ⟨rfl, .cons hfirst hrest⟩

variable {keyword keyword' : Token} {tokens tokens' : List Token}

/-- A declaration is read alike, up to places. -/
theorem declaration_agree (hkeyword : keyword.Alike P keyword') (h : Alikes P tokens tokens') :
    Agree (Diagnostic.Alike P) (Reading.Alike P Eq) (declaration keyword tokens)
      (declaration keyword' tokens') := by
  refine (expect_agree (fun _ _ => isName_eq) hkeyword h).bind ?_
  intro name name' hname
  refine (initializer_agree hname.rest).bind ?_
  intro value value' hvalue
  exact .ok ⟨by simp only [hname.value.value, hvalue.value], hvalue.rest⟩

/-- A printed value is read alike, up to places. -/
theorem print_agree (hkeyword : keyword.Alike P keyword') (h : Alikes P tokens tokens') :
    Agree (Diagnostic.Alike P) (Reading.Alike P Eq) (print keyword tokens)
      (print keyword' tokens') := by
  refine (expect_agree (fun _ _ => isPrintable_eq) hkeyword h).bind ?_
  intro printed printed' hprinted
  exact .ok ⟨by simp only [hprinted.value.value], hprinted.rest⟩

/-- A prompt is read alike. -/
theorem prompt_alike (h : Alikes P tokens tokens') :
    Reading.Alike P Eq (prompt tokens) (prompt tokens') := by
  cases h with
  | nil => exact ⟨rfl, .nil⟩
  | cons hfirst hrest =>
      simp only [prompt, hfirst.kind, hfirst.value]
      split
      · exact ⟨rfl, hrest⟩
      · exact ⟨rfl, .cons hfirst hrest⟩

/-- An input is read alike, up to places. -/
theorem input_agree (hkeyword : keyword.Alike P keyword') (h : Alikes P tokens tokens') :
    Agree (Diagnostic.Alike P) (Reading.Alike P Eq) (input keyword tokens)
      (input keyword' tokens') := by
  refine (expect_agree (fun _ _ => isName_eq) hkeyword h).bind ?_
  intro name name' hname
  have hasked := prompt_alike hname.rest
  exact .ok ⟨by simp only [hname.value.value, hasked.value], hasked.rest⟩

/-- Two conditions with the same test, and blocks that are alike. -/
structure Guarded.Alike {tokens tokens' : List Token} (P : Span → Span → Prop)
    (head : Guarded tokens) (head' : Guarded tokens') : Prop where
  test : head.test = head'.test
  inside : Alikes P head.inside head'.inside
  rest : Alikes P head.rest head'.rest

/-- The test and the block of a condition are read alike, up to places. -/
theorem guarded_agree (hkeyword : keyword.Alike P keyword') (h : Alikes P tokens tokens') :
    Agree (Diagnostic.Alike P) (Guarded.Alike P) (guarded keyword tokens)
      (guarded keyword' tokens') := by
  have hstops : ∀ t t' : Token, t.Alike P t' → t.opensBlock = t'.opensBlock :=
    fun _ _ h => h.opensBlock_eq
  have htested := h.leading hstops
  refine (expression_agree hkeyword.span htested).bind ?_
  rintro test _ rfl
  refine (Block.read_agree (htested.getLastD hkeyword) (h.remaining hstops)).bind ?_
  intro block block' hblock
  exact .ok ⟨rfl, hblock.inside, hblock.rest⟩

/-- Two rows that go on in the same way. -/
inductive Branch.Alike {tokens tokens' : List Token} (P : Span → Span → Prop) :
    Branch tokens → Branch tokens' → Prop
  | none : Alike P .none .none
  | chained {next next' : Token} {rest rest' : List Token} {h h'} (hnext : next.Alike P next')
      (hrest : Alikes P rest rest') : Alike P (.chained next rest h) (.chained next' rest' h')
  | block {opening opening' : Token} {rest rest' : List Token} {h h'}
      (hopening : opening.Alike P opening') (hrest : Alikes P rest rest') :
      Alike P (.block opening rest h) (.block opening' rest' h')

/-- A condition goes on alike. -/
theorem branch_alike (h : Alikes P tokens tokens') :
    Branch.Alike P (branch tokens) (branch tokens') := by
  cases h with
  | nil => exact .none
  | cons hfirst hrest =>
      unfold branch
      simp only [hfirst.keyword?_eq]
      split
      · cases hrest with
        | nil => exact .block hfirst .nil
        | cons hnext hmore =>
            simp only [hnext.keyword?_eq]
            split
            · exact .chained hnext hmore
            · exact .block hfirst (.cons hnext hmore)
      · exact .none

/-- The statement that a token opens, given that conditions agree. -/
theorem statement?_rel {t t' : Token} {rest rest' : List Token} (ht : t.Alike P t')
    (hrest : Alikes P rest rest')
    (hcondition : Agree (Diagnostic.Alike P) (Reading.Alike P Eq) (condition t rest).outcome
      (condition t' rest').outcome) :
    Option.Rel (Agree (Diagnostic.Alike P) (Reading.Alike P Eq)) (statement? t rest)
      (statement? t' rest') := by
  unfold statement?
  rw [ht.keyword?_eq]
  cases t'.keyword? with
  | none => exact .none
  | some keyword =>
      cases keyword with
      | socho => exact .some (declaration_agree ht hrest)
      | likho => exact .some (print_agree ht hrest)
      | pucho => exact .some (input_agree ht hrest)
      | agar => exact .some hcondition
      | warna => exact .none

mutual

/-- Rows that are alike have the same statements. -/
theorem block_agree : ∀ {tokens tokens' : List Token}, Alikes P tokens tokens' →
    Agree (Diagnostic.Alike P) Eq (block tokens).outcome (block tokens').outcome
  | [], _, .nil => by
      rw [outcome_block_nil]
      exact .ok rfl
  | t :: rest, t' :: rest', .cons hfirst hrest => by
      have hopened := statement?_rel hfirst hrest (condition_agree hfirst hrest)
      rw [outcome_block_cons, outcome_block_cons]
      generalize statement? t rest = opened, statement? t' rest' = opened' at hopened ⊢
      cases hopened with
      | none => exact block_agree hrest
      | some hread =>
          refine hread.bind ?_
          intro read read' halike
          have hshorter := read.notLonger
          refine (block_agree halike.rest).bind ?_
          rintro more _ rfl
          exact .ok (by rw [halike.value])
termination_by tokens => tokens.length

/-- Rows that are alike begin with the same condition. -/
theorem condition_agree {keyword keyword' : Token} {tokens tokens' : List Token}
    (hkeyword : keyword.Alike P keyword') (h : Alikes P tokens tokens') :
    Agree (Diagnostic.Alike P) (Reading.Alike P Eq) (condition keyword tokens).outcome
      (condition keyword' tokens').outcome := by
  rw [outcome_condition, outcome_condition]
  refine (guarded_agree hkeyword h).bind ?_
  intro head head' hhead
  have hshorter := head.shorter
  refine (block_agree hhead.inside).bind ?_
  rintro body _ rfl
  have hway := branch_alike hhead.rest
  generalize branch head.rest = way, branch head'.rest = way' at hway ⊢
  cases hway with
  | none => exact .ok ⟨by simp only [hhead.test], hhead.rest⟩
  | @chained _ _ rest _ hlt _ hnext hrest =>
      refine (condition_agree hnext hrest).bind ?_
      intro chained chained' hchained
      exact .ok ⟨by simp only [hhead.test, hchained.value], hchained.rest⟩
  | @block _ _ rest _ hlt _ hopening hrest =>
      refine (Block.read_agree hopening hrest).bind ?_
      intro other other' hother
      have hinside := other.shorter
      refine (block_agree hother.inside).bind ?_
      rintro otherwise _ rfl
      exact .ok ⟨by simp only [hhead.test], hother.rest⟩
termination_by tokens.length

end

end Parser

/-- **The parser only hands places on.** -/
theorem parse_agree {tokens tokens' : List Token} (h : Alikes P tokens tokens') :
    Agree (Diagnostic.Alike P) Eq (parse tokens).outcome (parse tokens').outcome := by
  rw [outcome_parse, outcome_parse]
  refine (Parser.block_agree h).bind ?_
  rintro body _ rfl
  exact .ok rfl

/-! ### Moving all places -/

/-- The same token at another place. -/
def Token.relocate (f : Span → Span) (t : Token) : Token := { t with span := f t.span }

/-- The same complaint at another place. -/
def Diagnostic.relocate (f : Span → Span) : Diagnostic → Diagnostic
  | unexpectedCharacter character span => .unexpectedCharacter character (f span)
  | unterminatedLiteral mark span => .unterminatedLiteral mark (f span)
  | invalidNumber run span => .invalidNumber run (f span)
  | endOfInput expected span => .endOfInput expected (f span)
  | unexpectedToken expected found => .unexpectedToken expected (found.relocate f)
  | emptyExpression context span => .emptyExpression context (f span)
  | unknownTarget name => .unknownTarget name

section

variable {f : Span → Span}

/-- A token that is alike up to moved places is the moved token. -/
theorem Token.Alike.eq_relocate {t t' : Token} (h : t.Alike (fun span span' => span' = f span) t') :
    t' = t.relocate f := by
  obtain ⟨kind, value, span⟩ := t'
  obtain ⟨rfl, rfl, rfl⟩ := h
  rfl

/-- So it is for complaints, if moving and pointing behind can be done in either order. -/
theorem Diagnostic.Alike.eq_relocate (hafter : ∀ span, f span.after = (f span).after)
    {d d' : Diagnostic} (h : d.Alike (fun span span' => span' = f span) d') :
    d' = d.relocate f := by
  cases h with
  | endOfInput hspan => rw [hspan, Diagnostic.relocate, hafter]
  | unexpectedToken ht => rw [ht.eq_relocate, Diagnostic.relocate]
  | emptyExpression hspan => rw [hspan, Diagnostic.relocate]

/-- **Moving the tokens moves the complaint.**  A move has to keep what is just past a
place, since that is where the parser looks for more tokens. -/
theorem parse_relocate (hafter : ∀ span, f span.after = (f span).after) (tokens : List Token) :
    (parse (tokens.map (Token.relocate f))).outcome =
      (parse tokens).outcome.mapError (Diagnostic.relocate f) := by
  have hmoved : Alikes (fun span span' => span' = f span) tokens
      (tokens.map (Token.relocate f)) :=
    List.forall₂_map_right_iff.mpr (List.forall₂_same.mpr fun t _ => ⟨rfl, rfl, rfl⟩)
  have hagree := parse_agree hmoved
  generalize (parse tokens).outcome = here, (parse (tokens.map (Token.relocate f))).outcome = there
    at hagree ⊢
  cases hagree with
  | ok h =>
      rw [← h]
      rfl
  | error h =>
      rw [h.eq_relocate hafter]
      rfl

end

end SochoScript
