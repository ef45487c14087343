import SochoScript.Program.Block

/-!
# The matching brace

A block ends at the brace that belongs to its beginning.  Here that brace is
described without counting along the row: what stands between the two braces is
*balanced*, which means that it closes as many blocks as it opens and that none
of its beginnings closes more blocks than it opens.

The reader counts instead, and may be called with some blocks already open.
`Settles depth tokens` is the matching description: the row closes exactly
`depth` blocks more than it opens, and never more than that on the way.

* `settles_cons`: a token in front moves the depth by what it opens less what it
  closes;
* `close?_eq_some_iff`: the reader splits a row exactly at the closing brace
  before which the row settles;
* `read_eq_ok_iff`: a block is read exactly if the row begins with one.
-/

namespace SochoScript

namespace Block

/-- How many blocks a row of tokens opens. -/
def opened (tokens : List Token) : Nat := tokens.countP Token.opensBlock

/-- How many blocks a row of tokens closes. -/
def closed (tokens : List Token) : Nat := tokens.countP Token.closesBlock

/-- The row closes `depth` blocks more than it opens, and no beginning of it
closes more than that. -/
structure Settles (depth : Nat) (tokens : List Token) : Prop where
  /-- At the end, the blocks that were open are closed. -/
  settled : closed tokens = opened tokens + depth
  /-- Along the way, only open blocks are closed. -/
  sane : ∀ front, front <+: tokens → closed front ≤ opened front + depth

/-- Every block that the row opens is closed in it, and none that it does not
open. -/
def Balanced (tokens : List Token) : Prop := Settles 0 tokens

/-- No token opens a block and closes one. -/
theorem closesBlock_eq_false {t : Token} (h : t.opensBlock = true) : t.closesBlock = false := by
  have hne : Reserved.blockOpen ≠ Reserved.blockClose := by decide
  simp only [Token.opensBlock, Token.closesBlock, Token.isText, Bool.and_eq_true,
    decide_eq_true_eq] at h ⊢
  simp [h, hne]

/-- A row without tokens is settled only where no block is open. -/
theorem settles_nil {depth : Nat} : Settles depth [] ↔ depth = 0 := by
  apply Iff.intro
  · intro h
    have := h.settled
    simp [opened, closed] at this
    exact this.symm
  · intro h
    subst h
    refine ⟨rfl, ?_⟩
    intro front hfront
    simp [List.prefix_nil.mp hfront, opened, closed]

/-- The braces that two rows open add up. -/
@[simp] theorem opened_append (left right : List Token) :
    opened (left ++ right) = opened left + opened right :=
  List.countP_append

/-- The braces that two rows close add up. -/
@[simp] theorem closed_append (left right : List Token) :
    closed (left ++ right) = closed left + closed right :=
  List.countP_append

/-- A token in front moves the depth by what it opens less what it closes. -/
theorem settles_cons {depth inner : Nat} {t : Token} {tokens : List Token}
    (h : closed [t] + inner = opened [t] + depth) :
    Settles depth (t :: tokens) ↔ Settles inner tokens := by
  have hclosed : ∀ front, closed (t :: front) = closed [t] + closed front :=
    fun front => closed_append [t] front
  have hopened : ∀ front, opened (t :: front) = opened [t] + opened front :=
    fun front => opened_append [t] front
  apply Iff.intro
  · intro h
    obtain ⟨hsettled, hsane⟩ := h
    rw [hclosed, hopened] at hsettled
    refine ⟨by omega, ?_⟩
    intro front hfront
    have hlonger := hsane (t :: front) ((List.prefix_cons_inj t).mpr hfront)
    rw [hclosed, hopened] at hlonger
    omega
  · intro h
    obtain ⟨hsettled, hsane⟩ := h
    refine ⟨by rw [hclosed, hopened]; omega, ?_⟩
    intro front hfront
    rcases List.prefix_cons_iff.mp hfront with rfl | ⟨more, rfl, hmore⟩
    · simp [closed]
    · have hshorter := hsane more hmore
      rw [hclosed, hopened]
      omega

/-- A row cannot begin by closing a block that is not open. -/
theorem not_settles_zero_cons {t : Token} {tokens : List Token}
    (hcloses : t.closesBlock = true) (hopens : t.opensBlock = false) :
    ¬ Settles 0 (t :: tokens) := by
  intro h
  have hfirst := h.sane [t] ⟨tokens, rfl⟩
  simp [closed, opened, hcloses, hopens] at hfirst

/-- A row that is split at the brace before which it settles. -/
def SettledSplit (depth : Nat) (tokens : List Token) (split : List Token × List Token) : Prop :=
  ∃ closing : Token, closing.closesBlock = true ∧ tokens = split.1 ++ closing :: split.2 ∧
    Settles depth split.1

/-- A token that is not the brace itself stands before it. -/
theorem settledSplit_cons {depth : Nat} (inner : Nat) {t : Token} {rest : List Token}
    {split : List Token × List Token} (h : closed [t] + inner = opened [t] + depth)
    (hfirst : t.closesBlock = true → depth ≠ 0) :
    SettledSplit depth (t :: rest) split ↔
      ∃ shorter, SettledSplit inner rest shorter ∧ prepend t shorter = split := by
  apply Iff.intro
  · intro h
    obtain ⟨closing, hclosing, happend, hsettles⟩ := h
    obtain ⟨inside, after⟩ := split
    cases inside with
    | nil =>
        obtain ⟨rfl, -⟩ := List.cons.inj happend
        exact absurd (settles_nil.mp hsettles) (hfirst hclosing)
    | cons first inside =>
        obtain ⟨rfl, hrest⟩ := List.cons.inj happend
        exact ⟨(inside, after), ⟨closing, hclosing, hrest, (settles_cons h).mp hsettles⟩, rfl⟩
  · intro h
    obtain ⟨⟨inside, after⟩, ⟨closing, hclosing, hrest, hsettles⟩, rfl⟩ := h
    exact ⟨closing, hclosing, congrArg (t :: ·) hrest, (settles_cons h).mpr hsettles⟩

/-- **The matching brace.**  Counting splits a row at the closing brace before
which the row settles, and finds none only if there is none. -/
theorem close?_eq_some_iff {depth : Nat} {tokens : List Token}
    {split : List Token × List Token} :
    close? depth tokens = some split ↔ SettledSplit depth tokens split := by
  induction tokens generalizing depth split with
  | nil =>
      simp [close?, SettledSplit]
  | cons t rest ih =>
      unfold close?
      split
      · rename_i hopens
        have hcloses := closesBlock_eq_false hopens
        rw [Option.map_eq_some_iff,
          settledSplit_cons (depth + 1) (by simp [closed, opened, hopens, hcloses]; omega)
            (by simp [hcloses])]
        simp only [ih]
      · rename_i hopens
        have hopens : t.opensBlock = false := by simpa using hopens
        split
        · rename_i hcloses
          cases depth with
          | zero =>
              apply Iff.intro
              · intro h
                cases h
                exact ⟨t, hcloses, rfl, settles_nil.mpr rfl⟩
              · intro h
                obtain ⟨closing, _, happend, hsettles⟩ := h
                obtain ⟨inside, after⟩ := split
                cases inside with
                | nil =>
                    obtain ⟨rfl, rfl⟩ := List.cons.inj happend
                    rfl
                | cons first inside =>
                    obtain ⟨rfl, -⟩ := List.cons.inj happend
                    exact absurd hsettles (not_settles_zero_cons hcloses hopens)
          | succ outer =>
              have hstep : closed [t] + outer = opened [t] + (outer + 1) := by
                simp [closed, opened, hopens, hcloses]
                omega
              rw [Option.map_eq_some_iff, settledSplit_cons outer hstep (by simp)]
              simp only [ih]
        · rename_i hcloses
          rw [Option.map_eq_some_iff,
            settledSplit_cons depth (by simp [closed, opened, hopens, hcloses])
              (by simp [hcloses])]
          simp only [ih]

/-- The row begins with a block, its braces included, that holds `inside`; the
row goes on with `follow`. -/
def Encloses (tokens inside follow : List Token) : Prop :=
  ∃ opening closing : Token, tokens = opening :: (inside ++ closing :: follow) ∧
    opening.opensBlock = true ∧ closing.closesBlock = true ∧ Balanced inside

/-- **Reading a block.**  A block is read exactly if the row begins with one. -/
theorem read_eq_ok_iff {previous : Token} {tokens : List Token} {block : Block tokens} :
    read previous tokens = .ok block ↔ Encloses tokens block.inside block.rest := by
  obtain ⟨inside, follow, hlength⟩ := block
  cases tokens with
  | nil => simp [read, Encloses]
  | cons first rest =>
      -- What a block says of the tokens after its first brace.
      have hcloses : Encloses (first :: rest) inside follow →
          first.opensBlock = true ∧ close? 0 rest = some (inside, follow) := by
        intro h
        obtain ⟨opening, closing, happend, hopening, hclosing, hbalanced⟩ := h
        obtain ⟨rfl, hrest⟩ := List.cons.inj happend
        exact ⟨hopening, close?_eq_some_iff.mpr ⟨closing, hclosing, hrest, hbalanced⟩⟩
      unfold read
      by_cases hopens : first.opensBlock = true
      · simp only [if_pos hopens]
        split
        · rename_i found after hclose
          obtain ⟨closing, hclosing, hrest, hsettles⟩ := close?_eq_some_iff.mp hclose
          apply Iff.intro
          · intro h
            cases h
            exact ⟨first, closing, by rw [hrest], hopens, hclosing, hsettles⟩
          · intro h
            have hsame := hclose.symm.trans (hcloses h).2
            cases hsame
            rfl
        · rename_i hclose
          apply Iff.intro
          · intro h
            cases h
          · intro h
            have hsame := hclose.symm.trans (hcloses h).2
            cases hsame
      · simp only [if_neg hopens]
        apply Iff.intro
        · intro h
          cases h
        · intro h
          exact absurd (hcloses h).1 hopens

/-- What follows a block is no longer than the row. -/
theorem length_rest_le {tokens : List Token} (block : Block tokens) :
    block.rest.length ≤ tokens.length := by
  have hshorter := block.shorter
  omega

/-- The braces are what a block has besides its inside. -/
theorem Encloses.length_eq {tokens inside follow : List Token}
    (h : Encloses tokens inside follow) :
    inside.length + follow.length + 2 = tokens.length := by
  obtain ⟨opening, closing, rfl, -⟩ := h
  simp
  omega

end Block

end SochoScript
