import SochoScript.Proofs.Complaints

/-!
# Counting to the matching brace

`Block.read` hands the rest of a row on from token to token.  The same block can be read
without cutting the row: the reader keeps a position in it and the number of blocks that
are open there, and at the end it takes out the tokens between two positions.  Both
numbers are without a sign, so that two things must not happen: the depth must not fall
below zero, and no part may be taken that the row does not have.  Here a reader that
counts in this way is written down with a `Fault` for each of them.

What excludes the faults is an invariant of the loop, `Keeps`: at each token the block
itself is still open, the position lies between the beginning of the block and the end of
the row, and the depth is what the tokens since the beginning leave open.

* `Keeps.turn`: a token keeps the invariant, or it is the matching brace.
* `Reaches.keeps`: the invariant holds whenever the loop looks at a token.
* `collect_eq`: the reader that counts does what `Block.read` does.
* `read_finds_matching_brace`: **the block that is read ends at the first brace that
  brings the depth to zero**, and there is one whenever there is such a brace.
-/

namespace SochoScript

namespace Block

/-! ### A reader with a position and a depth -/

/-- What must not happen to a reader that counts. -/
inductive Fault where
  /-- The depth is to fall below zero. -/
  | depth
  /-- Tokens are to be taken that the row does not have. -/
  | part
deriving DecidableEq

/-- The tokens of a row from one position up to another. -/
def part (tokens : List Token) (start stop : Nat) : List Token :=
  (tokens.take stop).drop start

/-- The tokens from one position up to another, which must not lie before it or outside of
the row. -/
def takePart (tokens : List Token) (start stop : Nat) : Except Fault (List Token) :=
  if start ≤ stop ∧ stop ≤ tokens.length then .ok (part tokens start stop) else .error .part

/-- The depth when a block is left. -/
def leave : Nat → Except Fault Nat
  | 0 => .error .depth
  | outer + 1 => .ok outer

/-- What a token does to a reader. -/
inductive Turn where
  /-- The block goes on at this depth. -/
  | goesOn (depth : Nat)
  /-- The block ends and holds these tokens. -/
  | ends (inside : List Token)

/-- Counts the token `t`, which stands at `position`. -/
def turn (tokens : List Token) (start position depth : Nat) (t : Token) : Except Fault Turn :=
  if t.opensBlock then .ok (.goesOn (depth + 1))
  else if t.closesBlock then
    match leave depth with
    | .error fault => .error fault
    | .ok 0 => (takePart tokens start position).map .ends
    | .ok outer => .ok (.goesOn outer)
  else .ok (.goesOn depth)

/-- Counts the tokens from `position` on; gives what the block holds and the position behind
it, and nothing if the tokens run out. -/
def count (tokens : List Token) (start position depth : Nat) :
    Except Fault (Option (List Token × Nat)) :=
  if h : position < tokens.length then
    match turn tokens start position depth tokens[position] with
    | .error fault => .error fault
    | .ok (.goesOn next) => count tokens start (position + 1) next
    | .ok (.ends inside) => .ok (some (inside, position + 1))
  else .ok none
termination_by tokens.length - position

/-- Reads the block at a position of a row by counting; gives what it holds and the position
behind it. -/
def collect (tokens : List Token) (position : Nat) :
    Except Fault (Except Diagnostic (List Token × Nat)) :=
  match tokens[position]? with
  | none => .ok (.error (.endOfInput .blockOpening (Parser.rowEnd tokens)))
  | some t =>
    if t.opensBlock then
      match count tokens (position + 1) (position + 1) 1 with
      | .error fault => .error fault
      | .ok none => .ok (.error (.endOfInput .blockClosing (Parser.rowEnd tokens)))
      | .ok (some found) => .ok (.ok found)
    else .ok (.error (.unexpectedToken .blockOpening t))

/-! ### The invariant of the loop -/

variable {tokens : List Token} {start position depth : Nat} {t : Token}

/-- The token at a position and what stands behind it, for a row that goes on there. -/
theorem getElem?_of_drop {rest : List Token} (h : tokens.drop position = t :: rest) :
    tokens[position]? = some t ∧ tokens.drop (position + 1) = rest := by
  rw [← List.head?_drop, ← List.tail_drop, h]
  exact ⟨rfl, rfl⟩

/-- Between a position and itself there is nothing. -/
theorem part_self (tokens : List Token) (start : Nat) : part tokens start start = [] := by
  rw [part, List.drop_eq_nil_iff]
  exact List.length_take_le _ _

/-- One position further there is one token more. -/
theorem part_succ (hstart : start ≤ position) (ht : tokens[position]? = some t) :
    part tokens start (position + 1) = part tokens start position ++ [t] := by
  have hlength := (List.getElem?_eq_some_iff.mp ht).1
  rw [part, part, List.take_add_one, ht, Option.toList_some,
    List.drop_append_of_le_length (by rw [List.length_take]; omega)]

/-- What holds whenever the loop looks at a token of the block that begins at `start`. -/
structure Keeps (tokens : List Token) (start position depth : Nat) : Prop where
  /-- The block itself is still open. -/
  pos : 1 ≤ depth
  behind : start ≤ position
  within : position ≤ tokens.length
  /-- The depth is what the tokens so far leave open. -/
  balance : closed (part tokens start position) + depth = opened (part tokens start position) + 1

/-- Counting a token keeps the depth in step with what was opened and closed. -/
theorem Keeps.next {next : Nat} (h : Keeps tokens start position depth)
    (ht : tokens[position]? = some t) (hpos : 1 ≤ next)
    (hnext : closed [t] + next = opened [t] + depth) :
    Keeps tokens start (position + 1) next := by
  have hlength := (List.getElem?_eq_some_iff.mp ht).1
  have hbalance := h.balance
  refine ⟨hpos, Nat.le_succ_of_le h.behind, hlength, ?_⟩
  rw [part_succ h.behind ht, closed_append, opened_append]
  omega

/-- **One token.**  It keeps the invariant, or it is the brace that closes the block; in
neither case is there a fault, and a reader that splits the row does the same. -/
theorem Keeps.turn (h : Keeps tokens start position (depth + 1))
    (ht : tokens[position]? = some t) :
    (∃ next, Block.turn tokens start position (depth + 1) t = .ok (.goesOn (next + 1)) ∧
      Keeps tokens start (position + 1) (next + 1) ∧
      ∀ rest, close? depth (t :: rest) = (close? next rest).map (prepend t)) ∨
    (Block.turn tokens start position (depth + 1) t = .ok (.ends (part tokens start position)) ∧
      ∀ rest, close? depth (t :: rest) = some ([], rest)) := by
  by_cases hopens : t.opensBlock = true
  · have hcloses := closesBlock_eq_false hopens
    have hnext : closed [t] + (depth + 1 + 1) = opened [t] + (depth + 1) := by
      simp [closed, opened, hopens, hcloses]
      omega
    exact .inl ⟨depth + 1, by simp [Block.turn, hopens], h.next ht (by omega) hnext,
      by simp [close?, hopens]⟩
  · by_cases hcloses : t.closesBlock = true
    · cases depth with
      | zero =>
          refine .inr ⟨?_, by simp [close?, hopens, hcloses]⟩
          simp [Block.turn, hopens, hcloses, leave, takePart, h.behind, h.within, Except.map]
      | succ outer =>
          have hnext : closed [t] + (outer + 1) = opened [t] + (outer + 1 + 1) := by
            simp [closed, opened, hopens, hcloses]
            omega
          exact .inl ⟨outer, by simp [Block.turn, hopens, hcloses, leave],
            h.next ht (by omega) hnext, by simp [close?, hopens, hcloses]⟩
    · have hnext : closed [t] + (depth + 1) = opened [t] + (depth + 1) := by
        simp [closed, opened, hopens, hcloses]
      exact .inl ⟨depth, by simp [Block.turn, hopens, hcloses], h.next ht (by omega) hnext,
        by simp [close?, hopens, hcloses]⟩

/-- The positions and depths at which the loop looks at a token, or finds that there is none
left. -/
inductive Reaches (tokens : List Token) (start : Nat) : Nat → Nat → Prop
  | first : Reaches tokens start start 1
  | next {position depth next : Nat} {t : Token} (h : Reaches tokens start position depth)
      (ht : tokens[position]? = some t)
      (hturn : Block.turn tokens start position depth t = .ok (.goesOn next)) :
      Reaches tokens start (position + 1) next

/-- The loop begins with one block open and nothing passed. -/
theorem keeps_first (hstart : start ≤ tokens.length) : Keeps tokens start start 1 :=
  ⟨Nat.le_refl 1, Nat.le_refl start, hstart, by simp [part_self, closed, opened]⟩

/-- **The whole loop.**  The invariant holds wherever the loop comes. -/
theorem Reaches.keeps (hstart : start ≤ tokens.length)
    (h : Reaches tokens start position depth) : Keeps tokens start position depth := by
  induction h with
  | first => exact keeps_first hstart
  | @next position depth next t _ ht hturn ih =>
      obtain ⟨outer, rfl⟩ := Nat.exists_eq_add_one_of_ne_zero (Nat.ne_of_gt ih.pos)
      rcases ih.turn ht with ⟨found, hfound, hkeeps, -⟩ | ⟨hends, -⟩
      · cases hturn.symm.trans hfound
        exact hkeeps
      · cases hturn.symm.trans hends

/-! ### The same block -/

/-- A row with a block in front is not empty. -/
theorem Encloses.ne_nil {inside follow : List Token} (h : Encloses tokens inside follow) :
    tokens ≠ [] := by
  obtain ⟨opening, closing, rfl, -⟩ := h
  exact List.cons_ne_nil _ _

/-- What a block encloses is balanced. -/
theorem Encloses.balanced {inside follow : List Token} (h : Encloses tokens inside follow) :
    Balanced inside := by
  obtain ⟨_, _, -, -, -, hbalanced⟩ := h
  exact hbalanced

/-- A block with which a row begins is read. -/
theorem Encloses.read {inside follow : List Token} (previous : Token)
    (h : Encloses tokens inside follow) :
    ∃ block, Block.read previous tokens = .ok block ∧ block.inside = inside ∧
      block.rest = follow :=
  ⟨⟨inside, follow, h.length_eq⟩, read_eq_ok_iff.mpr h, rfl, rfl⟩

/-- A turn that goes on hands its depth to the next turn. -/
theorem count_of_goesOn {next : Nat} (ht : tokens[position]? = some t)
    (hturn : Block.turn tokens start position depth t = .ok (.goesOn next)) :
    count tokens start position depth = count tokens start (position + 1) next := by
  obtain ⟨hlength, hget⟩ := List.getElem?_eq_some_iff.mp ht
  rw [count, dif_pos hlength, hget, hturn]

/-- A turn that ends the loop gives what was passed and the position behind the brace. -/
theorem count_of_ends {inside : List Token} (ht : tokens[position]? = some t)
    (hturn : Block.turn tokens start position depth t = .ok (.ends inside)) :
    count tokens start position depth = .ok (some (inside, position + 1)) := by
  obtain ⟨hlength, hget⟩ := List.getElem?_eq_some_iff.mp ht
  rw [count, dif_pos hlength, hget, hturn]

/-- What counting gives for a row that is split at the matching brace, when the tokens in
`before` have been counted already. -/
def located (tokens before : List Token) (split : List Token × List Token) : List Token × Nat :=
  (before ++ split.1, tokens.length - split.2.length)

/-- A token in front of a split is a token at the end of what was passed. -/
theorem map_located_prepend (tokens before : List Token) (t : Token)
    (split : Option (List Token × List Token)) :
    (split.map (prepend t)).map (located tokens before) =
      split.map (located tokens (before ++ [t])) := by
  cases split <;> simp [located, prepend]

/-- **Counting finds what splitting finds.** -/
theorem count_eq (h : Keeps tokens start position (depth + 1)) :
    count tokens start position (depth + 1) =
      .ok ((close? depth (tokens.drop position)).map
        (located tokens (part tokens start position))) := by
  -- The induction is on the tokens that are left.
  induction hrest : tokens.drop position generalizing position depth with
  | nil =>
      have hend := List.drop_eq_nil_iff.mp hrest
      rw [count, dif_neg (by omega)]
      rfl
  | cons t rest ih =>
      obtain ⟨ht, hdrop⟩ := getElem?_of_drop hrest
      rcases h.turn ht with ⟨next, hturn, hkeeps, hclose⟩ | ⟨hturn, hclose⟩
      · rw [count_of_goesOn ht hturn, hclose, map_located_prepend, ← part_succ h.behind ht]
        exact ih hkeeps hdrop
      · have hlength : tokens.length - rest.length = position + 1 := by
          have hshorter := congrArg List.length hdrop
          rw [List.length_drop] at hshorter
          have hposition := (List.getElem?_eq_some_iff.mp ht).1
          omega
        rw [count_of_ends ht hturn, hclose]
        simp [located, hlength]

/-- What is missing is missing at the end of the row. -/
theorem rowEnd_eq {rest : List Token}
    (h : tokens.drop position = t :: rest) :
    Parser.rowEnd tokens = (rest.getLastD t).span.after := by
  have hlast : tokens.getLast? = some (rest.getLastD t) := by
    refine Parser.getLast?_of_suffix (h ▸ List.drop_suffix position tokens) ?_
    rw [List.getLast?_cons, List.getLastD_eq_getLast?]
  rw [Parser.rowEnd, hlast]
  rfl

/-- **Counting reads the same block.**  A reader that counts has no fault, and gives the
same block or the same complaint as one that cuts the row, if the token before the block
is the last one of a row that ends there. -/
theorem collect_eq {previous : Token}
    (hprevious : tokens.drop position = [] → Parser.rowEnd tokens = previous.span.after) :
    collect tokens position =
      .ok ((read previous (tokens.drop position)).map fun block =>
        (block.inside, tokens.length - block.rest.length)) := by
  cases hrest : tokens.drop position with
  | nil =>
      have hnone := List.getElem?_eq_none (List.drop_eq_nil_iff.mp hrest)
      rw [collect, hnone]
      simp [read, hprevious hrest, Except.map]
  | cons t rest =>
      obtain ⟨ht, hdrop⟩ := getElem?_of_drop hrest
      have hposition := (List.getElem?_eq_some_iff.mp ht).1
      have hcount := count_eq (keeps_first (Nat.succ_le_of_lt hposition))
      rw [collect, ht]
      by_cases hopens : t.opensBlock = true
      · rw [hdrop, part_self] at hcount
        simp only [hopens, if_true, hcount]
        cases hclose : close? 0 rest with
        | none =>
            rw [read_eq_error_iff.mpr (.inr ⟨t, rest, rfl, .inr ⟨hopens, hclose, rfl⟩⟩),
              ← rowEnd_eq hrest]
            rfl
        | some split =>
            obtain ⟨closing, hclosing, happend, hbalanced⟩ := close?_eq_some_iff.mp hclose
            have hencloses : Encloses (t :: rest) split.1 split.2 :=
              ⟨t, closing, by rw [happend], hopens, hclosing, hbalanced⟩
            obtain ⟨block, hread, hinside, hfollow⟩ := hencloses.read previous
            rw [hread]
            simp [located, Except.map, hinside, hfollow]
      · have hother : t.opensBlock = false := by simpa using hopens
        rw [read_eq_error_iff.mpr (.inr ⟨t, rest, rfl, .inl ⟨hother, rfl⟩⟩)]
        simp only [hother, Bool.false_eq_true, if_false]
        rfl

/-! ### The first brace that brings the depth to zero -/

/-- The depth behind the token at `stop`, in the block that is opened at `position`. -/
def depthBehind (tokens : List Token) (position stop : Nat) : Int :=
  1 + opened (part tokens (position + 1) (stop + 1)) -
    closed (part tokens (position + 1) (stop + 1))

/-- The token at `stop` closes the block that is opened at `position`, as far as the depth
tells. -/
structure Closes (tokens : List Token) (position stop : Nat) : Prop where
  behind : position < stop
  brace : ∃ closing, tokens[stop]? = some closing ∧ closing.closesBlock = true
  depth : depthBehind tokens position stop = 0

/-- The part between two positions, cut off in the other order. -/
theorem part_eq_take_drop (tokens : List Token) (start stop : Nat) :
    part tokens start stop = (tokens.drop start).take (stop - start) :=
  List.drop_take

/-- What closes a block does not open one. -/
theorem opensBlock_eq_false (h : t.closesBlock = true) : t.opensBlock = false := by
  cases hopens : t.opensBlock with
  | false => rfl
  | true =>
      rw [closesBlock_eq_false hopens] at h
      cases h

/-- Up to the brace of a block, more blocks are closed than opened behind its first brace. -/
theorem Closes.lt_closed {stop : Nat} (h : Closes tokens position stop) :
    opened (part tokens (position + 1) (stop + 1)) <
      closed (part tokens (position + 1) (stop + 1)) := by
  have hdepth := h.depth
  rw [depthBehind] at hdepth
  omega

/-- The brace of a block that a row begins with brings the depth to zero, and no brace does
so before it. -/
theorem Encloses.closes {inside follow : List Token}
    (h : Encloses (tokens.drop position) inside follow) :
    ∃ stop, Closes tokens position stop ∧
      (∀ other, Closes tokens position other → stop ≤ other) ∧
      inside = part tokens (position + 1) stop ∧ follow = tokens.drop (stop + 1) := by
  obtain ⟨opening, closing, happend, -, hclosing, hbalanced⟩ := h
  obtain ⟨-, hrest⟩ := getElem?_of_drop happend
  have hupTo : part tokens (position + 1) (position + 1 + inside.length) = inside := by
    rw [part_eq_take_drop, hrest, Nat.add_sub_cancel_left, List.take_left]
  have hbehind : tokens.drop (position + 1 + inside.length) = closing :: follow := by
    rw [← List.drop_drop, hrest, List.drop_left]
  obtain ⟨hbrace, hfollow⟩ := getElem?_of_drop hbehind
  have hthrough : part tokens (position + 1) (position + 1 + inside.length + 1) =
      inside ++ [closing] := by
    rw [part_succ (Nat.le_add_right _ _) hbrace, hupTo]
  refine ⟨position + 1 + inside.length, ⟨by omega, ⟨closing, hbrace, hclosing⟩, ?_⟩, ?_,
    hupTo.symm, hfollow.symm⟩
  · have hopens := opensBlock_eq_false hclosing
    have hsettled := hbalanced.settled
    have hlast : opened [closing] = 0 ∧ closed [closing] = 1 := by
      simp [opened, closed, hclosing, hopens]
    rw [depthBehind, hthrough, closed_append, opened_append]
    omega
  · intro other hother
    refine Nat.le_of_not_lt fun hearlier => ?_
    -- Up to an earlier brace the row is a beginning of the inside, which is balanced.
    have hfront : part tokens (position + 1) (other + 1) <+: inside := by
      rw [part_eq_take_drop, hrest,
        List.take_append_of_le_length (by have := hother.behind; omega)]
      exact List.take_prefix _ _
    have hsane := hbalanced.sane _ hfront
    have hmore := hother.lt_closed
    omega

/-- A row begins with a block if some brace behind its first one brings the depth to zero. -/
theorem Closes.exists_encloses {stop : Nat} (h : Closes tokens position stop)
    (ht : tokens[position]? = some t) (hopens : t.opensBlock = true) :
    ∃ inside follow, Encloses (tokens.drop position) inside follow := by
  have hposition := (List.getElem?_eq_some_iff.mp ht).1
  have hrow : tokens.drop position = t :: tokens.drop (position + 1) := by
    rw [List.drop_eq_getElem_cons hposition, (List.getElem?_eq_some_iff.mp ht).2]
  have hfront : part tokens (position + 1) (stop + 1) <+: tokens.drop (position + 1) := by
    rw [part_eq_take_drop]
    exact List.take_prefix _ _
  obtain ⟨more, hmore⟩ := hfront
  have hfound : close? 0 (part tokens (position + 1) (stop + 1)) ≠ none :=
    close?_ne_none h.lt_closed
  obtain ⟨split, hsplit⟩ := Option.ne_none_iff_exists'.mp hfound
  obtain ⟨closing, hclosing, happend, hbalanced⟩ := close?_eq_some_iff.mp hsplit
  refine ⟨split.1, split.2 ++ more, t, closing, ?_, hopens, hclosing, hbalanced⟩
  rw [hrow, ← hmore, happend, List.append_assoc, List.cons_append]

/-- A block is read where some brace brings the depth to zero. -/
theorem exists_read_iff (previous : Token) :
    (∃ block, read previous (tokens.drop position) = .ok block) ↔
      (∃ opening, tokens[position]? = some opening ∧ opening.opensBlock = true) ∧
        ∃ stop, Closes tokens position stop := by
  apply Iff.intro
  · intro h
    obtain ⟨block, hread⟩ := h
    have hencloses := read_eq_ok_iff.mp hread
    obtain ⟨stop, hcloses, -⟩ := hencloses.closes
    obtain ⟨opening, closing, happend, hopening, -⟩ := hencloses
    exact ⟨⟨opening, (getElem?_of_drop happend).1, hopening⟩, stop, hcloses⟩
  · intro h
    obtain ⟨⟨opening, hopening, hopens⟩, stop, hcloses⟩ := h
    obtain ⟨inside, follow, hencloses⟩ := hcloses.exists_encloses hopening hopens
    obtain ⟨block, hread, -⟩ := hencloses.read previous
    exact ⟨block, hread⟩

/-- Counting to the brace of a block ends behind it. -/
theorem collect_of_read {previous : Token} {block : Block (tokens.drop position)} {stop : Nat}
    (hread : read previous (tokens.drop position) = .ok block)
    (hcloses : Closes tokens position stop) (hrest : block.rest = tokens.drop (stop + 1)) :
    collect tokens position = .ok (.ok (block.inside, stop + 1)) := by
  have hencloses := read_eq_ok_iff.mp hread
  obtain ⟨closing, hclosing, -⟩ := hcloses.brace
  have hstop := (List.getElem?_eq_some_iff.mp hclosing).1
  have hposition : tokens.length - block.rest.length = stop + 1 := by
    rw [hrest, List.length_drop]
    omega
  rw [collect_eq (fun hnil => absurd hnil hencloses.ne_nil), hread]
  simp only [Except.map, hposition]

/-- Up to what is complained of, counting reads the same block behind any token. -/
theorem toOption_collect_eq (tokens : List Token) (position : Nat) (previous : Token) :
    (collect tokens position).map Except.toOption =
      .ok ((read previous (tokens.drop position)).toOption.map fun block =>
        (block.inside, tokens.length - block.rest.length)) := by
  cases hrest : tokens.drop position with
  | nil =>
      have hnone := List.getElem?_eq_none (List.drop_eq_nil_iff.mp hrest)
      rw [collect, hnone]
      rfl
  | cons t rest =>
      have hvacuous : tokens.drop position = [] →
          Parser.rowEnd tokens = previous.span.after := by simp [hrest]
      rw [collect_eq hvacuous, hrest]
      cases read previous (t :: rest) <;> rfl

/-- **The matching brace.**  A block is read at a position of a row exactly if an opening
brace stands there and some closing brace behind it brings the depth to zero.  It holds what
stands between that brace and the first such one, which is balanced, and what follows it is
what stands behind that brace; whatever is balanced and stands between two braces is read
whole.  A reader that counts does the same without a fault: wherever its loop comes, the
depth is at least one, and the position is one of the row and not before the block. -/
theorem read_finds_matching_brace (tokens : List Token) (position : Nat) (previous : Token) :
    ((∃ block, read previous (tokens.drop position) = .ok block) ↔
      (∃ opening, tokens[position]? = some opening ∧ opening.opensBlock = true) ∧
        ∃ stop, Closes tokens position stop) ∧
    (∀ block, read previous (tokens.drop position) = .ok block →
      Balanced block.inside ∧
      ∃ stop, Closes tokens position stop ∧
        (∀ other, Closes tokens position other → stop ≤ other) ∧
        block.inside = part tokens (position + 1) stop ∧
        block.rest = tokens.drop (stop + 1) ∧
        collect tokens position = .ok (.ok (block.inside, stop + 1))) ∧
    (∀ opening inside closing follow, opening.opensBlock = true → closing.closesBlock = true →
      Balanced inside → tokens.drop position = [opening] ++ inside ++ [closing] ++ follow →
      ∃ block, read previous (tokens.drop position) = .ok block ∧ block.inside = inside ∧
        block.rest = follow) ∧
    (∀ before, tokens = before ++ previous :: tokens.drop position →
      collect tokens position =
        .ok ((read previous (tokens.drop position)).map fun block =>
          (block.inside, tokens.length - block.rest.length))) ∧
    ((collect tokens position).map Except.toOption =
      .ok ((read previous (tokens.drop position)).toOption.map fun block =>
        (block.inside, tokens.length - block.rest.length))) ∧
    (∀ reached depth, position < tokens.length → Reaches tokens (position + 1) reached depth →
      1 ≤ depth ∧ position + 1 ≤ reached ∧ reached ≤ tokens.length ∧
        (depth : Int) = depthBehind tokens position (reached - 1)) := by
  refine ⟨exists_read_iff previous, ?_, ?_, ?_, toOption_collect_eq tokens position previous, ?_⟩
  · intro block hread
    have hencloses := read_eq_ok_iff.mp hread
    obtain ⟨stop, hcloses, hfirst, hinside, hrest⟩ := hencloses.closes
    exact ⟨hencloses.balanced, stop, hcloses, hfirst, hinside, hrest,
      collect_of_read hread hcloses hrest⟩
  · intro opening inside closing follow hopening hclosing hbalanced hrow
    refine Encloses.read previous ⟨opening, closing, ?_, hopening, hclosing, hbalanced⟩
    simpa using hrow
  · intro before hbefore
    refine collect_eq fun hnil => ?_
    rw [hnil] at hbefore
    rw [hbefore, Parser.rowEnd, List.getLast?_append]
    rfl
  · intro reached depth hposition hreaches
    have hkeeps : Keeps tokens (position + 1) reached depth := hreaches.keeps hposition
    have hbalance := hkeeps.balance
    refine ⟨hkeeps.pos, hkeeps.behind, hkeeps.within, ?_⟩
    rw [depthBehind, Nat.sub_add_cancel (Nat.le_trans (Nat.le_add_left 1 position) hkeeps.behind)]
    omega

end Block

end SochoScript
