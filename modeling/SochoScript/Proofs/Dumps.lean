import SochoScript.Proofs.Writing

/-!
# What the dumps tell

The dump of a program can be read, and what is read describes that program and no other:
every statement is an object that names its type and holds its fields under their own
names, in a fixed order.

The dump of a list of tokens leaves out the places and nothing else.  That is not plain:
one field holds integers, binary numbers and texts alike, a whole binary number is written
as an integer, and what is too large for the format is written as null.  The kind decides
between them.  A number with a point is of another kind than an integer; an integer that is
too large for 64 bits stays, as a binary number, far above all that are written as
integers; and no number from a source is negative, so that one sign of zero and one of the
infinite numbers is enough.

* `Statement.describes_iff`: a tree describes a statement exactly if it is its dump.
* `treeJson_describes`: **the dump of a program loses nothing.**
* `Carries.value_eq`: two values of one kind with one dump are the same.
* `listJson_eq_iff`: **the dump of a list of tokens loses nothing but the places**, however
  binary numbers are laid out.
-/

namespace SochoScript

/-! ### Programs -/

/-- A text, or null where there is none. -/
inductive Json.Holds : Json → Option String → Prop
  | absent : Holds .null none
  | present (text : String) : Holds (.string text) (some text)

mutual

/-- A tree describes a statement. -/
inductive Json.Describes : Json → Statement → Prop
  | declaration {name : String} {value : Option String} {tree : Json} (hvalue : tree.Holds value) :
      Describes
        (.object [("type", .string "declaration"), ("name", .string name), ("value", tree)])
        (.declaration name value)
  | print {value : String} :
      Describes (.object [("type", .string "print"), ("value", .string value)]) (.print value)
  | input {name : String} {prompt : Option String} {tree : Json} (hprompt : tree.Holds prompt) :
      Describes (.object [("type", .string "input"), ("name", .string name), ("prompt", tree)])
        (.input name prompt)
  | condition {test : String} {body otherwise : List Statement} {items others : List Json}
      (hbody : DescribeAll items body) (hotherwise : DescribeAll others otherwise) :
      Describes
        (.object [("type", .string "condition"), ("test", .string test), ("body", .array items),
          ("elseBody", .array others)])
        (.condition test body otherwise)

/-- Trees describe statements, one for each. -/
inductive Json.DescribeAll : List Json → List Statement → Prop
  | nil : DescribeAll [] []
  | cons {tree : Json} {items : List Json} {s : Statement} {rest : List Statement}
      (hfirst : Describes tree s) (hrest : DescribeAll items rest) :
      DescribeAll (tree :: items) (s :: rest)

end

/-- A tree describes a program. -/
inductive Json.DescribesProgram : Json → Program → Prop
  | mk {items : List Json} {body : List Statement} (hbody : DescribeAll items body) :
      DescribesProgram (.object [("type", .string "program"), ("body", .array items)]) ⟨body⟩

namespace Json

/-- A tree holds a text that may be missing exactly if it is made from it. -/
theorem holds_iff {tree : Json} {value : Option String} :
    tree.Holds value ↔ tree = .ofOption value := by
  constructor
  · rintro (_ | text) <;> rfl
  · rintro rfl
    cases value with
    | none => exact .absent
    | some text => exact .present text

/-- The tree tells whether the text is missing, and which it is. -/
theorem ofOption_inj {value value' : Option String} (h : ofOption value = ofOption value') :
    value = value' := by
  cases value <;> cases value' <;> simp_all [ofOption]

end Json

namespace Statement

open Json (Describes DescribeAll)

mutual

/-- A tree describes a statement exactly if it is its dump. -/
theorem describes_iff {tree : Json} : (s : Statement) → (tree.Describes s ↔ tree = s.toJson)
  | .declaration name value => by
      constructor
      · intro h
        cases h with
        | declaration hvalue => rw [Json.holds_iff.mp hvalue, toJson]
      · rintro rfl
        exact .declaration (Json.holds_iff.mpr rfl)
  | .print value => by
      constructor
      · intro h
        cases h with
        | print => rfl
      · rintro rfl
        exact .print
  | .input name prompt => by
      constructor
      · intro h
        cases h with
        | input hprompt => rw [Json.holds_iff.mp hprompt, toJson]
      · rintro rfl
        exact .input (Json.holds_iff.mpr rfl)
  | .condition test body otherwise => by
      constructor
      · intro h
        cases h with
        | condition hbody hotherwise =>
            rw [(describeAll_iff body).mp hbody, (describeAll_iff otherwise).mp hotherwise, toJson]
      · rintro rfl
        exact .condition ((describeAll_iff body).mpr rfl) ((describeAll_iff otherwise).mpr rfl)

/-- Trees describe statements exactly if they are made from them, one by one. -/
theorem describeAll_iff {items : List Json} :
    (body : List Statement) → (DescribeAll items body ↔ items = listToJson body)
  | [] => by
      constructor
      · intro h
        cases h with
        | nil => rfl
      · rintro rfl
        exact .nil
  | s :: rest => by
      constructor
      · intro h
        cases h with
        | cons hfirst hrest =>
            rw [(describes_iff s).mp hfirst, (describeAll_iff rest).mp hrest, listToJson]
      · rintro rfl
        exact .cons ((describes_iff s).mpr rfl) ((describeAll_iff rest).mpr rfl)

end

mutual

/-- Different statements have different dumps. -/
theorem toJson_inj : (s s' : Statement) → s.toJson = s'.toJson → s = s'
  | .declaration name value, s', h => by
      cases s' with
      | declaration name' value' =>
          have hfields : name = name' ∧ Json.ofOption value = .ofOption value' := by
            simpa [toJson] using h
          rw [hfields.1, Json.ofOption_inj hfields.2]
      | _ => simp [toJson] at h
  | .print value, s', h => by
      cases s' with
      | print value' =>
          have hvalue : value = value' := by simpa [toJson] using h
          rw [hvalue]
      | _ => simp [toJson] at h
  | .input name prompt, s', h => by
      cases s' with
      | input name' prompt' =>
          have hfields : name = name' ∧ Json.ofOption prompt = .ofOption prompt' := by
            simpa [toJson] using h
          rw [hfields.1, Json.ofOption_inj hfields.2]
      | _ => simp [toJson] at h
  | .condition test body otherwise, s', h => by
      cases s' with
      | condition test' body' otherwise' =>
          have hfields : test = test' ∧ listToJson body = listToJson body' ∧
              listToJson otherwise = listToJson otherwise' := by
            simpa [toJson] using h
          obtain ⟨rfl, hbody, hotherwise⟩ := hfields
          rw [listToJson_inj body body' hbody, listToJson_inj otherwise otherwise' hotherwise]
      | _ => simp [toJson] at h

/-- The trees of two rows of statements tell the rows apart. -/
theorem listToJson_inj : (body body' : List Statement) → listToJson body = listToJson body' →
    body = body'
  | [], [], _ => rfl
  | [], _ :: _, h => by cases h
  | _ :: _, [], h => by cases h
  | s :: rest, s' :: rest', h => by
      obtain ⟨hfirst, hrest⟩ := List.cons.inj h
      rw [toJson_inj s s' hfirst, listToJson_inj rest rest' hrest]

end

end Statement

namespace Program

/-- A tree describes a program exactly if it is made from it. -/
theorem describesProgram_iff {tree : Json} {p : Program} :
    tree.DescribesProgram p ↔ tree = p.toJson := by
  constructor
  · rintro ⟨hbody⟩
    rw [toJson, (Statement.describeAll_iff _).mp hbody]
  · rintro rfl
    exact .mk ((Statement.describeAll_iff p.body).mpr rfl)

/-- The trees of two programs tell the programs apart. -/
theorem toJson_inj {p q : Program} (h : p.toJson = q.toJson) : p = q := by
  have hbody : Statement.listToJson p.body = Statement.listToJson q.body := by
    simpa [toJson] using h
  cases p
  cases q
  exact congrArg mk (Statement.listToJson_inj _ _ hbody)

/-- **The dump of a program loses nothing.**  It can be read, what is read describes that
program and no other, and no other program has that dump. -/
theorem treeJson_describes (p : Program) :
    (∃ tree, Json.IsDocument p.treeJson tree) ∧
      (∀ tree, Json.IsDocument p.treeJson tree → ∀ q, tree.DescribesProgram q ↔ q = p) ∧
      ∀ q : Program, q.treeJson = p.treeJson → q = p := by
  have hread : Json.IsDocument p.treeJson p.toJson := Json.isDocument_pretty p.toJson
  refine ⟨⟨p.toJson, hread⟩, ?_, ?_⟩
  · intro tree htree q
    rw [htree.unique hread, describesProgram_iff]
    constructor
    · intro hsame
      exact (toJson_inj hsame).symm
    · rintro rfl
      rfl
  · intro q hq
    exact toJson_inj (Json.pretty_injective hq)

end Program

/-! ### Numbers -/

namespace Number

/-- Rounding never goes below the whole part. -/
theorem div_le_roundHalfEven (num den : Nat) : num / den ≤ roundHalfEven num den := by
  unfold roundHalfEven
  dsimp only
  split
  · exact Nat.le_refl _
  split
  · exact Nat.le_succ _
  split
  · exact Nat.le_refl _
  · exact Nat.le_succ _

/-- Rounding to the grid takes away less than a half. -/
theorem lt_two_mul_roundUnits {n : Nat} (h : 0 < n) : n * unitsPerOne < 2 * roundUnits n 1 := by
  have hpos : 0 < n * unitsPerOne := Nat.mul_pos h unitsPerOne_pos
  simp only [roundUnits, Nat.div_one, Nat.one_mul]
  generalize n * unitsPerOne = scaled at hpos
  have hstep : gridStep scaled ≤ scaled := by
    refine Nat.le_trans ?_ (Nat.log2_self_le (Nat.ne_of_gt hpos))
    exact Nat.pow_le_pow_right (by decide) (by rw [precision]; omega)
  have hcount : 1 ≤ scaled / gridStep scaled := (Nat.one_le_div_iff (gridStep_pos scaled)).mpr hstep
  have hround := div_le_roundHalfEven scaled (gridStep scaled)
  have hmul := Nat.mul_le_mul_right (gridStep scaled) hround
  have hfirst := Nat.mul_le_mul_right (gridStep scaled) hcount
  have hrest := Nat.mod_lt scaled (gridStep_pos scaled)
  have hsplit := Nat.div_add_mod' scaled (gridStep scaled)
  omega

/-- A number without a minus, which is not the one that is no number. -/
inductive Binary64.Unsigned : Binary64 → Prop
  | finite (size : Magnitude) : Unsigned (.finite false size)
  | infinite : Unsigned (.infinite false)

/-- What is nearest to a quotient without a minus has none. -/
theorem Binary64.unsigned_nearest (num den : Nat) : (nearest false num den).Unsigned := by
  unfold nearest
  split
  · exact .finite _
  · exact .infinite

end Number

namespace Value

open Number (Binary64 Magnitude unitsPerOne)

/-- A finite number is written as an integer if it is whole and small enough. -/
theorem floatJson_finite (m : Magnitude) :
    floatJson (.finite false m) =
      if m.units % unitsPerOne = 0 ∧ m.units / unitsPerOne ≤ exactIntegerLimit then
        .integer (m.units / unitsPerOne : Nat)
      else .real false m := rfl

/-- A number without a minus is known by its dump. -/
theorem toJson_float_inj {x y : Binary64} (hx : x.Unsigned) (hy : y.Unsigned)
    (h : (float x).toJson = (float y).toJson) : x = y := by
  rw [toJson, toJson] at h
  cases hx with
  | finite m =>
      cases hy with
      | finite m' =>
          rw [floatJson_finite, floatJson_finite] at h
          split at h <;> split at h
          · next hwhole hwhole' =>
              have hquotient : m.units / unitsPerOne = m'.units / unitsPerOne :=
                Int.ofNat_inj.mp (Json.integer.inj h)
              have hunits : m.units = m'.units := by
                rw [← Nat.div_add_mod m.units unitsPerOne, hquotient, hwhole.1, ← hwhole'.1,
                  Nat.div_add_mod]
              rw [Magnitude.eq_of_units hunits]
          · cases h
          · cases h
          · cases h
            rfl
      | infinite =>
          rw [floatJson_finite] at h
          split at h <;> cases h
  | infinite =>
      cases hy with
      | finite m' =>
          rw [floatJson_finite] at h
          split at h <;> cases h
      | infinite => rfl

/-- A number is not written like a text. -/
theorem toJson_float_ne_string (x : Binary64) (text : String) :
    (float x).toJson ≠ .string text := by
  intro h
  rw [toJson] at h
  cases x with
  | finite negative m =>
      simp only [floatJson] at h
      split at h <;> cases h
  | _ => cases h

/-- An integer that is too large for 64 bits is not written as an integer. -/
theorem toJson_float_ne_integer {n : Nat} (h : Lexeme.integerLimit ≤ n) (value : Int) :
    (float (.nearest false n 1)).toJson ≠ .integer value := by
  have hpos : 0 < n := Nat.lt_of_lt_of_le (by decide) h
  have hhalf := Number.lt_two_mul_roundUnits hpos
  have hscaled := Nat.mul_le_mul_right unitsPerOne h
  rw [toJson]
  unfold Binary64.nearest
  split
  · have hwhole : ¬ Number.roundUnits n 1 / unitsPerOne ≤ exactIntegerLimit := by
      rw [Nat.not_le, ← Nat.succ_le_iff, Nat.le_div_iff_mul_le Number.unitsPerOne_pos]
      simp only [Lexeme.integerLimit, exactIntegerLimit] at hscaled ⊢
      omega
    simp [floatJson, hwhole]
  · simp [floatJson]

end Value

/-! ### Tokens -/

/-- The tag of a kind is read back. -/
theorem Kind.ofTag?_tag (kind : Kind) : ofTag? kind.tag = some kind := by
  cases kind <;> decide

/-- No two kinds have the same tag. -/
theorem Kind.tag_inj {kind kind' : Kind} (h : kind.tag = kind'.tag) : kind = kind' := by
  have htag := ofTag?_tag kind
  rw [h, ofTag?_tag, Option.some.injEq] at htag
  exact htag.symm

namespace Expression

open Lexeme

/-- What a token of a scan may be: a text, an integer, an integer that is too large, or a
number with a point. -/
inductive Carries : Kind → Value → Prop
  | text (kind : Kind) (text : String) : Carries kind (.text text)
  | integer (n : Nat) : Carries .integer (.integer n)
  | large {n : Nat} (h : integerLimit ≤ n) : Carries .integer (.float (.nearest false n 1))
  | float (num den : Nat) : Carries .float (.float (.nearest false num den))

/-- A scanned token carries a value that suits its kind. -/
theorem Scanned.carries {t : Token} (h : Scanned t) : Carries t.kind t.value := by
  obtain ⟨text, lexeme, hmunch⟩ := h
  generalize t.kind = kind, t.value = value at hmunch
  cases hmunch with
  | @number _ numeral =>
      cases numeral with
      | whole n =>
          by_cases hn : n < integerLimit
          · rw [numeralValue, if_pos hn]
            exact .integer n
          · rw [numeralValue, if_neg hn]
            exact .large (Nat.le_of_not_lt hn)
      | fractional digits places => exact .float _ _
  | _ => exact .text _ _

/-- Two values of one kind with one dump are the same. -/
theorem Carries.value_eq {kind : Kind} {value value' : Value} (h : Carries kind value)
    (h' : Carries kind value') (hjson : value.toJson = value'.toJson) : value = value' := by
  have hunsigned := Number.Binary64.unsigned_nearest
  cases h with
  | text kind text =>
      cases h' with
      | text => rw [Json.string.inj hjson]
      | integer => cases hjson
      | large | float => exact absurd hjson.symm (Value.toJson_float_ne_string _ _)
  | integer n =>
      cases h' with
      | text => cases hjson
      | integer => rw [Json.integer.inj hjson]
      | large hlarge => exact absurd hjson.symm (Value.toJson_float_ne_integer hlarge _)
  | large hlarge =>
      cases h' with
      | text => exact absurd hjson (Value.toJson_float_ne_string _ _)
      | integer => exact absurd hjson (Value.toJson_float_ne_integer hlarge _)
      | large => rw [Value.toJson_float_inj (hunsigned _ _) (hunsigned _ _) hjson]
  | float =>
      cases h' with
      | text => exact absurd hjson (Value.toJson_float_ne_string _ _)
      | float => rw [Value.toJson_float_inj (hunsigned _ _) (hunsigned _ _) hjson]

end Expression

namespace Token

/-- A token of a scan is known by its dump, but for its place. -/
theorem toJson_eq_iff {t u : Token} (ht : Expression.Scanned t) (hu : Expression.Scanned u) :
    t.toJson = u.toJson ↔ t.kind = u.kind ∧ t.value = u.value := by
  constructor
  · intro h
    have hfields : t.kind.tag = u.kind.tag ∧ t.value.toJson = u.value.toJson := by
      simpa [toJson] using h
    have hkind := Kind.tag_inj hfields.1
    exact ⟨hkind, ht.carries.value_eq (hkind ▸ hu.carries) hfields.2⟩
  · rintro ⟨hkind, hvalue⟩
    rw [toJson, toJson, hkind, hvalue]

/-- Tokens of two scans are known by their dumps one by one, but for their places. -/
theorem map_toJson_eq_iff {tokens tokens' : List Token}
    (h : ∀ t ∈ tokens, Expression.Scanned t) (h' : ∀ t ∈ tokens', Expression.Scanned t) :
    tokens.map toJson = tokens'.map toJson ↔
      List.Forall₂ (fun t u => t.kind = u.kind ∧ t.value = u.value) tokens tokens' := by
  induction tokens generalizing tokens' with
  | nil => cases tokens' <;> simp
  | cons t rest ih =>
      obtain ⟨ht, hrest⟩ := List.forall_mem_cons.mp h
      cases tokens' with
      | nil => simp
      | cons u rest' =>
          obtain ⟨hu, hrest'⟩ := List.forall_mem_cons.mp h'
          rw [List.map_cons, List.map_cons, List.cons.injEq, toJson_eq_iff ht hu,
            ih hrest hrest', List.forall₂_cons]

/-- In a lawful style, two lists of tokens are written alike exactly if their trees agree
token by token. -/
theorem writeOn_listTree_eq_iff {style : Json.Style} (hstyle : style.Lawful)
    (tokens tokens' : List Token) :
    (listTree tokens).writeOn style 0 "" = (listTree tokens').writeOn style 0 "" ↔
      tokens.map toJson = tokens'.map toJson := by
  constructor
  · intro hdump
    exact Json.array.inj (Json.writeOn_injective hstyle hdump)
  · intro hsame
    rw [listTree, listTree, hsame]

/-- **The dump of a list of tokens loses nothing but the places.**  Two sources, scanned
with any policy, have one dump exactly if their tokens agree one by one in kind and
value.  That holds of the dump in every lawful style, however it lays out binary
numbers. -/
theorem listJson_eq_iff {policy policy' : Policy} {source source' : String}
    {tokens tokens' : List Token} (h : (tokenize policy source).outcome = .ok tokens)
    (h' : (tokenize policy' source').outcome = .ok tokens') :
    (listJson tokens = listJson tokens' ↔
      List.Forall₂ (fun t u => t.kind = u.kind ∧ t.value = u.value) tokens tokens') ∧
    ∀ style : Json.Style, style.Lawful →
      ((listTree tokens).writeOn style 0 "" = (listTree tokens').writeOn style 0 "" ↔
        List.Forall₂ (fun t u => t.kind = u.kind ∧ t.value = u.value) tokens tokens') := by
  rw [← map_toJson_eq_iff (Expression.scanned_of_tokenize h) (Expression.scanned_of_tokenize h')]
  exact ⟨writeOn_listTree_eq_iff Json.lawful_pretty tokens tokens',
    fun style hstyle => writeOn_listTree_eq_iff hstyle tokens tokens'⟩

/-- The tokens of `9223372036854775808 1.0`: an integer that is too large for 64 bits, and
a number with a point. -/
def largeTokens : List Token :=
  [⟨.integer, .float (Number.Numeral.whole 9223372036854775808).toBinary64, ⟨1, 1, 0, 19⟩⟩,
   ⟨.float, .float (Number.Numeral.fractional 10 1).toBinary64, ⟨1, 21, 20, 23⟩⟩]

/-- The tokens of `9223372036854775809@1.00`. -/
def nextTokens : List Token :=
  [⟨.integer, .float (Number.Numeral.whole 9223372036854775809).toBinary64, ⟨1, 1, 0, 19⟩⟩,
   ⟨.float, .float (Number.Numeral.fractional 100 2).toBinary64, ⟨1, 21, 20, 24⟩⟩]

/-- The first source, scanned strictly. -/
theorem tokenize_largeTokens :
    (tokenize .reject "9223372036854775808 1.0").outcome = .ok largeTokens := by
  decide +kernel

/-- The second source, with a sign that is skipped. -/
theorem tokenize_nextTokens :
    (tokenize .skip "9223372036854775809@1.00").outcome = .ok nextTokens := by
  decide +kernel

/-- The two integers are nearest to the same binary number, so the dumps are the same, with
and without space. -/
theorem listJson_eq_iff_largeTokens :
    (tokenize .reject "9223372036854775808 1.0").outcome = .ok largeTokens ∧
      (tokenize .skip "9223372036854775809@1.00").outcome = .ok nextTokens ∧
      listJson largeTokens = listJson nextTokens ∧
      (listTree largeTokens).writeOn .compact 0 "" =
        (listTree nextTokens).writeOn .compact 0 "" := by
  have hsame : List.Forall₂ (fun t u => t.kind = u.kind ∧ t.value = u.value) largeTokens
      nextTokens := .cons ⟨rfl, by decide +kernel⟩ (.cons ⟨rfl, by decide +kernel⟩ .nil)
  have hdumps := listJson_eq_iff tokenize_largeTokens tokenize_nextTokens
  exact ⟨tokenize_largeTokens, tokenize_nextTokens, hdumps.1.mpr hsame,
    (hdumps.2 .compact Json.lawful_compact).mpr hsame⟩

end Token

end SochoScript
