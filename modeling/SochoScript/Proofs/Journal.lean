import SochoScript.Proofs.Layout
import SochoScript.Proofs.Nesting
import SochoScript.Proofs.Subcommands
import SochoScript.Compilation
import Mathlib.Algebra.GroupWithZero.Nat

/-!
# What the log accounts for

While a source is compiled its log grows from two loops.  The scan tells one event for
each piece.  The parser tells of a statement when it has been read and of a block when
the statements inside of it have been, and it calls itself for every block.  A condition
that follows `warna` directly is read without a row of its own: it is told neither as a
statement nor as a block, although its blocks are.  So the number of statements cannot
be read off the tree, and it has to be balanced over the whole run.

`RowLog` and `StatementLog` say what the log of some statements looks like without the
parser, one rule for each way to go on.  Whatever holds of the log of the parser follows
from these rules by induction.

* `Parser.rowLog_block`: the log of a parsed row follows the rules.
* `RowLog.balance`: the statements that are told are those of the row and those that the
  told blocks count.
* `RowLog.preceded`: what is told of the statements of a block stands right before it.
* `CommandLine.events_run_of_quieter`: a call that tells less only leaves events out.
* `compile_log_accounts`: **the log accounts for the whole compilation.**
-/

namespace SochoScript

namespace Logged

variable {ε α β : Type}

/-- Nothing is told when a value is only mapped. -/
@[simp] theorem events_bind_pure (m : Logged ε α) (f : α → β) :
    (m >>= fun a => pure (f a)).events = m.events := by
  cases houtcome : m.outcome with
  | error e => exact events_bind_error houtcome _
  | ok a => rw [events_bind_ok houtcome, events_pure, List.append_nil]

/-- What was found is told, and then the rest follows. -/
theorem events_bind_tell {m : Logged ε α} {a : α} (h : m.outcome = .ok a) (event : α → Event)
    (next : α → Logged ε β) :
    (m >>= fun a => tell (event a) >>= fun _ => next a).events =
      m.events ++ event a :: (next a).events := by
  rw [events_bind_ok h, events_bind_ok (outcome_tell _)]
  rfl

end Logged

/-! ### Views of a log -/

namespace Event

/-- The events that say `message`. -/
def saying (message : String) (events : List Event) : List Event :=
  events.filter fun event => event.message = message

/-- The number in a field of an event, or zero if there is none. -/
def number (field : String) (event : Event) : Nat :=
  match event.fields.lookup field with
  | some (.count value) => value
  | _ => 0

/-- The sum of a field over the events that say `message`. -/
def total (message field : String) (events : List Event) : Nat :=
  ((saying message events).map (number field)).sum

@[simp, grind =] theorem saying_nil (message : String) : saying message [] = [] := rfl

/-- An event is kept exactly if it says the message. -/
@[simp, grind =] theorem saying_cons (message : String) (event : Event) (events : List Event) :
    saying message (event :: events) =
      if event.message = message then event :: saying message events
      else saying message events := by
  simp [saying, List.filter_cons]

/-- What two logs say is said one after the other. -/
@[simp, grind =] theorem saying_append (message : String) (events events' : List Event) :
    saying message (events ++ events') = saying message events ++ saying message events' :=
  List.filter_append _ _

@[simp, grind =] theorem total_nil (message field : String) : total message field [] = 0 := rfl

/-- An event counts exactly if it says the message. -/
@[simp, grind =] theorem total_cons (message field : String) (event : Event) (events : List Event) :
    total message field (event :: events) =
      (if event.message = message then event.number field else 0) + total message field events := by
  by_cases h : event.message = message <;> simp [total, h]

/-- The sums of two logs add up. -/
@[simp, grind =] theorem total_append (message field : String) (events events' : List Event) :
    total message field (events ++ events') =
      total message field events + total message field events' := by
  simp [total]

@[simp, grind =] theorem number_parsedBlock (tokens statements : Nat) :
    (parsedBlock tokens statements).number "statements" = statements := rfl

@[simp] theorem number_parsed (statements : Nat) :
    (parsed statements).number "statements" = statements := rfl

end Event

/-! ### The log of the parser -/

mutual

/-- What is told while the statements of a row are read. -/
inductive RowLog : List Statement → List Event → Prop
  | nil : RowLog [] []
  /-- A token between two statements. -/
  | stray {body : List Statement} {events : List Event} (t : Token) (hrest : RowLog body events) :
      RowLog body (.strayToken t :: events)
  /-- A statement, after what was told while it was read. -/
  | read {s : Statement} {body : List Statement} {own events : List Event}
      (hown : StatementLog s own) (hrest : RowLog body events) :
      RowLog (s :: body) (own ++ .parsedStatement s :: events)

/-- What is told while a statement is read: each of its blocks, after what was told while
the statements of the block were read. -/
inductive StatementLog : Statement → List Event → Prop
  | declaration (name : String) (value : Option String) : StatementLog (.declaration name value) []
  | print (value : String) : StatementLog (.print value) []
  | input (name : String) (prompt : Option String) : StatementLog (.input name prompt) []
  /-- A condition without another branch. -/
  | alone {body : List Statement} {own : List Event} (test : String) (tokens : Nat)
      (hbody : RowLog body own) :
      StatementLog (.condition test body []) (own ++ [.parsedBlock tokens body.length])
  /-- A condition whose other branch is a block. -/
  | otherwise {body other : List Statement} {own more : List Event} (test : String)
      (tokens tokens' : Nat) (hbody : RowLog body own) (hother : RowLog other more) :
      StatementLog (.condition test body other)
        (own ++ .parsedBlock tokens body.length ::
          (more ++ [.parsedBlock tokens' other.length]))
  /-- A condition whose other branch is another condition, which is told neither as a
  statement nor as a block. -/
  | chained {body body' other' : List Statement} {own more : List Event} (test test' : String)
      (tokens : Nat) (hbody : RowLog body own)
      (hother : StatementLog (.condition test' body' other') more) :
      StatementLog (.condition test body [.condition test' body' other'])
        (own ++ .parsedBlock tokens body.length :: more)

end

namespace Parser

/-- What is told while the statement that a token opens is read. -/
def openingEvents (t : Token) (rest : List Token) : List Event :=
  match t.keyword? with
  | some .agar => (condition t rest).events
  | _ => []

/-- Nothing is told of a row without tokens. -/
@[simp] theorem events_block_nil : (block []).events = [] := by
  rw [block]
  rfl

/-- A token that is passed over is told, unless it ends a statement. -/
theorem events_block_stray {t : Token} {rest : List Token} (h : statement? t rest = none) :
    (block (t :: rest)).events = (block rest).events ∨
      (block (t :: rest)).events = .strayToken t :: (block rest).events := by
  have hpassed : (if t.kind = .endOfStatement then block rest
      else do Logged.tell (.strayToken t); block rest).events = (block rest).events ∨
      (if t.kind = .endOfStatement then block rest
        else do Logged.tell (.strayToken t); block rest).events =
          .strayToken t :: (block rest).events := by
    split
    · exact .inl rfl
    · exact .inr (Logged.events_bind_ok (Logged.outcome_tell _) _)
  rw [block]
  unfold statement? at h
  cases hkeyword : t.keyword? with
  | none => exact hpassed
  | some keyword =>
      rw [hkeyword] at h
      cases keyword with
      | warna => exact hpassed
      | socho | likho | pucho | agar => cases h

/-- A statement is told after what is told while it is read, and before the rest. -/
theorem events_block_read {t : Token} {rest : List Token} {read : Reading Statement rest}
    (h : statement? t rest = some (.ok read)) :
    (block (t :: rest)).events =
      openingEvents t rest ++ .parsedStatement read.value :: (block read.rest).events := by
  rw [block, openingEvents]
  unfold statement? at h
  cases hkeyword : t.keyword? with
  | none => simp [hkeyword] at h
  | some keyword =>
      rw [hkeyword] at h
      cases keyword with
      | warna => cases h
      | socho | likho | pucho | agar =>
          have hread := Option.some.inj h
          refine (Logged.events_bind_tell hread _ _).trans ?_
          simp

/-- What is told while a condition is read, whose first block was read. -/
theorem events_condition {keyword : Token} {tokens : List Token} {head : Guarded tokens}
    {body : List Statement} (hhead : guarded keyword tokens = .ok head)
    (hbody : (block head.inside).outcome = .ok body) :
    (condition keyword tokens).events =
      (block head.inside).events ++ .parsedBlock head.inside.length body.length ::
        match branch head.rest with
        | .none => []
        | .chained next rest _ => (condition next rest).events
        | .block opening rest _ =>
          match Block.read opening rest with
          | .error _ => []
          | .ok other =>
            (block other.inside).events ++
              match (block other.inside).outcome with
              | .error _ => []
              | .ok otherwise => [.parsedBlock other.inside.length otherwise.length] := by
  have hfirst : (Logged.ofExcept (guarded keyword tokens)).outcome = .ok head := hhead
  rw [condition, Logged.events_bind_ok hfirst]
  refine (Logged.events_bind_tell hbody _ _).trans ?_
  congr 2
  cases branch head.rest with
  | none => rfl
  | chained next rest hlt => exact Logged.events_bind_pure _ _
  | block opening rest hlt =>
      dsimp only
      cases Block.read opening rest with
      | error d => rfl
      | ok other =>
          refine (Logged.events_bind_ok (Logged.outcome_ofExcept _) _).trans ?_
          dsimp only
          cases hother : (block other.inside).outcome with
          | error d => exact (Logged.events_bind_error hother _).trans (List.append_nil _).symm
          | ok otherwise => exact Logged.events_bind_tell hother _ _

mutual

/-- **The log of a row is that of its statements.** -/
theorem rowLog_block : ∀ {tokens : List Token} {body : List Statement},
    (block tokens).outcome = .ok body → RowLog body (block tokens).events
  | [], body, h => by
      rw [outcome_block_nil] at h
      cases h
      rw [events_block_nil]
      exact .nil
  | t :: rest, body, h => by
      rw [outcome_block_cons] at h
      cases hstatement : statement? t rest with
      | none =>
          simp only [hstatement] at h
          have hrest := rowLog_block h
          rcases events_block_stray hstatement with hevents | hevents
          · rw [hevents]
            exact hrest
          · rw [hevents]
            exact .stray t hrest
      | some reading =>
          simp only [hstatement, bind_eq_ok_iff] at h
          obtain ⟨read, rfl, more, hmore, hbody⟩ := h
          cases hbody
          have hlength := read.notLonger
          rw [events_block_read hstatement]
          exact .read (statementLog_opening (opens_iff.mpr ⟨_, hstatement, _, rfl, rfl, rfl⟩))
            (rowLog_block hmore)
termination_by tokens => 2 * tokens.length

/-- What is told while a statement is read is its log. -/
theorem statementLog_opening {t : Token} {rest follow : List Token} {s : Statement}
    (h : Opens t rest s follow) : StatementLog s (openingEvents t rest) := by
  unfold openingEvents
  cases h with
  | declaration hkeyword hread =>
      obtain ⟨name, more, value, -, -, -, rfl⟩ := yields_declaration_iff.mp hread
      rw [Token.keyword?_eq_some_iff.mpr hkeyword]
      exact .declaration _ _
  | print hkeyword hread =>
      obtain ⟨value, -, -, rfl⟩ := yields_print_iff.mp hread
      rw [Token.keyword?_eq_some_iff.mpr hkeyword]
      exact .print _
  | input hkeyword hread =>
      obtain ⟨name, more, -, -, -, rfl⟩ := yields_input_iff.mp hread
      rw [Token.keyword?_eq_some_iff.mpr hkeyword]
      exact .input _ _
  | condition hkeyword hread =>
      rw [Token.keyword?_eq_some_iff.mpr hkeyword]
      obtain ⟨read, hread, rfl, rfl⟩ := hread
      obtain ⟨test, body, other, hvalue, hlog⟩ := statementLog_condition hread
      rw [hvalue]
      exact hlog
termination_by 2 * rest.length + 1

/-- What is told while a condition is read is its log. -/
theorem statementLog_condition {keyword : Token} {tokens : List Token}
    {read : Reading Statement tokens} (h : (condition keyword tokens).outcome = .ok read) :
    ∃ test body other, read.value = .condition test body other ∧
      StatementLog (.condition test body other) (condition keyword tokens).events := by
  rw [outcome_condition] at h
  simp only [bind_eq_ok_iff] at h
  obtain ⟨head, hhead, body, hbody, hmore⟩ := h
  have hshorter := head.shorter
  have hown := rowLog_block hbody
  rw [events_condition hhead hbody]
  cases hbranch : branch head.rest with
  | none =>
      simp only [hbranch] at hmore
      cases hmore
      exact ⟨_, _, _, rfl, .alone head.test head.inside.length hown⟩
  | chained next rest hlt =>
      simp only [hbranch, bind_eq_ok_iff] at hmore
      obtain ⟨chained, hchained, hread⟩ := hmore
      cases hread
      obtain ⟨test, inner, other, hvalue, hlog⟩ := statementLog_condition hchained
      exact ⟨_, _, _, by rw [hvalue], .chained head.test test head.inside.length hown hlog⟩
  | block opening rest hlt =>
      simp only [hbranch, bind_eq_ok_iff] at hmore
      obtain ⟨other, hother, otherwise, hotherwise, hread⟩ := hmore
      cases hread
      have hinside := other.shorter
      simp only [hother, hotherwise]
      exact ⟨_, _, _, rfl, .otherwise head.test head.inside.length other.inside.length hown
        (rowLog_block hotherwise)⟩
termination_by 2 * tokens.length

end

end Parser

/-! ### Statements and blocks are counted -/

mutual

/-- **A row tells of its own statements and of those that its blocks count.** -/
theorem RowLog.balance : ∀ {body : List Statement} {events : List Event}, RowLog body events →
    (Event.saying "parsed statement" events).length =
      body.length + Event.total "parsed block" "statements" events
  | _, _, .nil => rfl
  | _, _, .stray t hrest => by
      have hmore := hrest.balance
      simpa [Event.message] using hmore
  | _, _, .read hown hrest => by
      have hinner := hown.balance
      have hmore := hrest.balance
      grind [Event.message]

/-- A statement tells of the statements that its blocks count. -/
theorem StatementLog.balance : ∀ {s : Statement} {events : List Event}, StatementLog s events →
    (Event.saying "parsed statement" events).length =
      Event.total "parsed block" "statements" events
  | _, _, .declaration _ _ => rfl
  | _, _, .print _ => rfl
  | _, _, .input _ _ => rfl
  | _, _, .alone test tokens hbody => by
      have hinner := hbody.balance
      grind [Event.message]
  | _, _, .otherwise test tokens tokens' hbody hother => by
      have hinner := hbody.balance
      have hmore := hother.balance
      grind [Event.message]
  | _, _, .chained test test' tokens hbody hother => by
      have hinner := hbody.balance
      have hmore := hother.balance
      grind [Event.message]

end

/-! ### What comes before a block -/

/-- One of the statements has `block` as one of its two branches. -/
def Branches (row block : List Statement) : Prop :=
  ∃ test body other, .condition test body other ∈ row ∧ (block = body ∨ block = other)

/-- Each block that is told is one of `row`, at any depth, and what was told while its
statements were read comes right before it. -/
def Preceded (row : List Statement) (events : List Event) : Prop :=
  ∀ before tokens statements after, events = before ++ .parsedBlock tokens statements :: after →
    ∃ block own, Relation.TransGen Branches row block ∧ block.length = statements ∧
      own <:+ before ∧ RowLog block own

section

variable {row : List Statement}

/-- Where no block is told, nothing has to come before one. -/
theorem preceded_of_saying_eq_nil {events : List Event}
    (h : Event.saying "parsed block" events = []) : Preceded row events := by
  intro before tokens statements after hevents
  simp [hevents, Event.message] at h

/-- Two logs in which each block is preceded can be joined. -/
theorem Preceded.append {events events' : List Event} (h : Preceded row events)
    (h' : Preceded row events') : Preceded row (events ++ events') := by
  intro before tokens statements after hsplit
  rcases List.append_eq_append_iff.mp hsplit with ⟨more, rfl, hmore⟩ | ⟨more, hevents, hmore⟩
  · obtain ⟨block, own, hblock, hlength, hown, hlog⟩ := h' more tokens statements after hmore
    exact ⟨block, own, hblock, hlength, hown.trans (List.suffix_append _ _), hlog⟩
  · cases more with
    | nil =>
        obtain ⟨block, own, hblock, hlength, hown, hlog⟩ :=
          h' [] tokens statements after hmore.symm
        exact ⟨block, own, hblock, hlength, hown.trans (List.nil_suffix), hlog⟩
    | cons first more =>
        cases hmore
        exact h before tokens statements more hevents

/-- An event that is no block can be told before. -/
theorem Preceded.cons {event : Event} {events : List Event} (h : Preceded row events)
    (hevent : event.message ≠ "parsed block") : Preceded row (event :: events) := by
  have hfirst : Event.saying "parsed block" [event] = [] := by simp [hevent]
  exact (preceded_of_saying_eq_nil hfirst).append h

/-- A block that is told after its statements. -/
theorem Preceded.told {block : List Statement} {own : List Event} (tokens : Nat)
    (h : Preceded row own) (hblock : Relation.TransGen Branches row block)
    (hlog : RowLog block own) : Preceded row (own ++ [.parsedBlock tokens block.length]) := by
  intro before tokens statements after hsplit
  rcases List.eq_nil_or_concat after with rfl | ⟨more, last, rfl⟩
  · obtain ⟨rfl, hevent⟩ := List.append_inj' hsplit rfl
    cases hevent
    exact ⟨block, own, hblock, rfl, List.suffix_refl own, hlog⟩
  · rw [List.concat_eq_append, ← List.cons_append, ← List.append_assoc] at hsplit
    obtain ⟨hown, -⟩ := List.append_inj' hsplit rfl
    exact h before _ _ more hown

mutual

/-- In the log of a row each block is preceded by its statements. -/
theorem RowLog.preceded : ∀ {body : List Statement} {events : List Event}, RowLog body events →
    ∀ {block : List Statement}, body ⊆ block → Relation.ReflTransGen Branches row block →
      Preceded row events
  | _, _, .nil, _, _, _ => preceded_of_saying_eq_nil rfl
  | _, _, .stray t hrest, _, hbody, hblock =>
      (hrest.preceded hbody hblock).cons (by simp [Event.message])
  | _, _, .read hown hrest, _, hbody, hblock => by
      obtain ⟨hs, hmore⟩ := List.cons_subset.mp hbody
      exact (hown.preceded hs hblock).append
        ((hrest.preceded hmore hblock).cons (by simp [Event.message]))

/-- So it is in the log of a statement. -/
theorem StatementLog.preceded : ∀ {s : Statement} {events : List Event}, StatementLog s events →
    ∀ {block : List Statement}, s ∈ block → Relation.ReflTransGen Branches row block →
      Preceded row events
  | _, _, .declaration _ _, _, _, _ => preceded_of_saying_eq_nil rfl
  | _, _, .print _, _, _, _ => preceded_of_saying_eq_nil rfl
  | _, _, .input _ _, _, _, _ => preceded_of_saying_eq_nil rfl
  | _, _, .alone test tokens hbody, _, hs, hblock => by
      have hinside := Relation.TransGen.tail' hblock ⟨_, _, _, hs, .inl rfl⟩
      have hown := hbody.preceded (List.Subset.refl _) hinside.to_reflTransGen
      exact hown.told tokens hinside hbody
  | _, _, .otherwise test tokens tokens' hbody hother, _, hs, hblock => by
      have hinside := Relation.TransGen.tail' hblock ⟨_, _, _, hs, .inl rfl⟩
      have hbeside := Relation.TransGen.tail' hblock ⟨_, _, _, hs, .inr rfl⟩
      have hown := hbody.preceded (List.Subset.refl _) hinside.to_reflTransGen
      have hmore := hother.preceded (List.Subset.refl _) hbeside.to_reflTransGen
      have hall := (hown.told tokens hinside hbody).append (hmore.told tokens' hbeside hother)
      simpa using hall
  | _, _, .chained test test' tokens hbody hother, _, hs, hblock => by
      have hinside := Relation.TransGen.tail' hblock ⟨_, _, _, hs, .inl rfl⟩
      have hbeside := Relation.TransGen.tail' hblock ⟨_, _, _, hs, .inr rfl⟩
      have hown := hbody.preceded (List.Subset.refl _) hinside.to_reflTransGen
      have hmore := hother.preceded List.mem_cons_self hbeside.to_reflTransGen
      have hall := (hown.told tokens hinside hbody).append hmore
      simpa using hall

end

end

/-! ### The three stages -/

/-- A walk to the end of a source is told piece by piece. -/
theorem events_tokenize_of_passes {policy : Policy} {source : String} {pieces : List Piece}
    {after : List Char} (h : Scan.Passes policy [] source.toList pieces after []) :
    (tokenize policy source).events =
      .tokenizing source.utf8ByteSize :: (pieces.map Event.ofPiece ++
        [.tokenized (pieces.filterMap Piece.token?).length
          (pieces.filterMap Piece.skipped?).length]) := by
  have hscan : (Lexer.ofSource source policy).scan =
      ⟨pieces ++ [], none, [], Position.origin.advanceAll after⟩ := by
    have hrun := Scan.run_of_passes h
    rwa [Position.advanceAll_nil, Scan.run_nil] at hrun
  simp only [tokenize, Lexer.tokenize, hscan, Scan.tokens, Scan.skipped, List.append_nil]
  simp [Lexer.ofSource]

/-- The parser tells how many tokens it has, and in the end how many statements. -/
theorem events_parse {tokens : List Token} {body : List Statement}
    (h : (Parser.block tokens).outcome = .ok body) :
    (parse tokens).events =
      .parsing tokens.length :: ((Parser.block tokens).events ++ [.parsed body.length]) := by
  rw [parse, Logged.events_bind_ok (Logged.outcome_tell _)]
  exact congrArg _ (Logged.events_bind_tell h _ _)

/-- A compilation that succeeds tells what its stages tell, one after the other. -/
theorem events_compile {settings : Settings} {source : String} {compilation : Compilation}
    (h : (compile settings source).outcome = .ok compilation) :
    (tokenize settings.policy source).outcome = .ok compilation.tokens ∧
      (Parser.block compilation.tokens).outcome = .ok compilation.program.body ∧
      (compile settings source).events =
        (tokenize settings.policy source).events ++
          ((parse compilation.tokens).events ++
            (generate settings compilation.program).events) := by
  rw [outcome_compile] at h
  simp only [bind_eq_ok_iff, outcome_parse] at h
  obtain ⟨tokens, htokens, program, ⟨body, hbody, hprogram⟩, hcompilation⟩ := h
  cases hprogram
  cases hcompilation
  refine ⟨htokens, hbody, ?_⟩
  have hprogram : (parse tokens).outcome = .ok ⟨body⟩ := by
    rw [outcome_parse, hbody]
    rfl
  rw [compile, Logged.events_bind_ok htokens, Logged.events_bind_ok hprogram,
    Logged.events_bind_pure]

/-! ### Who says what -/

namespace Event

/-- A message that none of the events has is not said. -/
theorem saying_eq_nil {messages : List String} {events : List Event}
    (h : ∀ event ∈ events, event.message ∈ messages) {message : String}
    (hmessage : message ∉ messages) : saying message events = [] := by
  rw [saying, List.filter_eq_nil_iff]
  intro event hevent
  have hmem := h event hevent
  grind

/-- Nor does it count. -/
theorem total_eq_zero {messages : List String} {events : List Event}
    (h : ∀ event ∈ events, event.message ∈ messages) {message : String}
    (hmessage : message ∉ messages) (field : String) : total message field events = 0 := by
  simp [total, saying_eq_nil h hmessage]

/-- The messages of a scan. -/
theorem message_ofPiece (pieces : List Piece) :
    ∀ event ∈ pieces.map ofPiece, event.message ∈ ["token", "skipping invalid character"] := by
  intro event hevent
  obtain ⟨piece, -, rfl⟩ := List.mem_map.mp hevent
  cases piece <;> simp [ofPiece, message]

/-- The messages of the code generation. -/
theorem message_generate (settings : Settings) (program : Program) :
    ∀ event ∈ (generate settings program).events, event.message ∈
      ["generating code", bareAwait.message, "code generation completed"] := by
  obtain ⟨policy, asyncWrap, target⟩ := settings
  cases target
  intro event hevent
  simp only [generate, JavaScript.Emitter.emit, List.mem_cons, List.mem_append] at hevent
  grind [message]

/-- The events of the pieces that one of the two views keeps. -/
theorem saying_ofPiece {α : Type} {message : String} {view : Piece → Option α}
    {event : α → Event} (h : ∀ piece, (view piece).map event =
      if (ofPiece piece).message = message then some (ofPiece piece) else none)
    (pieces : List Piece) :
    saying message (pieces.map ofPiece) = (pieces.filterMap view).map event := by
  induction pieces with
  | nil => rfl
  | cons piece pieces ih =>
      have hpiece := h piece
      cases hview : view piece <;> grind

/-- The tokens of a scan are told in order. -/
theorem saying_token (pieces : List Piece) :
    saying "token" (pieces.map ofPiece) = (pieces.filterMap Piece.token?).map token := by
  apply saying_ofPiece
  intro piece
  cases piece <;> rfl

/-- The skipped characters of a scan are told in order. -/
theorem saying_skipped (pieces : List Piece) :
    saying "skipping invalid character" (pieces.map ofPiece) =
      (pieces.filterMap Piece.skipped?).map skippedCharacter := by
  apply saying_ofPiece
  intro piece
  cases piece <;> rfl

/-- No event is told at a level that tells more than this one. -/
theorem upTo_debug (events : List Event) : upTo .debug events = events := by
  rw [upTo, List.filter_eq_self]
  intro event _
  cases event <;> rfl

end Event

mutual

/-- The messages in the log of a row. -/
theorem RowLog.message : ∀ {body : List Statement} {events : List Event}, RowLog body events →
    ∀ event ∈ events, event.message ∈ ["skipping stray token", "parsed statement", "parsed block"]
  | _, _, .nil => by simp
  | _, _, .stray t hrest => by
      have hmore := hrest.message
      grind [Event.message]
  | _, _, .read hown hrest => by
      have hinner := hown.message
      have hmore := hrest.message
      grind [Event.message]

/-- The messages in the log of a statement. -/
theorem StatementLog.message : ∀ {s : Statement} {events : List Event}, StatementLog s events →
    ∀ event ∈ events, event.message ∈ ["skipping stray token", "parsed statement", "parsed block"]
  | _, _, .declaration _ _ => by simp
  | _, _, .print _ => by simp
  | _, _, .input _ _ => by simp
  | _, _, .alone test tokens hbody => by
      have hinner := hbody.message
      grind [Event.message]
  | _, _, .otherwise test tokens tokens' hbody hother => by
      have hinner := hbody.message
      have hmore := hother.message
      grind [Event.message]
  | _, _, .chained test test' tokens hbody hother => by
      have hinner := hbody.message
      have hmore := hother.message
      grind [Event.message]

end

/-- The log tells how a source was compiled, from which the characters `aside` were set
aside. -/
structure Accounts (source : String) (aside : List Skipped) (compilation : Compilation)
    (log : List Event) : Prop where
  /-- The pieces of the source, in their order, stand between the beginning and the end of
  the scan, and what is told of the statements between those of the parser. -/
  stages : ∃ (pieces : List Piece) (read emitted : List Event),
    log = .tokenizing source.utf8ByteSize :: (pieces.map Event.ofPiece ++
      .tokenized compilation.tokens.length aside.length ::
      .parsing compilation.tokens.length :: (read ++
      .parsed compilation.program.body.length :: emitted)) ∧
    pieces.filterMap Piece.token? = compilation.tokens ∧
    pieces.filterMap Piece.skipped? = aside ∧
    ((pieces.map Piece.span).Pairwise fun left right => left.start < right.start) ∧
    RowLog compilation.program.body read
  /-- All tokens are told, and no others. -/
  tokens : (Event.saying "token" log).map Event.fields = compilation.tokens.map fun t =>
    [("kind", .text t.kind.name), ("value", .text t.value.display),
      ("position", .text t.span.place)]
  /-- All characters that were set aside are told, and no others. -/
  skipped : (Event.saying "skipping invalid character" log).map Event.fields =
    aside.map fun s => [("character", .text s.character.toString),
      ("position", .text s.span.place)]
  /-- The scan is told to be over once. -/
  scanned : (Event.saying "tokenizing completed" log).map Event.fields =
    [[("tokens", .count compilation.tokens.length), ("skipped", .count aside.length)]]
  /-- The parser is told to be over once. -/
  parsed : (Event.saying "parsing completed" log).map Event.fields =
    [[("statements", .count compilation.program.body.length)]]
  /-- The statements that are told are those that the program and its blocks count. -/
  balance : (Event.saying "parsed statement" log).length =
    Event.total "parsing completed" "statements" log +
      Event.total "parsed block" "statements" log
  /-- A block comes right after its statements. -/
  preceded : Preceded compilation.program.body log

/-- Everything that is told follows from how the log is made up. -/
theorem accounts_of_stages (source : String) {aside : List Skipped} {compilation : Compilation}
    {pieces : List Piece} {read emitted : List Event}
    (htokens : pieces.filterMap Piece.token? = compilation.tokens)
    (hskipped : pieces.filterMap Piece.skipped? = aside)
    (hordered : (pieces.map Piece.span).Pairwise fun left right => left.start < right.start)
    (hread : RowLog compilation.program.body read)
    (hemitted : ∀ event ∈ emitted, event.message ∈
      ["generating code", Event.bareAwait.message, "code generation completed"]) :
    Accounts source aside compilation
      (.tokenizing source.utf8ByteSize :: (pieces.map Event.ofPiece ++
        .tokenized compilation.tokens.length aside.length ::
        .parsing compilation.tokens.length :: (read ++
        .parsed compilation.program.body.length :: emitted))) := by
  have hscan := Event.message_ofPiece pieces
  have hsaid := hread.message
  refine ⟨⟨pieces, read, emitted, rfl, htokens, hskipped, hordered, hread⟩,
    ?_, ?_, ?_, ?_, ?_, ?_⟩
  · simp [Event.message, Event.saying_token, Event.saying_eq_nil hsaid,
      Event.saying_eq_nil hemitted, htokens, Event.fields]
  · simp [Event.message, Event.saying_skipped, Event.saying_eq_nil hsaid,
      Event.saying_eq_nil hemitted, hskipped, Event.fields]
  · simp [Event.message, Event.saying_eq_nil hscan, Event.saying_eq_nil hsaid,
      Event.saying_eq_nil hemitted, Event.fields]
  · simp [Event.message, Event.saying_eq_nil hscan, Event.saying_eq_nil hsaid,
      Event.saying_eq_nil hemitted, Event.fields]
  · simp [Event.message, Event.saying_eq_nil hscan, Event.saying_eq_nil hemitted,
      Event.total_eq_zero hscan, Event.total_eq_zero hsaid, Event.total_eq_zero hemitted,
      hread.balance]
  · -- Blocks are told by the parser only; what comes before and after it tells of none.
    have hopening : Preceded compilation.program.body (.tokenizing source.utf8ByteSize ::
        (pieces.map Event.ofPiece ++ [.tokenized compilation.tokens.length aside.length,
          .parsing compilation.tokens.length])) :=
      preceded_of_saying_eq_nil (by simp [Event.message, Event.saying_eq_nil hscan])
    have hclosing : Preceded compilation.program.body
        (.parsed compilation.program.body.length :: emitted) :=
      preceded_of_saying_eq_nil (by simp [Event.message, Event.saying_eq_nil hemitted])
    have hblocks := hread.preceded (List.Subset.refl _) .refl
    have hall := hopening.append (hblocks.append hclosing)
    simpa using hall

/-! ### Calls that tell less -/

/-- Of what a level tells, a level that tells less keeps what it would tell itself. -/
theorem Event.upTo_upTo {limit limit' : Level} (h : limit.rank ≤ limit'.rank)
    (events : List Event) : upTo limit (upTo limit' events) = upTo limit events := by
  rw [upTo, upTo, upTo, List.filter_filter]
  congr 1
  funext event
  rw [← Bool.decide_and, decide_eq_decide]
  omega

namespace CommandLine

open FileTree

variable {arguments arguments' : List String} {invocation invocation' : Invocation}

/-- A call tells what happens in its command, up to the level that it asks for. -/
theorem events_run (h : read arguments = .ok invocation) (t : FileTree) :
    (run fileSystem arguments t).1.events =
      Event.upTo (logLevel invocation) (perform fileSystem invocation.command t).1.events := by
  change (call arguments t).1.events = _
  rw [call_eq h]
  dsimp only
  split <;> rfl

/-- **A call that tells less only leaves events out.** -/
theorem events_run_of_quieter (h : read arguments = .ok invocation)
    (h' : read arguments' = .ok invocation') (hcommand : invocation'.command = invocation.command)
    (hlevel : (logLevel invocation').rank ≤ (logLevel invocation).rank) (t : FileTree) :
    (run fileSystem arguments' t).1.events =
      (run fileSystem arguments t).1.events.filter fun event =>
        event.level.rank ≤ (logLevel invocation').rank := by
  rw [events_run h, events_run h', hcommand]
  exact (Event.upTo_upTo hlevel _).symm

end CommandLine

/-! ### The whole log -/

/-- **The log accounts for the whole compilation.**  At the level that tells most it has
every token and every character that was set aside, in the order of the source, and
their two numbers.  It tells as many statements as the program and the told blocks
count, and a block right after its own statements, so that inner blocks come before
outer ones.  A level that tells less only leaves events out: so it is for the log itself,
and for what two calls of the program tell of the same command, on whatever files. -/
theorem compile_log_accounts (settings : Settings) (source : String) (compilation : Compilation)
    (h : (compile settings source).outcome = .ok compilation) :
    Accounts source (Lexer.ofSource source settings.policy).next.skipped compilation
      (Event.upTo .debug (compile settings source).events) ∧
    (∀ level : Level, level.rank ≤ Level.debug.rank →
      Event.upTo level (compile settings source).events =
        (Event.upTo .debug (compile settings source).events).filter fun event =>
          event.level.rank ≤ level.rank) ∧
    ∀ (t : FileTree) (arguments arguments' : List String)
      (invocation invocation' : CommandLine.Invocation),
      CommandLine.read arguments = .ok invocation →
      CommandLine.read arguments' = .ok invocation' →
      invocation'.command = invocation.command →
      (CommandLine.logLevel invocation').rank ≤ (CommandLine.logLevel invocation).rank →
      (CommandLine.run FileTree.fileSystem arguments' t).1.events =
        (CommandLine.run FileTree.fileSystem arguments t).1.events.filter fun event =>
          event.level.rank ≤ (CommandLine.logLevel invocation').rank := by
  refine ⟨?_, ?_, ?_⟩
  · rw [Event.upTo_debug]
    obtain ⟨htokens, hbody, hevents⟩ := events_compile h
    obtain ⟨pieces, hpasses, hpieces, hskipped⟩ := exists_passes_of_tokenize htokens
    have haccounts := accounts_of_stages source hpieces.symm hskipped.symm hpasses.increasing
      (Parser.rowLog_block hbody) (Event.message_generate settings compilation.program)
    rw [events_tokenize_of_passes hpasses, events_parse hbody, ← hpieces, ← hskipped] at hevents
    simpa [hevents] using haccounts
  · intro level hlevel
    exact (Event.upTo_upTo hlevel _).symm
  · intro t arguments arguments' invocation invocation' hread hread' hcommand hlevel
    exact CommandLine.events_run_of_quieter hread hread' hcommand hlevel t

/-- A condition with another one in its other branch, and a character that is set aside. -/
def chainedSource : String := "agar a \x7blikho b\x7d warna agar c \x7b@\x7d"

def chainedTokens : List Token :=
  [⟨.keyword, .text "agar", ⟨1, 1, 0, 4⟩⟩, ⟨.identifier, .text "a", ⟨1, 6, 5, 6⟩⟩,
    ⟨.bracket, .text "\x7b", ⟨1, 8, 7, 8⟩⟩, ⟨.keyword, .text "likho", ⟨1, 9, 8, 13⟩⟩,
    ⟨.identifier, .text "b", ⟨1, 15, 14, 15⟩⟩, ⟨.bracket, .text "\x7d", ⟨1, 16, 15, 16⟩⟩,
    ⟨.keyword, .text "warna", ⟨1, 18, 17, 22⟩⟩, ⟨.keyword, .text "agar", ⟨1, 24, 23, 27⟩⟩,
    ⟨.identifier, .text "c", ⟨1, 29, 28, 29⟩⟩, ⟨.bracket, .text "\x7b", ⟨1, 31, 30, 31⟩⟩,
    ⟨.bracket, .text "\x7d", ⟨1, 33, 32, 33⟩⟩]

def chainedProgram : Program := ⟨[.condition "a" [.print "b"] [.condition "c" [] []]]⟩

def chainedCompilation : Compilation :=
  ⟨chainedTokens, chainedProgram,
    (JavaScript.Emitter.emit { asyncWrap := true } chainedProgram).code⟩

/-- A chain of conditions is compiled. -/
theorem compile_chainedSource : (compile {} chainedSource).outcome = .ok chainedCompilation := by
  have htokens : (tokenize .skip chainedSource).outcome = .ok chainedTokens := by decide +kernel
  have hprogram : (parse chainedTokens).outcome = .ok chainedProgram := by with_unfolding_all rfl
  simp only [outcome_compile, htokens, bind, Except.bind, hprogram]
  rfl

/-- The log of that source, and what two calls tell of one on any files: without an option,
and with the option that tells more. -/
theorem compile_log_accounts_chainedSource :
    (compile {} chainedSource).outcome = .ok chainedCompilation ∧
      Accounts chainedSource (Lexer.ofSource chainedSource .skip).next.skipped chainedCompilation
        (Event.upTo .debug (compile {} chainedSource).events) ∧
      (∀ level : Level, level.rank ≤ Level.debug.rank →
        Event.upTo level (compile {} chainedSource).events =
          (Event.upTo .debug (compile {} chainedSource).events).filter fun event =>
            event.level.rank ≤ level.rank) ∧
      ∀ t : FileTree,
        (CommandLine.run FileTree.fileSystem ["compile", "a"] t).1.events =
          (CommandLine.run FileTree.fileSystem ["-v", "compile", "a"] t).1.events.filter
            fun event => event.level.rank ≤ Level.info.rank := by
  obtain ⟨haccounts, hlevels, hcalls⟩ := compile_log_accounts {} _ _ compile_chainedSource
  have hread : CommandLine.read ["-v", "compile", "a"] =
      .ok ⟨1, false, false, .compile "a" "js" "build" true false⟩ := by decide +kernel
  have hread' : CommandLine.read ["compile", "a"] =
      .ok ⟨0, false, false, .compile "a" "js" "build" true false⟩ := by decide +kernel
  exact ⟨compile_chainedSource, haccounts, hlevels,
    fun t => hcalls t _ _ _ _ hread hread' rfl (by decide)⟩

end SochoScript
