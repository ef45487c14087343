import SochoScript.CommandLine.Run
import SochoScript.Proofs.Complaints
import SochoScript.Proofs.Files
import SochoScript.Proofs.Walk

/-!
# What the subcommands agree on

Three subcommands read a source and go different ways with it.  One prints its tokens,
one its program, and one compiles it and writes both to files, together with the code.
Each puts the stages together by itself, and only the last one changes files.

That they agree is said through the stages.  A source on a file tree either *becomes*
tokens and a program, or some failure *obstructs* that: it cannot be read, or the lexer or
the parser refuses it.  Exactly one of the two is the case, and every subcommand is
described by what it does in each.

* `Obstructs.outcome_parse`, `Obstructs.outcome_tokens`, `Obstructs.compileTo_eq`: what is
  done with a source that does not become a program.
* `Becomes.outcome_parse`, `Becomes.outcome_tokens`, `Becomes.compileTo_eq`: what is done
  with one that does.
* `subcommands_agree`: **a compilation is all or nothing up to its code, and what it writes
  is what the other subcommands print.**
-/

namespace SochoScript

/-! ### Where a complaint comes from -/

/-- Whether a complaint is about the characters of a source. -/
def Diagnostic.isLexical : Diagnostic → Bool
  | unexpectedCharacter _ _ => true
  | unterminatedLiteral _ _ => true
  | invalidNumber _ _ => true
  | _ => false

/-- Whether a failure is that a source cannot be read or scanned. -/
def Failure.isEarly : Failure → Bool
  | reading _ => true
  | diagnostic d => d.isLexical
  | writing _ => false

/-- What tokenizing complains about concerns the text. -/
theorem isLexical_of_tokenize {policy : Policy} {source : String} {d : Diagnostic}
    (h : (tokenize policy source).outcome = .error d) : d.isLexical = true := by
  rw [tokenize_eq_error_iff, Scan.fault?_run_eq_some_iff] at h
  obtain ⟨before, lexeme, rest, complaint, -, hfault, rfl⟩ := h
  generalize lexeme ++ rest = text at hfault
  cases hfault <;> rfl

/-- What parsing complains about concerns the tokens. -/
theorem not_isLexical_of_parse {tokens : List Token} {d : Diagnostic}
    (h : (parse tokens).outcome = .error d) : d.isLexical = false := by
  obtain ⟨row, -, hraises⟩ := Parser.exists_raises (parse_eq_error_iff.mp h)
  have hblames := hraises.blames
  cases hblames <;> rfl

namespace CommandLine

open FileTree

/-- The arguments are accepted and ask for the command. -/
def Asks (arguments : List String) (command : Command) : Prop :=
  ∃ invocation, read arguments = .ok invocation ∧ invocation.command = command

/-- A call of the program on a file tree: how it ends, and the tree afterwards. -/
def call (arguments : List String) (t : FileTree) : Outcome × FileTree :=
  run fileSystem arguments t

/-- The call ends well and prints `output`. -/
def Prints (ended : Outcome) (output : String) : Prop :=
  ended.exitCode = 0 ∧ ended.output = output ∧ ended.failure? = none

/-- The call fails and prints nothing. -/
def FailsWith (ended : Outcome) (failure : Failure) : Prop :=
  ended.exitCode = 1 ∧ ended.output = "" ∧ ended.failure? = some failure

section

variable {arguments : List String} {command : Command} {t : FileTree}

/-- A call carries out its command and says how that ended. -/
theorem call_eq {invocation : Invocation} (h : read arguments = .ok invocation) (t : FileTree) :
    call arguments t =
      let done := perform fileSystem invocation.command t
      let events := Event.upTo (logLevel invocation) done.1.events
      (match done.1.outcome with
        | .ok output => ⟨0, output, none, events, invocation.logJson⟩
        | .error failure => ⟨1, "", some failure, events, invocation.logJson⟩, done.2) := by
  simp only [call, run, h, bind, StateT.bind]
  generalize perform fileSystem invocation.command t = done
  obtain ⟨⟨events, outcome⟩, changed⟩ := done
  cases outcome <;> rfl

/-- A call leaves the tree that its command leaves. -/
theorem call_snd (h : Asks arguments command) :
    (call arguments t).2 = (perform fileSystem command t).2 := by
  obtain ⟨invocation, hread, rfl⟩ := h
  rw [call_eq hread]

/-- A call prints what its command gives. -/
theorem prints_iff (h : Asks arguments command) {output : String} :
    Prints (call arguments t).1 output ↔ (perform fileSystem command t).1.outcome = .ok output := by
  obtain ⟨invocation, hread, rfl⟩ := h
  rw [call_eq hread]
  dsimp only
  cases (perform fileSystem invocation.command t).1.outcome <;> simp [Prints]

/-- A call fails as its command does. -/
theorem failsWith_iff (h : Asks arguments command) {failure : Failure} :
    FailsWith (call arguments t).1 failure ↔
      (perform fileSystem command t).1.outcome = .error failure := by
  obtain ⟨invocation, hread, rfl⟩ := h
  rw [call_eq hread]
  dsimp only
  cases (perform fileSystem invocation.command t).1.outcome <;> simp [FailsWith]

/-- A call prints something or fails. -/
theorem prints_or_failsWith (h : Asks arguments command) (t : FileTree) :
    (∃ output, Prints (call arguments t).1 output) ∨
      ∃ failure, FailsWith (call arguments t).1 failure := by
  simp only [prints_iff h, failsWith_iff h]
  cases (perform fileSystem command t).1.outcome with
  | ok output => exact .inl ⟨output, rfl⟩
  | error failure => exact .inr ⟨failure, rfl⟩

/-- The exit code is zero exactly if something is printed. -/
theorem exitCode_eq_zero_iff (h : Asks arguments command) :
    (call arguments t).1.exitCode = 0 ↔ ∃ output, Prints (call arguments t).1 output := by
  apply Iff.intro
  · intro hzero
    rcases prints_or_failsWith h t with hprints | ⟨failure, hone, -⟩
    · exact hprints
    · omega
  · intro hprints
    obtain ⟨output, hzero, -⟩ := hprints
    exact hzero

end

/-! ### What a command does to a tree -/

/-- What only reads a source leaves the tree as it was. -/
theorem withSource_eq (t : FileTree) (path : String) (use : String → Logged Diagnostic String) :
    withSource fileSystem path use t =
      (match t.read path with
        | .error e => .fail (.reading e)
        | .ok source => (use source).mapFailure .diagnostic, t) := by
  have hread : fileSystem.read path t = (t.read path, t) := rfl
  simp only [withSource, bind, StateT.bind, hread]
  cases t.read path <;> rfl

/-- What is printed is a view of what a stage makes of the source. -/
theorem outcome_view {α : Type} (t : FileTree) (path : String)
    (stage : String → Logged Diagnostic α) (view : α → String) :
    (withSource fileSystem path (fun text => stage text >>= fun a => pure (view a)) t).1.outcome =
      match t.read path with
      | .error e => .error (.reading e)
      | .ok text =>
        match (stage text).outcome with
        | .error d => .error (.diagnostic d)
        | .ok a => .ok (view a) := by
  rw [withSource_eq]
  cases t.read path with
  | error e => rfl
  | ok text =>
      simp only [Logged.mapFailure, Logged.outcome_bind]
      cases (stage text).outcome <;> rfl

/-- The stages of a compilation into a directory, and what each of them leaves of the tree. -/
theorem compileTo_eq (t : FileTree) (path directory : String) (settings : Settings) :
    compileTo fileSystem path directory settings t =
      match t.read path with
      | .error e => (.fail (.reading e), t)
      | .ok source =>
        match (compile settings source).outcome with
        | .error d => (⟨(compile settings source).events, .error (.diagnostic d)⟩, t)
        | .ok compilation =>
          let written := Artifacts.write fileSystem (artifactDirectory directory path) compilation
            settings.target t
          (⟨(compile settings source).events ++ written.1.events,
            (written.1.outcome.mapError Failure.writing).map lines⟩, written.2) := by
  have hread : fileSystem.read path t = (t.read path, t) := rfl
  simp only [compileTo, bind, StateT.bind, hread]
  cases t.read path with
  | error e => rfl
  | ok source =>
      dsimp only
      cases (compile settings source).outcome with
      | error d => rfl
      | ok compilation =>
          -- Without a name for what is written, the comparison would run the writing.
          simp only [StateT.bind, pure, bind]
          generalize Artifacts.write fileSystem (artifactDirectory directory path) compilation
            settings.target t = written
          rfl

/-! ### The stages up to the program -/

/-- What keeps a source from becoming a program: it cannot be read, or it is refused by the
lexer or by the parser. -/
inductive Obstructs (t : FileTree) (source : String) (strict : Bool) : Failure → Prop
  | reading {e : FileError} (hread : t.read source = .error e) :
      Obstructs t source strict (.reading e)
  | scanning {text : String} {d : Diagnostic} (hread : t.read source = .ok text)
      (hscan : (tokenize (.ofStrict strict) text).outcome = .error d) :
      Obstructs t source strict (.diagnostic d)
  | parsing {text : String} {tokens : List Token} {d : Diagnostic}
      (hread : t.read source = .ok text)
      (hscan : (tokenize (.ofStrict strict) text).outcome = .ok tokens)
      (hparse : (parse tokens).outcome = .error d) : Obstructs t source strict (.diagnostic d)

/-- The source becomes these tokens and this program. -/
structure Becomes (t : FileTree) (source : String) (strict : Bool) (tokens : List Token)
    (program : Program) : Prop where
  scan : ∃ text, t.read source = .ok text ∧
    (tokenize (.ofStrict strict) text).outcome = .ok tokens
  parse : (parse tokens).outcome = .ok program

section

variable {t : FileTree} {source : String} {strict : Bool} {failure : Failure}
  {tokens : List Token} {program : Program}

/-- A source is obstructed or becomes a program. -/
theorem obstructs_or_becomes (t : FileTree) (source : String) (strict : Bool) :
    (∃ failure, Obstructs t source strict failure) ∨
      ∃ tokens program, Becomes t source strict tokens program := by
  cases hread : t.read source with
  | error e => exact .inl ⟨_, .reading hread⟩
  | ok text =>
      cases hscan : (tokenize (.ofStrict strict) text).outcome with
      | error d => exact .inl ⟨_, .scanning hread hscan⟩
      | ok tokens =>
          cases hparse : (parse tokens).outcome with
          | error d => exact .inl ⟨_, .parsing hread hscan hparse⟩
          | ok program => exact .inr ⟨tokens, program, ⟨text, hread, hscan⟩, hparse⟩

/-- The program of a source can be asked for when the source becomes one. -/
theorem Obstructs.outcome_parse (h : Obstructs t source strict failure) :
    (perform fileSystem (.parse source strict) t).1.outcome = .error failure := by
  refine (outcome_view t source _ _).trans ?_
  cases h with
  | reading hread => rw [hread]
  | scanning hread hscan =>
      simp only [hread, outcome_parseSource, hscan, bind, Except.bind]
  | parsing hread hscan hparse =>
      simp only [hread, outcome_parseSource, hscan, bind, Except.bind, hparse]

/-- The tree of the program is printed by `parse`. -/
theorem Becomes.outcome_parse (h : Becomes t source strict tokens program) :
    (perform fileSystem (.parse source strict) t).1.outcome = .ok (program.treeJson ++ "\n") := by
  obtain ⟨⟨text, hread, hscan⟩, hparse⟩ := h
  refine (outcome_view t source _ _).trans ?_
  simp only [hread, outcome_parseSource, hscan, bind, Except.bind, hparse]

/-- The tokens of a source can be asked for even if the parser refuses them. -/
theorem Obstructs.outcome_tokens (h : Obstructs t source strict failure) :
    (failure.isEarly = true ∧
      (perform fileSystem (.tokens source strict) t).1.outcome = .error failure) ∨
    (failure.isEarly = false ∧ ∃ output,
      (perform fileSystem (.tokens source strict) t).1.outcome = .ok output) := by
  cases h with
  | reading hread =>
      refine .inl ⟨rfl, (outcome_view t source _ _).trans ?_⟩
      rw [hread]
  | scanning hread hscan =>
      refine .inl ⟨isLexical_of_tokenize hscan, (outcome_view t source _ _).trans ?_⟩
      simp only [hread, hscan]
  | @parsing text tokens d hread hscan hparse =>
      refine .inr ⟨not_isLexical_of_parse hparse, Token.listJson tokens ++ "\n",
        (outcome_view t source _ _).trans ?_⟩
      simp only [hread, hscan]

/-- The list of the tokens is printed by `tokens`. -/
theorem Becomes.outcome_tokens (h : Becomes t source strict tokens program) :
    (perform fileSystem (.tokens source strict) t).1.outcome =
      .ok (Token.listJson tokens ++ "\n") := by
  obtain ⟨⟨text, hread, hscan⟩, -⟩ := h
  refine (outcome_view t source _ _).trans ?_
  simp only [hread, hscan]

/-- The dump of the program fails for what keeps the source from becoming one. -/
theorem perform_parse_eq_error_iff :
    (perform fileSystem (.parse source strict) t).1.outcome = .error failure ↔
      Obstructs t source strict failure := by
  refine ⟨?_, Obstructs.outcome_parse⟩
  intro h
  rcases obstructs_or_becomes t source strict with ⟨failure', hobstructs⟩ |
      ⟨tokens, program, hbecomes⟩
  · rw [hobstructs.outcome_parse, Except.error.injEq] at h
    exact h ▸ hobstructs
  · rw [hbecomes.outcome_parse] at h
    cases h

/-- The dump of the tokens fails for the part of it that concerns the characters. -/
theorem perform_tokens_eq_error_iff :
    (perform fileSystem (.tokens source strict) t).1.outcome = .error failure ↔
      Obstructs t source strict failure ∧ failure.isEarly = true := by
  apply Iff.intro
  · intro h
    rcases obstructs_or_becomes t source strict with ⟨failure', hobstructs⟩ |
        ⟨tokens, program, hbecomes⟩
    · rcases hobstructs.outcome_tokens with ⟨hearly, herror⟩ | ⟨-, output, hok⟩
      · rw [herror, Except.error.injEq] at h
        exact h ▸ ⟨hobstructs, hearly⟩
      · rw [hok] at h
        cases h
    · rw [hbecomes.outcome_tokens] at h
      cases h
  · intro h
    obtain ⟨hobstructs, hearly⟩ := h
    rcases hobstructs.outcome_tokens with ⟨-, herror⟩ | ⟨hlate, -⟩
    · exact herror
    · rw [hearly] at hlate
      cases hlate

variable {settings : Settings}

/-- What keeps a source from becoming a program ends a compilation before anything is
written. -/
theorem Obstructs.compileTo_eq (h : Obstructs t source strict failure) (directory : String)
    (hpolicy : settings.policy = .ofStrict strict) :
    (compileTo fileSystem source directory settings t).1.outcome = .error failure ∧
      (compileTo fileSystem source directory settings t).2 = t := by
  rw [CommandLine.compileTo_eq]
  cases h with
  | reading hread =>
      rw [hread]
      exact ⟨rfl, rfl⟩
  | scanning hread hscan =>
      simp only [hread, outcome_compile, hpolicy, hscan, bind, Except.bind, and_self]
  | parsing hread hscan hparse =>
      simp only [hread, outcome_compile, hpolicy, hscan, hparse, bind, Except.bind, and_self]

/-- The results for a source that becomes a program. -/
def compilationOf (settings : Settings) (tokens : List Token) (program : Program) : Compilation :=
  { tokens, program
    code := (JavaScript.Emitter.emit { asyncWrap := settings.asyncWrap } program).code }

/-- A source that becomes a program fails only when its artifacts are written. -/
theorem Becomes.compileTo_eq (h : Becomes t source strict tokens program) (directory : String)
    (hpolicy : settings.policy = .ofStrict strict) :
    (compileTo fileSystem source directory settings t).1.outcome =
        ((Artifacts.write fileSystem (artifactDirectory directory source)
          (compilationOf settings tokens program) settings.target t).1.outcome.mapError
            Failure.writing).map lines ∧
      (compileTo fileSystem source directory settings t).2 =
        (Artifacts.write fileSystem (artifactDirectory directory source)
          (compilationOf settings tokens program) settings.target t).2 := by
  obtain ⟨⟨text, hread, hscan⟩, hparse⟩ := h
  have hcompile : (compile settings text).outcome =
      .ok (compilationOf settings tokens program) := by
    simp only [outcome_compile, hpolicy, hscan, hparse, bind, Except.bind]
    rfl
  rw [CommandLine.compileTo_eq]
  simp only [hread, hcompile, and_self]

end

/-! ### The target -/

/-- A name is that of a target, or the target is unknown. -/
theorem named_cases (target : String) :
    (∃ known ∈ Target.all, known.name = target ∧ Target.named target = .ok known) ∨
      ((∀ known ∈ Target.all, known.name ≠ target) ∧
        Target.named target = .error (.unknownTarget target)) := by
  unfold Target.named
  cases hfind : Target.all.find? fun known => known.name = target with
  | some known =>
      have hname := List.find?_some hfind
      exact .inl ⟨known, List.mem_of_find?_eq_some hfind, by simpa using hname, rfl⟩
  | none =>
      have hnone := List.find?_eq_none.mp hfind
      exact .inr ⟨by simpa using hnone, rfl⟩

/-- What keeps a source from being compiled to the target of that name: there is no such
target, or the source does not become a program. -/
inductive Precludes (t : FileTree) (source target : String) (strict : Bool) : Failure → Prop
  | target (hnone : ∀ known ∈ Target.all, known.name ≠ target) :
      Precludes t source target strict (.diagnostic (.unknownTarget target))
  | source {known : Target} {failure : Failure} (hknown : known ∈ Target.all)
      (hname : known.name = target) (hobstructs : Obstructs t source strict failure) :
      Precludes t source target strict failure

section

variable {t : FileTree} {source target directory : String} {asyncWrap strict : Bool}
  {failure : Failure}

/-- With a known target, `compile` compiles into the directory. -/
theorem perform_compile {known : Target} (h : Target.named target = .ok known) :
    perform fileSystem (.compile source target directory asyncWrap strict) t =
      compileTo fileSystem source directory
        { policy := .ofStrict strict, asyncWrap, target := known } t := by
  rw [perform, h]

/-- **Nothing is done before there is code.** -/
theorem Precludes.outcome_compile (h : Precludes t source target strict failure) :
    (perform fileSystem (.compile source target directory asyncWrap strict) t).1.outcome =
        .error failure ∧
      (perform fileSystem (.compile source target directory asyncWrap strict) t).2 = t := by
  rcases named_cases target with ⟨known, hknown, hname, hok⟩ | ⟨hnone, herror⟩
  · cases h with
    | target hnone => exact absurd hname (hnone known hknown)
    | source _ _ hobstructs =>
        rw [perform_compile hok]
        exact hobstructs.compileTo_eq directory rfl
  · cases h with
    | target _ =>
        rw [perform, herror]
        exact ⟨rfl, rfl⟩
    | source hknown hname _ => exact absurd hname (hnone _ hknown)

/-- A compilation is precluded, or the source becomes a program and the artifacts are
written. -/
theorem precludes_or_becomes (t : FileTree) (source target : String) (strict : Bool) :
    (∃ failure, Precludes t source target strict failure) ∨
      ∃ known tokens program, Target.named target = .ok known ∧
        Becomes t source strict tokens program := by
  rcases named_cases target with ⟨known, hknown, hname, hok⟩ | ⟨hnone, -⟩
  · rcases obstructs_or_becomes t source strict with ⟨failure, hobstructs⟩ |
        ⟨tokens, program, hbecomes⟩
    · exact .inl ⟨failure, .source hknown hname hobstructs⟩
    · exact .inr ⟨known, tokens, program, hok, hbecomes⟩
  · exact .inl ⟨_, .target hnone⟩

/-- A compilation fails while it writes, or because something precludes it. -/
theorem writing_or_precludes
    (h : (perform fileSystem (.compile source target directory asyncWrap strict) t).1.outcome =
      .error failure) :
    (∃ e, failure = .writing e) ∨ Precludes t source target strict failure := by
  rcases precludes_or_becomes t source target strict with ⟨failure', hprecludes⟩ |
      ⟨known, tokens, program, hok, hbecomes⟩
  · rw [hprecludes.outcome_compile.1, Except.error.injEq] at h
    exact .inr (h ▸ hprecludes)
  · rw [perform_compile hok, (hbecomes.compileTo_eq directory rfl).1] at h
    rw [map_eq_error_iff, mapError_eq_error_iff] at h
    obtain ⟨e, -, hfailure⟩ := h
    exact .inl ⟨e, hfailure.symm⟩

/-- A compilation to this target fails before it writes for what keeps the source from
becoming a program. -/
theorem perform_compile_eq_error_iff :
    (perform fileSystem (.compile source "js" directory asyncWrap strict) t).1.outcome =
        .error failure ∧ (∀ e, failure ≠ .writing e) ↔
      Obstructs t source strict failure := by
  apply Iff.intro
  · intro h
    obtain ⟨hfails, hwriting⟩ := h
    rcases writing_or_precludes hfails with ⟨e, he⟩ | hprecludes
    · exact absurd he (hwriting e)
    · cases hprecludes with
      | target hnone => exact absurd rfl (hnone .javaScript (by decide))
      | source _ _ hobstructs => exact hobstructs
  · intro h
    have hknown : Target.javaScript ∈ Target.all := by decide
    have hprecludes : Precludes t source "js" strict failure := .source hknown rfl h
    refine ⟨hprecludes.outcome_compile.1, ?_⟩
    intro e he
    subst he
    cases h

/-- A compilation that succeeds leaves its artifacts, and the source became a program. -/
theorem exists_becomes_of_compile {output : String}
    (h : (perform fileSystem (.compile source target directory asyncWrap strict) t).1.outcome =
      .ok output) :
    ∃ tokens program, Becomes t source strict tokens program ∧
      ∀ entry ∈ [(Artifacts.tokensFile, Token.listJson tokens),
          (Artifacts.treeFile, program.treeJson),
          ("code.js", (JavaScript.Emitter.emit { asyncWrap } program).code)],
        (perform fileSystem (.compile source target directory asyncWrap strict) t).2.read
          (Path.join (artifactDirectory directory source) entry.1) = .ok entry.2 := by
  rcases precludes_or_becomes t source target strict with ⟨failure, hprecludes⟩ |
      ⟨known, tokens, program, hok, hbecomes⟩
  · rw [hprecludes.outcome_compile.1] at h
    cases h
  · rw [perform_compile hok] at h ⊢
    rw [(hbecomes.compileTo_eq directory rfl).1, map_eq_ok_iff] at h
    obtain ⟨paths, hwritten, -⟩ := h
    rw [(hbecomes.compileTo_eq directory rfl).2]
    cases known
    exact ⟨tokens, program, hbecomes, Artifacts.read_of_write (mapError_eq_ok_iff.mp hwritten)⟩

end

/-- What calls for the same source have in common. -/
structure Agreement (t : FileTree) (source target directory : String) (asyncWrap strict : Bool)
    (compileCall jsCall tokensCall parseCall targetsCall : List String) : Prop where
  /-- Each of them prints something or fails. -/
  ends : ∀ arguments ∈ [compileCall, jsCall, tokensCall, parseCall, targetsCall],
    (∃ output, Prints (call arguments t).1 output) ∨
      ∃ failure, FailsWith (call arguments t).1 failure
  /-- A compilation that is precluded prints nothing and leaves all files as they are. -/
  precluded : ∀ failure, Precludes t source target strict failure →
    FailsWith (call compileCall t).1 failure ∧ (call compileCall t).2 = t
  /-- A compilation has no other reason to fail, except that it cannot write. -/
  refused : ∀ failure, FailsWith (call compileCall t).1 failure →
    (∃ e, failure = .writing e) ∨ Precludes t source target strict failure
  /-- A compilation that succeeds leaves in its files what the other calls print, and the
  code of the program that is printed. -/
  artifacts : (call compileCall t).1.exitCode = 0 → ∃ tokens program,
    Becomes t source strict tokens program ∧
    Prints (call tokensCall t).1 (Token.listJson tokens ++ "\n") ∧
    Prints (call parseCall t).1 (program.treeJson ++ "\n") ∧
    ∀ entry ∈ [("tokens.json", Token.listJson tokens), ("ast.json", program.treeJson),
        ("code.js", (JavaScript.Emitter.emit { asyncWrap } program).code)],
      (call compileCall t).2.read (Path.join (artifactDirectory directory source) entry.1) =
        .ok entry.2
  /-- The program cannot be printed exactly if a compilation fails before it writes. -/
  parse : ∀ failure, FailsWith (call parseCall t).1 failure ↔
    FailsWith (call jsCall t).1 failure ∧ ∀ e, failure ≠ .writing e
  /-- The tokens cannot be printed exactly if that is because of reading or scanning. -/
  tokens : ∀ failure, FailsWith (call tokensCall t).1 failure ↔
    FailsWith (call jsCall t).1 failure ∧ failure.isEarly = true
  /-- Whoever prints leaves all files as they are. -/
  unchanged : (call tokensCall t).2 = t ∧ (call parseCall t).2 = t ∧ (call targetsCall t).2 = t

/-- **A compilation is all or nothing up to its code, and what it writes is what the other
subcommands print**, for whatever arguments ask for these commands. -/
theorem subcommands_agree (t : FileTree) (source target directory : String)
    (asyncWrap strict : Bool) (compileCall jsCall tokensCall parseCall targetsCall : List String)
    (hcompile : Asks compileCall (.compile source target directory asyncWrap strict))
    (hjs : Asks jsCall (.compile source "js" directory asyncWrap strict))
    (htokens : Asks tokensCall (.tokens source strict))
    (hparse : Asks parseCall (.parse source strict))
    (htargets : Asks targetsCall .targets) :
    Agreement t source target directory asyncWrap strict compileCall jsCall tokensCall parseCall
      targetsCall := by
  refine ⟨?_, ?_, ?_, ?_, ?_, ?_, ?_⟩
  · simp only [List.forall_mem_cons]
    exact ⟨prints_or_failsWith hcompile t, prints_or_failsWith hjs t,
      prints_or_failsWith htokens t, prints_or_failsWith hparse t,
      prints_or_failsWith htargets t, by simp⟩
  · intro failure hprecludes
    rw [failsWith_iff hcompile, call_snd hcompile]
    exact hprecludes.outcome_compile
  · intro failure hfails
    rw [failsWith_iff hcompile] at hfails
    exact writing_or_precludes hfails
  · intro hzero
    obtain ⟨output, hprints⟩ := (exitCode_eq_zero_iff hcompile).mp hzero
    rw [prints_iff hcompile] at hprints
    obtain ⟨tokens, program, hbecomes, hread⟩ := exists_becomes_of_compile hprints
    rw [← call_snd hcompile] at hread
    exact ⟨tokens, program, hbecomes, (prints_iff htokens).mpr hbecomes.outcome_tokens,
      (prints_iff hparse).mpr hbecomes.outcome_parse, hread⟩
  · intro failure
    rw [failsWith_iff hparse, failsWith_iff hjs, perform_parse_eq_error_iff,
      perform_compile_eq_error_iff]
  · intro failure
    rw [failsWith_iff htokens, failsWith_iff hjs, perform_tokens_eq_error_iff,
      ← perform_compile_eq_error_iff, and_assoc]
    refine and_congr_right fun _ => and_iff_right_of_imp ?_
    intro hearly e he
    rw [he] at hearly
    cases hearly
  · rw [call_snd htokens, call_snd hparse, call_snd htargets, perform, perform, perform,
      withSource_eq, withSource_eq]
    exact ⟨rfl, rfl, rfl⟩

/-- A directory with a source that prints a number. -/
def numberTree : FileTree :=
  (FileTree.scratch "home").put ["one.wl", "home"] (.file "likho 1;".toUTF8)

/-- The compilation succeeds in the tree. -/
theorem exitCode_numberTree :
    (call ["compile", "one.wl", "--no-async"] numberTree).1.exitCode = 0 := by
  decide +kernel

/-- The four calls on a tree with one source. -/
theorem subcommands_agree_numberTree :
    Asks ["compile", "one.wl", "--no-async"] (.compile "one.wl" "js" "build" false false) ∧
      Asks ["tokens", "one.wl"] (.tokens "one.wl" false) ∧
      Asks ["-v", "parse", "--", "one.wl"] (.parse "one.wl" false) ∧
      Asks ["targets"] .targets ∧
      (call ["compile", "one.wl", "--no-async"] numberTree).1.exitCode = 0 ∧
      Agreement numberTree "one.wl" "js" "build" false false ["compile", "one.wl", "--no-async"]
        ["compile", "one.wl", "--no-async"] ["tokens", "one.wl"] ["-v", "parse", "--", "one.wl"]
        ["targets"] :=
  ⟨⟨_, rfl, rfl⟩, ⟨_, rfl, rfl⟩, ⟨_, rfl, rfl⟩, ⟨_, rfl, rfl⟩, exitCode_numberTree,
    subcommands_agree numberTree "one.wl" "js" "build" false false _ _ _ _ _ ⟨_, rfl, rfl⟩
      ⟨_, rfl, rfl⟩ ⟨_, rfl, rfl⟩ ⟨_, rfl, rfl⟩ ⟨_, rfl, rfl⟩⟩

end CommandLine

end SochoScript
