import SochoScript.Files.Tree
import SochoScript.Artifacts
import SochoScript.Proofs.Readers

/-!
# Files that are written

A path that was joined from a directory and a name leads to the name in that directory,
and writing puts a file there.  What has to be seen is that the paths which lead somewhere
keep leading there.  A walk only steps from directory to directory, and a file is never
written where a directory stands, so no walk can notice it; this is `walk_put`.

`Leads` says where a path ends, and `Stored` what the file there holds.  Both survive the
writing of a file of another name, in whatever directory, and so do the files of a list
that is written one after the other.

* `leads_of_write`: what is written is put where its path leads.
* `Stored.write`: a file stays what it is when one of another name is written.
* `Artifacts.read_of_write`: **what was written can be read.**
-/

namespace SochoScript

/-! ### Outcomes that are rewritten -/

section

variable {ε ε' α β : Type} {outcome : Except ε α}

/-- A mapped outcome succeeds where the outcome does. -/
theorem map_eq_ok_iff {f : α → β} {b : β} :
    outcome.map f = .ok b ↔ ∃ a, outcome = .ok a ∧ f a = b := by
  cases outcome <;> simp [Except.map]

/-- It fails as the outcome does. -/
theorem map_eq_error_iff {f : α → β} {e : ε} : outcome.map f = .error e ↔ outcome = .error e := by
  cases outcome <;> simp [Except.map]

/-- Another account of a failure leaves success as it is. -/
theorem mapError_eq_ok_iff {f : ε → ε'} {a : α} : outcome.mapError f = .ok a ↔ outcome = .ok a := by
  cases outcome with
  | ok b =>
      have hok : (Except.ok b : Except ε α).mapError f = .ok b := rfl
      simp [hok]
  | error e =>
      have herror : (Except.error e : Except ε α).mapError f = .error (f e) := rfl
      simp [herror]

/-- It fails where the outcome does. -/
theorem mapError_eq_error_iff {f : ε → ε'} {e' : ε'} :
    outcome.mapError f = .error e' ↔ ∃ e, outcome = .error e ∧ f e = e' := by
  cases outcome with
  | ok b =>
      have hok : (Except.ok b : Except ε α).mapError f = .ok b := rfl
      simp [hok]
  | error e =>
      have herror : (Except.error e : Except ε α).mapError f = .error (f e) := rfl
      simp [herror]

end

/-! ### Segments of a path -/

namespace Path

/-- A path has a segment at least. -/
theorem split_ne_nil (text : List Char) : split text ≠ [] := by
  fun_cases split text <;> simp_all

/-- A slash in front is an empty segment. -/
@[simp] theorem split_slash (rest : List Char) : split ('/' :: rest) = [] :: split rest := by
  rw [split]

/-- Any other character belongs to the first segment. -/
theorem split_cons {c : Char} (h : c ≠ '/') {rest segment : List Char}
    {segments : List (List Char)} (hrest : split rest = segment :: segments) :
    split (c :: rest) = (c :: segment) :: segments := by
  rw [split, hrest]
  exact h

/-- A slash separates what stands before it from what stands behind it. -/
theorem split_append_slash (left right : List Char) :
    split (left ++ '/' :: right) = split left ++ split right := by
  induction left with
  | nil => simp [split]
  | cons c left ih =>
      by_cases h : c = '/'
      · simp [h, ih]
      · obtain ⟨segment, segments, hleft⟩ := List.exists_cons_of_ne_nil (split_ne_nil left)
        rw [hleft, List.cons_append] at ih
        rw [List.cons_append, split_cons h ih, split_cons h hleft, List.cons_append]

/-- Without a slash there is one segment. -/
theorem split_of_not_mem {text : List Char} (h : '/' ∉ text) : split text = [text] := by
  induction text with
  | nil => rfl
  | cons c text ih =>
      rw [List.mem_cons, not_or] at h
      exact split_cons (Ne.symm h.1) (ih h.2)

/-- A text that a path can end with and that leads down from where it stands. -/
structure IsFileName (name : String) : Prop where
  noSlash : '/' ∉ name.toList
  nonempty : name ≠ ""
  notHere : name ≠ "."
  notAbove : name ≠ ".."

instance (name : String) : Decidable (IsFileName name) :=
  decidable_of_iff ('/' ∉ name.toList ∧ name ≠ "" ∧ name ≠ "." ∧ name ≠ "..")
    ⟨fun h => ⟨h.1, h.2.1, h.2.2.1, h.2.2.2⟩,
      fun h => ⟨h.noSlash, h.nonempty, h.notHere, h.notAbove⟩⟩

/-- The last segment of a joined path is the name that was added. -/
theorem exists_segments_join (directory : String) {name : String} (h : IsFileName name) :
    ∃ front, segments (join directory name) = front ++ [name] := by
  have hname : (split name.toList).map String.ofList = [name] := by
    rw [split_of_not_mem h.noSlash]
    simp
  unfold segments join
  split
  · exact ⟨[], hname⟩
  · split
    · rename_i hlast
      obtain ⟨front, hfront⟩ := List.getLast?_eq_some_iff.mp hlast
      refine ⟨(split front).map String.ofList, ?_⟩
      rw [String.toList_append, hfront, List.append_assoc, List.singleton_append,
        split_append_slash, List.map_append, hname]
    · refine ⟨(split directory.toList).map String.ofList, ?_⟩
      have hslash : "/".toList = ['/'] := rfl
      rw [String.toList_append, String.toList_append, hslash, List.append_assoc,
        List.singleton_append, split_append_slash, List.map_append, hname]

end Path

namespace FileTree

open SochoScript.Path

/-! ### Where a path leads -/

variable {t changed : FileTree} {path name : String} {location place : Location}

/-- A walk along two parts of a path is one walk after the other. -/
theorem walk_append (start : Location) (front rest : List String) :
    t.walk start (front ++ rest) = t.walk start front >>= fun location => t.walk location rest := by
  induction front generalizing start with
  | nil => rfl
  | cons segment front ih =>
      rw [List.cons_append, walk, walk]
      rcases t.lookUp start segment with e | ⟨next, none | node⟩
      · rfl
      · rfl
      · exact ih next

/-- Names are looked up in directories only. -/
theorem directory_of_lookUp {segment : String} {found : Location × Option Node}
    (h : t.lookUp location segment = .ok found) : t.find? location = some .directory := by
  unfold lookUp at h
  split at h
  · assumption
  · cases h
  · cases h

/-- A name leads down from a directory, to a place that is there or not yet. -/
theorem lookUp_eq_ok_iff {found : Option Node} (hname : IsFileName name) :
    t.lookUp location name = .ok (place, found) ↔
      t.find? location = some .directory ∧ name.utf8ByteSize ≤ nameLimit ∧
        place = name :: location ∧ found = t.find? place := by
  apply Iff.intro
  · intro h
    have hlocation := directory_of_lookUp h
    simp only [lookUp, hlocation, hname.nonempty, hname.notHere, hname.notAbove, or_self,
      if_false] at h
    split at h
    · cases h
    · cases h
      exact ⟨hlocation, by omega, rfl, rfl⟩
  · intro h
    obtain ⟨hlocation, hshort, rfl, rfl⟩ := h
    simp [lookUp, hlocation, hname.nonempty, hname.notHere, hname.notAbove, hshort]

/-- The path ends with a name in the directory at `location`. -/
structure Leads (t : FileTree) (path name : String) (location : Location) : Prop where
  /-- What stands before the name leads to the directory. -/
  route : ∃ start front, t.route path = .ok (start, front ++ [name]) ∧
    t.walk start front = .ok location
  directory : t.find? location = some .directory
  isFileName : IsFileName name
  short : name.utf8ByteSize ≤ nameLimit

/-- The route of a path ends with the last segment of the path. -/
theorem exists_front_of_route {segments : List String} {start : Location} {front : List String}
    (hpath : Path.segments path = front ++ [name]) (hname : IsFileName name)
    (h : t.route path = .ok (start, segments)) : ∃ front, segments = front ++ [name] := by
  unfold route at h
  split at h
  · cases h
  split at h
  · cases h
  split at h
  · cases h
  rw [hpath] at h
  split at h
  · rename_i rest hsplit
    cases h
    rcases List.append_eq_cons_iff.mp hsplit with ⟨-, hnil⟩ | ⟨front, -, hfront⟩
    · cases hnil
      exact absurd rfl hname.nonempty
    · exact ⟨front, hfront⟩
  · cases h
    exact ⟨front, rfl⟩

/-- What a path leads to is what stands at its place. -/
theorem Leads.resolve_eq (h : t.Leads path name location) {node : Node}
    (hnode : t.find? (name :: location) = some node) : t.resolve path = .ok node := by
  obtain ⟨start, front, hroute, hwalk⟩ := h.route
  have hlast : t.walk location [name] = .ok (name :: location) := by
    rw [walk, (lookUp_eq_ok_iff h.isFileName).mpr ⟨h.directory, h.short, rfl, rfl⟩, hnode]
    rfl
  have hwhole : t.walk start (front ++ [name]) = .ok (name :: location) := by
    rw [walk_append, hwalk]
    exact hlast
  simp only [resolve, hroute, bind, Except.bind, hwhole, hnode]
  rfl

/-- A text that was encoded is decoded. -/
theorem fromUTF8?_toUTF8 (text : String) : String.fromUTF8? text.toUTF8 = some text := by
  unfold String.fromUTF8?
  rw [String.toUTF8_eq_toByteArray, dif_pos text.isValidUTF8]
  rfl

/-- A file is read by a path that leads to it. -/
theorem Leads.read_eq (h : t.Leads path name location) {content : String}
    (hcontent : t.find? (name :: location) = some (.file content.toUTF8)) :
    t.read path = .ok content := by
  simp only [read, h.resolve_eq hcontent, bind, Except.bind, fromUTF8?_toUTF8]
  rfl

/-! ### What writing leaves alone -/

/-- A directory stays one when something is put where none stands. -/
theorem find?_put_of_directory {node : Node} (hplace : t.find? place ≠ some .directory)
    (h : t.find? location = some .directory) :
    (t.put place node).find? location = some .directory := by
  have hne : location ≠ place := by
    intro heq
    exact hplace (heq ▸ h)
  rw [find?_put_of_ne hne, h]

/-- What is found stays found. -/
theorem lookUp_put (node : Node) {found : Node} {segment : String} {next : Location}
    (hplace : t.find? place ≠ some .directory)
    (h : t.lookUp location segment = .ok (next, some found)) :
    ∃ found, (t.put place node).lookUp location segment = .ok (next, some found) := by
  have hlocation := directory_of_lookUp h
  simp only [lookUp, hlocation, find?_put_of_directory hplace hlocation] at h ⊢
  by_cases hsame : segment :: location = place
  · rw [hsame, find?_put_self (hsame ▸ List.cons_ne_nil _ _)]
    grind
  · rw [find?_put_of_ne hsame]
    grind

/-- A file that is written where no directory stands breaks no walk between directories. -/
theorem walk_put {node : Node} {start : Location} {segments : List String}
    (hplace : t.find? place ≠ some .directory)
    (hwalk : t.walk start segments = .ok location) :
    (t.put place node).walk start segments = .ok location := by
  induction segments generalizing start with
  | nil => exact hwalk
  | cons segment segments ih =>
      rw [walk] at hwalk
      split at hwalk
      · rename_i next found hlookUp
        obtain ⟨found, hfound⟩ := lookUp_put node hplace hlookUp
        rw [walk, hfound]
        exact ih hwalk
      · cases hwalk
      · cases hwalk

/-- A path leads where it led when something is put where no directory stands. -/
theorem Leads.put {node : Node} (h : t.Leads path name location)
    (hplace : t.find? place ≠ some .directory) : (t.put place node).Leads path name location := by
  obtain ⟨start, front, hroute, hwalk⟩ := h.route
  exact ⟨⟨start, front, hroute, walk_put hplace hwalk⟩,
    find?_put_of_directory hplace h.directory, h.isFileName, h.short⟩

/-- A file that was written stands at its path, where no directory stood. -/
theorem leads_of_write {directory content : String} (hname : IsFileName name)
    (h : t.write (join directory name) content = .ok changed) :
    ∃ location, t.Leads (join directory name) name location ∧
      t.find? (name :: location) ≠ some .directory ∧
      changed = t.put (name :: location) (.file content.toUTF8) := by
  obtain ⟨front, hsegments⟩ := exists_segments_join directory hname
  simp only [write, bind_eq_ok_iff, Prod.exists] at h
  obtain ⟨start, segments, hroute, location, last, hlast, place, found, hfound, hwritten⟩ := h
  obtain ⟨front, rfl⟩ := exists_front_of_route hsegments hname hroute
  simp only [resolveLast, List.reverse_append, List.reverse_singleton, List.singleton_append,
    List.reverse_reverse, bind_eq_ok_iff] at hlast
  obtain ⟨location, hwalk, hlast⟩ := hlast
  cases hlast
  obtain ⟨hdirectory, hshort, rfl, rfl⟩ := (lookUp_eq_ok_iff hname).mp hfound
  refine ⟨location, ⟨⟨start, front, hroute, hwalk⟩, hdirectory, hname, hshort⟩, ?_⟩
  cases hnode : t.find? (name :: location) with
  | none =>
      rw [hnode] at hwritten
      cases hwritten
      exact ⟨by simp, rfl⟩
  | some node =>
      rw [hnode] at hwritten
      cases node with
      | directory => cases hwritten
      | file content =>
          cases hwritten
          exact ⟨by simp, rfl⟩

/-- The file at the path holds the content. -/
def Stored (t : FileTree) (path name content : String) : Prop :=
  ∃ location, t.Leads path name location ∧
    t.find? (name :: location) = some (.file content.toUTF8)

/-- What is stored under a path is read. -/
theorem Stored.read_eq {content : String} (h : t.Stored path name content) :
    t.read path = .ok content := by
  obtain ⟨location, hleads, hcontent⟩ := h
  exact hleads.read_eq hcontent

/-- What was written is stored. -/
theorem stored_of_write {directory content : String} (hname : IsFileName name)
    (h : t.write (join directory name) content = .ok changed) :
    changed.Stored (join directory name) name content := by
  obtain ⟨location, hleads, hplace, rfl⟩ := leads_of_write hname h
  exact ⟨location, hleads.put hplace, find?_put_self (List.cons_ne_nil _ _)⟩

/-- A file stays what it is when one of another name is written. -/
theorem Stored.write {directory other content content' : String} (h : t.Stored path name content)
    (hother : IsFileName other) (hne : name ≠ other)
    (hwrite : t.write (join directory other) content' = .ok changed) :
    changed.Stored path name content := by
  obtain ⟨location, hleads, hcontent⟩ := h
  obtain ⟨location', -, hplace, rfl⟩ := leads_of_write hother hwrite
  refine ⟨location, hleads.put hplace, ?_⟩
  rw [find?_put_of_ne (fun heq => hne (List.cons.inj heq).1), hcontent]

end FileTree

namespace Artifacts

open SochoScript.Path FileTree

/-- One step of writing files on a tree. -/
theorem writeAll_cons (t : FileTree) (directory name content : String)
    (rest : List (String × String)) :
    writeAll fileSystem directory ((name, content) :: rest) t =
      match t.write (join directory name) content with
      | .error e => (.fail e, t)
      | .ok changed =>
        let later := writeAll fileSystem directory rest changed
        (⟨.wroteArtifact (join directory name) :: later.1.events,
          later.1.outcome.map (join directory name :: ·)⟩, later.2) := by
  cases hwrite : t.write (join directory name) content with
  | error e =>
      have hstep : fileSystem.write (join directory name) content t = (.error e, t) := by
        simp only [fileSystem, change, hwrite]
      simp only [writeAll, bind, StateT.bind, hstep]
      rfl
  | ok changed =>
      have hstep : fileSystem.write (join directory name) content t = (.ok (), changed) := by
        simp only [fileSystem, change, hwrite]
      simp only [writeAll, bind, StateT.bind, hstep]
      rfl

variable {t : FileTree} {directory : String} {entries : List (String × String)}

/-- What is stored under a name stays when files with other names are written. -/
theorem stored_writeAll {path name content : String} (h : t.Stored path name content)
    (hentries : ∀ entry ∈ entries, IsFileName entry.1 ∧ name ≠ entry.1) :
    (Artifacts.writeAll fileSystem directory entries t).2.Stored path name content := by
  induction entries generalizing t with
  | nil => exact h
  | cons entry entries ih =>
      obtain ⟨other, content'⟩ := entry
      obtain ⟨⟨hother, hne⟩, hmore⟩ := List.forall_mem_cons.mp hentries
      rw [writeAll_cons]
      cases hwrite : t.write (join directory other) content' with
      | error e => exact h
      | ok changed => exact ih (h.write hother hne hwrite) hmore

/-- **What was written can be read.**  Files of different names that were all written hold
what was written to them. -/
theorem read_of_writeAll {paths : List String} (hnames : ∀ entry ∈ entries, IsFileName entry.1)
    (hdistinct : entries.Pairwise fun earlier later => earlier.1 ≠ later.1)
    (h : (Artifacts.writeAll fileSystem directory entries t).1.outcome = .ok paths) :
    ∀ entry ∈ entries,
      (Artifacts.writeAll fileSystem directory entries t).2.read (join directory entry.1) =
        .ok entry.2 := by
  induction entries generalizing t paths with
  | nil => simp
  | cons entry entries ih =>
      obtain ⟨name, content⟩ := entry
      obtain ⟨hname, hmore⟩ := List.forall_mem_cons.mp hnames
      obtain ⟨hfirst, hrest⟩ := List.pairwise_cons.mp hdistinct
      rw [writeAll_cons] at h ⊢
      cases hwrite : t.write (join directory name) content with
      | error e =>
          rw [hwrite] at h
          cases h
      | ok changed =>
          simp only [hwrite] at h
          obtain ⟨later, hlater, -⟩ := map_eq_ok_iff.mp h
          have hothers : ∀ entry ∈ entries, IsFileName entry.1 ∧ name ≠ entry.1 :=
            fun entry hentry => ⟨hmore entry hentry, hfirst entry hentry⟩
          intro entry hentry
          rcases List.mem_cons.mp hentry with rfl | hentry
          · exact (stored_writeAll (stored_of_write hname hwrite) hothers).read_eq
          · exact ih hmore hrest hlater entry hentry

/-- Every artifact has the name of a file. -/
theorem isFileName_contents (compilation : Compilation) (target : Target) :
    ∀ entry ∈ contents compilation target, IsFileName entry.1 := by
  have hnames : IsFileName tokensFile ∧ IsFileName treeFile ∧ IsFileName target.outputFile := by
    cases target
    decide
  simpa [contents] using hnames

/-- No two artifacts have the same name. -/
theorem pairwise_contents (compilation : Compilation) (target : Target) :
    (contents compilation target).Pairwise fun earlier later => earlier.1 ≠ later.1 := by
  cases target
  simp [contents, tokensFile, treeFile, Target.outputFile]

/-- Artifacts that were all written can be read, whatever the directories were before. -/
theorem read_of_write {compilation : Compilation} {target : Target} {paths : List String}
    (h : (write fileSystem directory compilation target t).1.outcome = .ok paths) :
    ∀ entry ∈ contents compilation target,
      (write fileSystem directory compilation target t).2.read (join directory entry.1) =
        .ok entry.2 := by
  simp only [write, bind, StateT.bind] at h ⊢
  generalize fileSystem.makeDirectories directory t = made at h ⊢
  obtain ⟨outcome, changed⟩ := made
  cases outcome with
  | error e => cases h
  | ok done =>
      exact read_of_writeAll (isFileName_contents compilation target)
        (pairwise_contents compilation target) h

end Artifacts

end SochoScript
