import SochoScript.Proofs.Files

/-!
# Directories that are made

Making a directory with all those above it tries many directories and may fail on the way.
Whatever happens, the tree only *grows*: directories come where nothing was, and what stood
somewhere stands there as before.  `Grows` says this as a sequence of such steps, so that
what one step keeps is kept by all of them, the way that a path leads among it.

A path at which there is a directory can be told from the tree alone, `isDirectory`.  The
second fact of this file is that this is all that counts: where a directory was made there
is one, and where there is one, nothing is made.

* `Grows.spares`: no file comes, goes or changes while directories are made.
* `makeDirectories_spec`: **directories that were made are there**, and whatever happened,
  the tree has only grown.
* `Made.makeDirectories_eq`: **where there is a directory, nothing happens.**
-/

namespace SochoScript

namespace FileTree

open SochoScript.Path

variable {t made after : FileTree} {path name : String} {location place : Location}

/-! ### Trees that grow -/

/-- What is put where no directory stands, so not at the root, stands there. -/
theorem find?_put_of_ne_directory {node : Node} (h : t.find? place ≠ some .directory) :
    (t.put place node).find? place = some node := by
  refine find?_put_self ?_
  intro hroot
  rw [hroot] at h
  exact h rfl

/-- The second tree comes from the first one by making directories where nothing was. -/
inductive Grows (t : FileTree) : FileTree → Prop
  | refl : Grows t t
  | make {made : FileTree} {place : Location} (h : Grows t made)
      (hplace : made.find? place = none) : Grows t (made.put place .directory)

/-- A tree that grows twice grows. -/
theorem Grows.trans (h : Grows t made) (hmore : Grows made after) : Grows t after := by
  induction hmore with
  | refl => exact h
  | make _ hplace ih => exact ih.make hplace

/-- What is in the file at a place. -/
def fileAt? (t : FileTree) (place : Location) : Option ByteArray :=
  match t.find? place with
  | some (.file content) => some content
  | _ => none

/-- A file is at a place exactly if the tree has that file there. -/
theorem fileAt?_eq_some_iff {content : ByteArray} :
    t.fileAt? place = some content ↔ t.find? place = some (.file content) := by
  unfold fileAt?
  split <;> simp_all

/-- Nothing changes at a place but that a directory may come where nothing was. -/
structure Spares (t after : FileTree) (place : Location) : Prop where
  /-- No file comes, goes or becomes another one. -/
  file : after.fileAt? place = t.fileAt? place
  /-- What stood there stands there. -/
  stays : ∀ node, t.find? place = some node → after.find? place = some node

/-- A place that has what it had is spared. -/
theorem spares_of_find?_eq (h : after.find? place = t.find? place) : Spares t after place :=
  ⟨by rw [fileAt?, fileAt?, h], fun node hnode => h.trans hnode⟩

/-- A place that is spared twice is spared. -/
theorem Spares.trans (h : Spares t made place) (hmore : Spares made after place) :
    Spares t after place :=
  ⟨hmore.file.trans h.file, fun node hnode => hmore.stays node (h.stays node hnode)⟩

/-- A directory that comes where nothing was changes nothing. -/
theorem spares_put_directory {other : Location} (hother : t.find? other = none)
    (place : Location) : Spares t (t.put other .directory) place := by
  by_cases hsame : place = other
  · subst hsame
    have hmade : (t.put place .directory).find? place = some .directory :=
      find?_put_of_ne_directory (by simp [hother])
    refine ⟨by rw [fileAt?, fileAt?, hmade, hother], ?_⟩
    intro node hnode
    rw [hother] at hnode
    cases hnode
  · exact spares_of_find?_eq (find?_put_of_ne hsame)

/-- A tree that grows spares every place. -/
theorem Grows.spares (h : Grows t after) (place : Location) : Spares t after place := by
  induction h with
  | refl => exact spares_of_find?_eq rfl
  | make _ hplace ih => exact ih.trans (spares_put_directory hplace place)

/-- A path leads where it led before the tree grew. -/
theorem Grows.leads (h : Grows t after) (hleads : t.Leads path name location) :
    after.Leads path name location := by
  induction h with
  | refl => exact hleads
  | make _ hplace ih => exact ih.put (by simp [hplace])

/-! ### One directory -/

/-- A name that leads to nothing leads to the directory that is made there. -/
theorem lookUp_eq_none {segment : String} (h : t.lookUp location segment = .ok (place, none)) :
    t.find? place = none ∧
      (t.put place .directory).lookUp location segment = .ok (place, some .directory) := by
  have hlocation := directory_of_lookUp h
  simp only [lookUp, hlocation] at h
  split at h
  · cases h
  · split at h
    · cases h
    · split at h
      · cases h
      · rename_i hhere habove hshort
        obtain ⟨rfl, hnone⟩ := Prod.mk.inj (Except.ok.inj h)
        have hkept : (t.put (segment :: location) .directory).find? location = some .directory :=
          find?_put_of_directory (by simp [hnone]) hlocation
        refine ⟨hnone, ?_⟩
        simp [lookUp, hkept, hhere, habove, hshort]

/-- The segments of a path without the empty ones at its end. -/
def named (segments : List String) : List String :=
  (segments.reverse.dropWhile fun segment => segment = "").reverse

/-- What is cut off at the end of a path are empty segments. -/
theorem exists_blanks (segments : List String) :
    ∃ blanks, segments = named segments ++ blanks ∧ ∀ segment ∈ blanks, segment = "" := by
  refine ⟨(segments.reverse.takeWhile fun segment => segment = "").reverse, ?_, ?_⟩
  · rw [named, ← List.reverse_append, List.takeWhile_append_dropWhile, List.reverse_reverse]
  · intro segment hsegment
    simpa using List.all_eq_true.mp List.all_takeWhile segment (List.mem_reverse.mp hsegment)

/-- An empty segment stays in its directory, and so does a dot. -/
theorem lookUp_here {segment : String} (hsegment : segment = "" ∨ segment = ".") {node : Node} :
    t.lookUp location segment = .ok (place, some node) ↔
      t.find? location = some .directory ∧ location = place ∧ node = .directory := by
  unfold lookUp
  split
  · rename_i hlocation
    simp [hlocation, hsegment, eq_comm]
  · rename_i hlocation
    simp [hlocation]
  · rename_i hlocation
    simp [hlocation]

/-- Empty segments lead nowhere. -/
theorem walk_blanks {blanks : List String} (hblanks : ∀ segment ∈ blanks, segment = "")
    (hplace : t.find? place = some .directory) :
    t.walk location blanks = .ok place ↔ location = place := by
  induction blanks with
  | nil => simp [walk]
  | cons segment blanks ih =>
      obtain ⟨hsegment, hmore⟩ := List.forall_mem_cons.mp hblanks
      rw [walk]
      apply Iff.intro
      · intro h
        split at h
        · rename_i next node hlookUp
          obtain ⟨-, rfl, -⟩ := (lookUp_here (.inl hsegment)).mp hlookUp
          exact (ih hmore).mp h
        · cases h
        · cases h
      · intro h
        subst h
        rw [(lookUp_here (.inl hsegment)).mpr ⟨hplace, rfl, rfl⟩]
        exact (ih hmore).mpr rfl

variable {start : Location} {segments : List String} {last : String}

/-- The last segment is kept, and those above it are walked. -/
theorem resolveLast_concat (start : Location) (above : List String) (last : String) :
    t.resolveLast start (above ++ [last]) =
      (t.walk start above).map fun location => (location, last) := by
  simp only [resolveLast, List.reverse_append, List.reverse_singleton, List.singleton_append,
    List.reverse_reverse]
  cases t.walk start above <;> rfl

/-- What a path ends with: a name in the directory to which the segments before it lead. -/
theorem resolveLast_eq_ok_iff :
    t.resolveLast start segments = .ok (location, last) ↔
      (segments = [] ∧ location = start ∧ last = ".") ∨
        ∃ above, segments = above ++ [last] ∧ t.walk start above = .ok location := by
  apply Iff.intro
  · intro h
    rcases List.eq_nil_or_concat segments with rfl | ⟨above, final, rfl⟩
    · cases h
      exact .inl ⟨rfl, rfl, rfl⟩
    · rw [List.concat_eq_append] at h ⊢
      rw [resolveLast_concat, map_eq_ok_iff] at h
      obtain ⟨found, hwalk, hfinal⟩ := h
      cases hfinal
      exact .inr ⟨above, rfl, hwalk⟩
  · intro h
    rcases h with ⟨rfl, rfl, rfl⟩ | ⟨above, rfl, hwalk⟩
    · rfl
    · rw [resolveLast_concat, hwalk]
      rfl

/-- A walk comes to an end if it does so above the last segment and that one is found there. -/
theorem walk_concat_eq_ok_iff {above : List String} :
    t.walk start (above ++ [last]) = .ok place ↔
      ∃ location node, t.walk start above = .ok location ∧
        t.lookUp location last = .ok (place, some node) := by
  rw [walk_append, bind_eq_ok_iff]
  apply Iff.intro
  · intro h
    obtain ⟨location, hwalk, hlast⟩ := h
    rw [walk] at hlast
    split at hlast
    · rename_i next node hlookUp
      cases hlast
      exact ⟨location, node, hwalk, hlookUp⟩
    · cases hlast
    · cases hlast
  · intro h
    obtain ⟨location, node, hwalk, hlookUp⟩ := h
    refine ⟨location, hwalk, ?_⟩
    rw [walk, hlookUp]
    rfl

/-- A path leads to a directory exactly if its last name does, whatever slashes follow it. -/
theorem walk_eq_ok_iff (hplace : t.find? place = some .directory) :
    t.walk start segments = .ok place ↔
      ∃ location last node, t.resolveLast start (named segments) = .ok (location, last) ∧
        t.lookUp location last = .ok (place, some node) := by
  obtain ⟨blanks, hsegments, hblanks⟩ := exists_blanks segments
  generalize named segments = front at hsegments ⊢
  have hfront : t.walk start segments = .ok place ↔ t.walk start front = .ok place := by
    rw [hsegments, walk_append, bind_eq_ok_iff]
    simp only [walk_blanks hblanks hplace, exists_eq_right]
  rw [hfront]
  rcases List.eq_nil_or_concat front with rfl | ⟨above, final, rfl⟩
  · apply Iff.intro
    · intro hwalk
      cases hwalk
      exact ⟨place, ".", .directory, rfl, (lookUp_here (.inr rfl)).mpr ⟨hplace, rfl, rfl⟩⟩
    · intro h
      obtain ⟨location, last, node, hlast, hlookUp⟩ := h
      cases hlast
      obtain ⟨-, rfl, -⟩ := (lookUp_here (.inr rfl)).mp hlookUp
      rfl
  · rw [List.concat_eq_append, walk_concat_eq_ok_iff, resolveLast_concat]
    apply Iff.intro
    · intro h
      obtain ⟨location, node, hwalk, hlookUp⟩ := h
      exact ⟨location, final, node, by rw [hwalk]; rfl, hlookUp⟩
    · intro h
      obtain ⟨location, last, node, hlast, hlookUp⟩ := h
      obtain ⟨found, hwalk, hfinal⟩ := map_eq_ok_iff.mp hlast
      cases hfinal
      exact ⟨location, node, hwalk, hlookUp⟩

/-- A path is one of a directory exactly if its walk ends at a directory. -/
theorem isDirectory_iff :
    t.isDirectory path = true ↔ ∃ start segments location,
      t.route path = .ok (start, segments) ∧ t.walk start segments = .ok location ∧
        t.find? location = some .directory := by
  have hresolve : t.isDirectory path = true ↔ t.resolve path = .ok .directory := by
    unfold isDirectory
    split
    · simp_all
    · simp_all
  rw [hresolve]
  simp only [resolve, bind_eq_ok_iff, Prod.exists]
  apply Iff.intro
  · intro h
    obtain ⟨start, segments, hroute, location, hwalk, hfind⟩ := h
    refine ⟨start, segments, location, hroute, hwalk, ?_⟩
    split at hfind
    · rename_i node hnode
      cases hfind
      exact hnode
    · cases hfind
  · intro h
    obtain ⟨start, segments, location, hroute, hwalk, hfind⟩ := h
    refine ⟨start, segments, hroute, location, hwalk, ?_⟩
    rw [hfind]
    rfl

/-- Making a directory puts it where its path leads. -/
theorem exists_lookUp_of_makeDirectory (h : t.makeDirectory path = .ok made) :
    ∃ start segments location last place, t.route path = .ok (start, segments) ∧
      t.resolveLast start (named segments) = .ok (location, last) ∧
      t.lookUp location last = .ok (place, none) ∧ made = t.put place .directory := by
  simp only [makeDirectory, bind_eq_ok_iff, Prod.exists] at h
  obtain ⟨start, segments, hroute, location, last, hlast, place, found, hfound, hmade⟩ := h
  cases found with
  | none =>
      cases hmade
      exact ⟨start, segments, location, last, place, hroute, hlast, hfound, rfl⟩
  | some node => cases hmade

/-- A tree grows when a directory is made. -/
theorem grows_of_makeDirectory (h : t.makeDirectory path = .ok made) : Grows t made := by
  obtain ⟨_, _, _, _, place, -, -, hlookUp, rfl⟩ := exists_lookUp_of_makeDirectory h
  exact Grows.refl.make (lookUp_eq_none hlookUp).1

/-- A directory that was made is there. -/
theorem isDirectory_of_makeDirectory (h : t.makeDirectory path = .ok made) :
    made.isDirectory path = true := by
  obtain ⟨start, segments, location, last, place, hroute, hlast, hlookUp, rfl⟩ :=
    exists_lookUp_of_makeDirectory h
  obtain ⟨hnone, hmade⟩ := lookUp_eq_none hlookUp
  have hplace : t.find? place ≠ some .directory := by simp [hnone]
  have hfind : (t.put place .directory).find? place = some .directory :=
    find?_put_of_ne_directory hplace
  refine isDirectory_iff.mpr ⟨start, segments, place, hroute, ?_, hfind⟩
  refine (walk_eq_ok_iff hfind).mpr ⟨location, last, .directory, ?_, hmade⟩
  rw [resolveLast_eq_ok_iff] at hlast ⊢
  exact hlast.imp_right fun ⟨above, habove, hwalk⟩ => ⟨above, habove, walk_put hplace hwalk⟩

/-- Where there is a directory, none is made. -/
theorem makeDirectory_of_isDirectory (h : t.isDirectory path = true) :
    t.makeDirectory path = .error .alreadyExists := by
  obtain ⟨start, segments, place, hroute, hwalk, hfind⟩ := isDirectory_iff.mp h
  obtain ⟨location, last, node, hlast, hlookUp⟩ := (walk_eq_ok_iff hfind).mp hwalk
  rw [named] at hlast
  simp only [makeDirectory, hroute, bind, Except.bind, hlast, hlookUp]
  rfl

/-! ### A directory with all those above it -/

/-- A directory that cannot be made leaves the tree as it was. -/
theorem fileSystem_makeDirectory (t : FileTree) (path : String) :
    fileSystem.makeDirectory path t =
      match t.makeDirectory path with
      | .ok made => (.ok (), made)
      | .error e => (.error e, t) :=
  rfl

/-- A directory that is there is not made. -/
theorem ensureDirectory_of_isDirectory (h : t.isDirectory path = true) :
    fileSystem.ensureDirectory path t = (.ok (), t) := by
  have hasked : fileSystem.isDirectory path t = (true, t) := by simp only [fileSystem, h]
  simp only [FileSystem.ensureDirectory, bind, StateT.bind, fileSystem_makeDirectory,
    makeDirectory_of_isDirectory h, hasked]
  rfl

/-- Without a directory that is there or can be made, there is a failure. -/
theorem ensureDirectory_of_error {e : FileError} (hdirectory : t.isDirectory path = false)
    (h : t.makeDirectory path = .error e) :
    fileSystem.ensureDirectory path t = (.error e, t) := by
  have hasked : fileSystem.isDirectory path t = (false, t) := by
    simp only [fileSystem, hdirectory]
  simp only [FileSystem.ensureDirectory, bind, StateT.bind, fileSystem_makeDirectory, h]
  cases e with
  | alreadyExists =>
      simp only [StateT.bind, hasked]
      rfl
  | _ => rfl

/-- A directory may be made, and after a success there is one. -/
theorem ensureDirectory_spec (t : FileTree) (path : String) :
    Grows t (fileSystem.ensureDirectory path t).2 ∧
      ((fileSystem.ensureDirectory path t).1 = .ok () →
        (fileSystem.ensureDirectory path t).2.isDirectory path = true) := by
  by_cases hdirectory : t.isDirectory path = true
  · rw [ensureDirectory_of_isDirectory hdirectory]
    exact ⟨.refl, fun _ => hdirectory⟩
  · cases hmade : t.makeDirectory path with
    | ok made =>
        simp only [FileSystem.ensureDirectory, bind, StateT.bind, fileSystem_makeDirectory, hmade]
        exact ⟨grows_of_makeDirectory hmade, fun _ => isDirectory_of_makeDirectory hmade⟩
    | error e =>
        rw [ensureDirectory_of_error (by simpa using hdirectory) hmade]
        refine ⟨.refl, ?_⟩
        intro hok
        cases hok

/-- The way up ends where a directory is there or was made; those that were missing come
before those that were missing already. -/
theorem climb_spec (paths : List String) (missing : List String) (t : FileTree) :
    Grows t (fileSystem.climb missing paths t).2 ∧
      ∀ found, (fileSystem.climb missing paths t).1 = .ok found →
        ∃ outer, found = outer ++ missing := by
  induction paths generalizing missing t with
  | nil =>
      refine ⟨.refl, ?_⟩
      intro found hfound
      cases hfound
      exact ⟨[], rfl⟩
  | cons path above ih =>
      have hgrows := (ensureDirectory_spec t path).1
      simp only [FileSystem.climb, bind, StateT.bind]
      generalize fileSystem.ensureDirectory path t = ensured at hgrows ⊢
      obtain ⟨outcome, made⟩ := ensured
      cases outcome with
      | ok done =>
          refine ⟨hgrows, ?_⟩
          intro found hfound
          cases hfound
          exact ⟨[], rfl⟩
      | error e =>
          cases e with
          | notFound =>
              obtain ⟨hmore, hfound⟩ := ih (path :: missing) made
              refine ⟨hgrows.trans hmore, ?_⟩
              intro found hok
              obtain ⟨outer, rfl⟩ := hfound found hok
              exact ⟨outer ++ [path], by simp⟩
          | _ => exact ⟨hgrows, nofun⟩

/-- Directories that are made one after the other: if all of them are, the last one is there. -/
theorem ensureAll_spec (paths : List String) (t : FileTree) :
    Grows t (fileSystem.ensureAll paths t).2 ∧
      ((fileSystem.ensureAll paths t).1 = .ok () →
        ∀ path ∈ paths.getLast?, (fileSystem.ensureAll paths t).2.isDirectory path = true) := by
  induction paths generalizing t with
  | nil => exact ⟨.refl, fun _ => nofun⟩
  | cons path rest ih =>
      obtain ⟨hgrows, hdirectory⟩ := ensureDirectory_spec t path
      simp only [FileSystem.ensureAll, bind, StateT.bind]
      generalize fileSystem.ensureDirectory path t = ensured at hgrows hdirectory ⊢
      obtain ⟨outcome, made⟩ := ensured
      cases outcome with
      | error e => exact ⟨hgrows, nofun⟩
      | ok done =>
          obtain ⟨hmore, hlast⟩ := ih made
          refine ⟨hgrows.trans hmore, ?_⟩
          intro hok last hmem
          cases rest with
          | nil =>
              cases hmem
              exact hdirectory rfl
          | cons next rest =>
              rw [List.getLast?_cons_cons] at hmem
              exact hlast hok last hmem

/-- The way up begins with the path itself, unless nothing is to be made. -/
theorem ancestors_eq_nil_or (path : String) :
    ancestors path = [] ∨ ∃ above, ancestors path = path :: above := by
  unfold ancestors
  split
  · exact .inl rfl
  · split
    · split
      · exact .inl rfl
      · exact .inr ⟨_, rfl⟩
    · exact .inr ⟨_, rfl⟩

/-- There is nothing to be made at a path. -/
def Made (t : FileTree) (path : String) : Prop :=
  ancestors path = [] ∨ t.isDirectory path = true

/-- **Where there is a directory, nothing happens.** -/
theorem Made.makeDirectories_eq (h : t.Made path) :
    fileSystem.makeDirectories path t = (.ok (), t) := by
  have hclimb : fileSystem.climb [] (ancestors path) t = (.ok [], t) := by
    rcases ancestors_eq_nil_or path with hnil | ⟨above, habove⟩
    · rw [hnil]
      rfl
    · have hdirectory := h.resolve_left (by simp [habove])
      simp only [habove, FileSystem.climb, bind, StateT.bind,
        ensureDirectory_of_isDirectory hdirectory]
      rfl
  simp only [FileSystem.makeDirectories, bind, StateT.bind, hclimb]
  rfl

/-- **What making directories leaves behind.**  Only directories come, and after a success
there is one at the path. -/
theorem makeDirectories_spec (t : FileTree) (path : String) :
    Grows t (fileSystem.makeDirectories path t).2 ∧
      ((fileSystem.makeDirectories path t).1 = .ok () →
        (fileSystem.makeDirectories path t).2.Made path) := by
  rcases ancestors_eq_nil_or path with hnil | ⟨above, habove⟩
  · have hmade : t.Made path := .inl hnil
    rw [hmade.makeDirectories_eq]
    exact ⟨.refl, fun _ => hmade⟩
  · obtain ⟨hgrows, hdirectory⟩ := ensureDirectory_spec t path
    simp only [FileSystem.makeDirectories, habove, FileSystem.climb, bind, StateT.bind]
    generalize fileSystem.ensureDirectory path t = ensured at hgrows hdirectory ⊢
    obtain ⟨outcome, made⟩ := ensured
    cases outcome with
    | ok done => exact ⟨hgrows, fun _ => .inr (hdirectory rfl)⟩
    | error e =>
        cases e with
        | notFound =>
            -- The path is the first that was missing, so it is the last that is made.
            obtain ⟨hclimb, hfound⟩ := climb_spec above [path] made
            dsimp only
            generalize fileSystem.climb [path] above made = climbed at hclimb hfound ⊢
            obtain ⟨outcome, top⟩ := climbed
            cases outcome with
            | error e => exact ⟨hgrows.trans hclimb, nofun⟩
            | ok found =>
                obtain ⟨outer, rfl⟩ := hfound found rfl
                obtain ⟨hmore, hlast⟩ := ensureAll_spec (outer ++ [path]) top
                exact ⟨(hgrows.trans hclimb).trans hmore,
                  fun hok => .inr (hlast hok path (by simp))⟩
        | _ => exact ⟨hgrows, nofun⟩

/-- A directory stays when something is put where none stands. -/
theorem Made.put {node : Node} (h : t.Made path) (hplace : t.find? place ≠ some .directory) :
    (t.put place node).Made path := by
  refine h.imp_right fun hdirectory => ?_
  obtain ⟨start, segments, location, hroute, hwalk, hfind⟩ := isDirectory_iff.mp hdirectory
  exact isDirectory_iff.mpr ⟨start, segments, location, hroute, walk_put hplace hwalk,
    find?_put_of_directory hplace hfind⟩

end FileTree

end SochoScript
