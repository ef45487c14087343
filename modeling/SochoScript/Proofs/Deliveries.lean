import SochoScript.Proofs.Directories

/-!
# Artifacts that are delivered

A delivery writes the artifacts of a compilation into a directory.  It can fail at the
directory and at each of the files, and what it finds may have been left by deliveries
into the same directory under another path.  So the files are told apart by the *places*
to which their paths lead, and not by the paths.

All that a delivery does is described once, in `Effect`: the tree grows by directories,
then files are put into it one after the other, each where its path leads and no directory
stands.  A delivery that is repeated finds every directory and writes every file where it
is, and putting the same files again gives the same tree.  Along a sequence of deliveries a
place holds what was put there last, and since neither directories nor files that come
break a path that leads somewhere, what was written can be read at its path.

* `exists_effect`: what a delivery does.
* `accounted`: **a delivery sets its own files in order and changes nothing else**, up to
  the first one that cannot be written.
* `fileAt?_runAll`: the last delivery that writes a file decides what it holds.
* `deliveries_touch_own_files`: all of this together, and what is read in the end.
-/

namespace SochoScript

namespace Path

/-- Different names are different paths below a directory. -/
theorem join_inj {directory name other : String} (hname : IsFileName name)
    (hother : IsFileName other) (h : join directory name = join directory other) :
    name = other := by
  obtain ⟨front, hfront⟩ := exists_segments_join directory hname
  obtain ⟨above, habove⟩ := exists_segments_join directory hother
  rw [h, habove] at hfront
  exact (List.cons.inj (List.append_inj' hfront rfl).2).1.symm

end Path

namespace FileTree

open SochoScript.Path

variable {t after : FileTree} {directory path name : String} {location place : Location}

/-! ### Places and what they hold -/

/-- The place to which a path leads, whether or not something stands there. -/
def place? (t : FileTree) (path : String) : Option Location :=
  match t.route path with
  | .error _ => none
  | .ok (start, segments) =>
    match t.resolveLast start segments with
    | .error _ => none
    | .ok (location, last) => (t.lookUp location last).toOption.map Prod.fst

/-- A path that leads to a name in a directory has its place there. -/
theorem Leads.place?_eq (h : t.Leads path name location) :
    t.place? path = some (name :: location) := by
  obtain ⟨start, front, hroute, hwalk⟩ := h.route
  have hlookUp := (lookUp_eq_ok_iff h.isFileName).mpr ⟨h.directory, h.short, rfl, rfl⟩
  simp only [place?, hroute, resolveLast_concat, hwalk, Except.map, hlookUp]
  rfl

/-- A path with a name at its end leads to that name in a directory. -/
theorem exists_leads_of_place? (hname : IsFileName name)
    (h : t.place? (join directory name) = some place) :
    ∃ location, t.Leads (join directory name) name location ∧ place = name :: location := by
  obtain ⟨front, hsegments⟩ := exists_segments_join directory hname
  unfold place? at h
  split at h
  · cases h
  · rename_i start segments hroute
    obtain ⟨above, rfl⟩ := exists_front_of_route hsegments hname hroute
    rw [resolveLast_concat] at h
    cases hwalk : t.walk start above with
    | error e =>
        rw [hwalk] at h
        cases h
    | ok location =>
        simp only [hwalk, Except.map] at h
        cases hlookUp : t.lookUp location name with
        | error e =>
            rw [hlookUp] at h
            cases h
        | ok found =>
            rw [hlookUp] at h
            cases h
            obtain ⟨hdirectory, hshort, hplace, -⟩ := (lookUp_eq_ok_iff hname).mp hlookUp
            exact ⟨location, ⟨⟨start, above, hroute, hwalk⟩, hdirectory, hname, hshort⟩, hplace⟩

/-- A file can be written where its path leads and no directory stands. -/
theorem Leads.write_eq (h : t.Leads path name location)
    (hplace : t.find? (name :: location) ≠ some .directory) (content : String) :
    t.write path content = .ok (t.put (name :: location) (.file content.toUTF8)) := by
  obtain ⟨start, front, hroute, hwalk⟩ := h.route
  have hlookUp := (lookUp_eq_ok_iff h.isFileName).mpr ⟨h.directory, h.short, rfl, rfl⟩
  simp only [write, hroute, bind, Except.bind, resolveLast_concat, hwalk, Except.map, hlookUp]
  rfl

end FileTree

/-! ### Files that are put into a tree -/

/-- A file and the directory in which it is to stand. -/
structure Filing where
  name : String
  content : String
  location : Location

namespace Filing

/-- The place of a file. -/
def place (f : Filing) : Location := f.name :: f.location

/-- What is to stand there. -/
def node (f : Filing) : Node := .file f.content.toUTF8

/-- The name and the content of a file. -/
def entry (f : Filing) : String × String := (f.name, f.content)

end Filing

namespace FileTree

open SochoScript.Path

variable {t after : FileTree} {directory path name : String} {location place : Location}
  {f : Filing} {filings : List Filing}

/-- The tree with files put into it one after the other. -/
def fileAll (t : FileTree) : List Filing → FileTree
  | [] => t
  | f :: rest => (t.put f.place f.node).fileAll rest

/-- Files that are put elsewhere do not change what stands at a place. -/
theorem find?_fileAll_of_not_mem (h : ∀ f ∈ filings, f.place ≠ place) :
    (t.fileAll filings).find? place = t.find? place := by
  induction filings generalizing t with
  | nil => rfl
  | cons f rest ih =>
      obtain ⟨hfirst, hrest⟩ := List.forall_mem_cons.mp h
      rw [fileAll, ih hrest, find?_put_of_ne (Ne.symm hfirst)]

/-- Files at different places are all there in the end. -/
theorem find?_fileAll_of_mem (hdistinct : (filings.map Filing.place).Nodup) (h : f ∈ filings) :
    (t.fileAll filings).find? f.place = some f.node := by
  induction filings generalizing t with
  | nil => cases h
  | cons first rest ih =>
      obtain ⟨hfirst, hrest⟩ := List.nodup_cons.mp hdistinct
      rw [fileAll]
      rcases List.mem_cons.mp h with rfl | hmem
      · have hlater : ∀ other ∈ rest, other.place ≠ f.place := by
          intro other hother heq
          exact hfirst (heq ▸ List.mem_map_of_mem hother)
        rw [find?_fileAll_of_not_mem hlater]
        exact find?_put_self (List.cons_ne_nil _ _)
      · exact ih hrest hmem

/-- The files stand before everything else, the last one first. -/
theorem nodes_fileAll (hdistinct : (filings.map Filing.place).Nodup) :
    (t.fileAll filings).nodes =
      (filings.map fun f => (f.place, f.node)).reverse ++
        t.nodes.filter fun entry => entry.1 ∉ filings.map Filing.place := by
  induction filings generalizing t with
  | nil => simp [fileAll, List.filter_eq_self.mpr]
  | cons f rest ih =>
      obtain ⟨hfirst, hrest⟩ := List.nodup_cons.mp hdistinct
      have hothers : (t.nodes.filter fun entry => entry.1 ≠ f.place).filter
            (fun entry => entry.1 ∉ rest.map Filing.place) =
          t.nodes.filter fun entry => entry.1 ∉ (f :: rest).map Filing.place := by
        rw [List.filter_filter]
        congr 1
        funext entry
        simp [Bool.and_comm]
      rw [fileAll, ih hrest, put, List.filter_cons_of_pos (by simpa using hfirst), hothers]
      simp

/-- Files that are put into a tree do not move its working directory. -/
theorem workingDirectory_fileAll :
    (t.fileAll filings).workingDirectory = t.workingDirectory := by
  induction filings generalizing t with
  | nil => rfl
  | cons f rest ih =>
      rw [fileAll, ih]
      rfl

/-- **Files that are there already change nothing.** -/
theorem fileAll_fileAll (hdistinct : (filings.map Filing.place).Nodup) :
    (t.fileAll filings).fileAll filings = t.fileAll filings := by
  have hold : ((filings.map fun f => (f.place, f.node)).reverse.filter fun entry =>
      entry.1 ∉ filings.map Filing.place) = [] := by
    rw [List.filter_eq_nil_iff]
    intro entry hentry
    obtain ⟨f, hf, rfl⟩ := List.mem_map.mp (List.mem_reverse.mp hentry)
    simpa using ⟨f, hf, rfl⟩
  have hnodes : ((t.fileAll filings).fileAll filings).nodes = (t.fileAll filings).nodes := by
    rw [nodes_fileAll hdistinct, nodes_fileAll hdistinct, List.filter_append, hold,
      List.nil_append, List.filter_filter]
    simp only [Bool.and_self]
  have hdirectory : ((t.fileAll filings).fileAll filings).workingDirectory =
      (t.fileAll filings).workingDirectory := workingDirectory_fileAll
  generalize (t.fileAll filings).fileAll filings = again at hnodes hdirectory ⊢
  generalize t.fileAll filings = once at hnodes hdirectory ⊢
  cases again
  cases once
  simp_all

/-- The files can be written into a directory one after the other: each path leads to the
place of its file, and no directory stands there. -/
inductive Admits (directory : String) : FileTree → List Filing → Prop
  | nil (t : FileTree) : Admits directory t []
  | cons {t : FileTree} {f : Filing} {rest : List Filing}
      (hleads : t.Leads (join directory f.name) f.name f.location)
      (hplace : t.find? f.place ≠ some .directory)
      (hrest : Admits directory (t.put f.place f.node) rest) : Admits directory t (f :: rest)

/-- No directory comes where a file is put. -/
theorem find?_put_file_ne_directory {other : Location} {content : ByteArray}
    (h : t.find? other ≠ some .directory) :
    (t.put place (.file content)).find? other ≠ some .directory := by
  by_cases hsame : other = place
  · subst hsame
    simp [find?_put_of_ne_directory h]
  · rw [find?_put_of_ne hsame]
    exact h

/-- What is kept by every file that is put where no directory stands is kept by all. -/
theorem Admits.kept (P : FileTree → Prop) (h : Admits directory t filings)
    (hput : ∀ {t : FileTree} {place : Location} {content : ByteArray},
      t.find? place ≠ some .directory → P t → P (t.put place (.file content)))
    (ht : P t) : P (t.fileAll filings) := by
  induction h with
  | nil => exact ht
  | cons _ hplace _ ih => exact ih (hput hplace ht)

/-- A path leads where it led when files are written that the tree admits. -/
theorem Admits.leads (h : Admits directory t filings) (hleads : t.Leads path name location) :
    (t.fileAll filings).Leads path name location :=
  h.kept (fun t => t.Leads path name location) (fun hplace hleads => hleads.put hplace) hleads

/-- In the end every path leads to its file, and no directory stands there. -/
theorem Admits.leads_of_mem (h : Admits directory t filings) (hf : f ∈ filings) :
    (t.fileAll filings).Leads (join directory f.name) f.name f.location ∧
      (t.fileAll filings).find? f.place ≠ some .directory := by
  induction h with
  | nil => cases hf
  | @cons t first rest hleads hplace hrest ih =>
      rcases List.mem_cons.mp hf with rfl | hmem
      · exact ⟨hrest.leads (hleads.put hplace),
          hrest.kept (fun t => t.find? f.place ≠ some .directory)
            (fun _ h => find?_put_file_ne_directory h) (find?_put_file_ne_directory hplace)⟩
      · exact ih hmem

/-- Files can be written where their paths lead, whatever files are there. -/
theorem admits_of_leads (h : ∀ f ∈ filings, t.Leads (join directory f.name) f.name f.location ∧
      t.find? f.place ≠ some .directory) : Admits directory t filings := by
  induction filings generalizing t with
  | nil => exact .nil t
  | cons f rest ih =>
      obtain ⟨⟨hleads, hplace⟩, hrest⟩ := List.forall_mem_cons.mp h
      refine .cons hleads hplace (ih ?_)
      intro other hother
      obtain ⟨hotherLeads, hotherPlace⟩ := hrest other hother
      exact ⟨hotherLeads.put hplace, find?_put_file_ne_directory hotherPlace⟩

/-- Files of different names stand at different places. -/
theorem nodup_places
    (h : (filings.map Filing.entry).Pairwise fun earlier later => earlier.1 ≠ later.1) :
    (filings.map Filing.place).Nodup := by
  refine List.pairwise_map.mpr ((List.pairwise_map.mp h).imp ?_)
  intro earlier later hne hplace
  exact hne (List.cons.inj hplace).1

end FileTree

namespace Artifacts

open SochoScript.Path FileTree

variable {t : FileTree} {directory : String} {filings : List Filing}

/-- What is told of files that were written. -/
def told (directory : String) (entries : List (String × String)) : List Event :=
  entries.map fun entry => .wroteArtifact (join directory entry.1)

/-- The paths of files. -/
def pathsOf (directory : String) (entries : List (String × String)) : List String :=
  entries.map fun entry => join directory entry.1

/-- Files that can all be written are all written. -/
theorem writeAll_of_admits (h : Admits directory t filings) :
    writeAll fileSystem directory (filings.map Filing.entry) t =
      (⟨told directory (filings.map Filing.entry),
        .ok (pathsOf directory (filings.map Filing.entry))⟩, t.fileAll filings) := by
  induction h with
  | nil => rfl
  | @cons t f rest hleads hplace hrest ih =>
      have hwrite := hleads.write_eq hplace f.content
      rw [List.map_cons, Filing.entry, writeAll_cons, hwrite]
      dsimp only
      rw [← Filing.node, ← Filing.place, ih]
      rfl

/-- How the writing of files ends: all of them are written, or those before one that cannot
be written. -/
inductive Written (directory : String) (t : FileTree) (entries : List (String × String)) :
    Logged FileError (List String) × FileTree → Prop
  | all {filings : List Filing} (hentries : entries = filings.map Filing.entry)
      (hadmits : Admits directory t filings) :
      Written directory t entries
        (⟨told directory entries, .ok (pathsOf directory entries)⟩, t.fileAll filings)
  | upTo {filings : List Filing} {missed : String × String} {more : List (String × String)}
      {e : FileError} (hentries : entries = filings.map Filing.entry ++ missed :: more)
      (hadmits : Admits directory t filings)
      (hfails : (t.fileAll filings).write (join directory missed.1) missed.2 = .error e) :
      Written directory t entries
        (⟨told directory (filings.map Filing.entry), .error e⟩, t.fileAll filings)

/-- **How the writing of files ends.** -/
theorem written_writeAll {entries : List (String × String)}
    (hnames : ∀ entry ∈ entries, IsFileName entry.1) :
    Written directory t entries (writeAll fileSystem directory entries t) := by
  induction entries generalizing t with
  | nil => exact Written.all (List.map_nil).symm (.nil t)
  | cons entry entries ih =>
      obtain ⟨name, content⟩ := entry
      obtain ⟨hname, hmore⟩ := List.forall_mem_cons.mp hnames
      rw [writeAll_cons]
      cases hwrite : t.write (join directory name) content with
      | error e => exact Written.upTo (List.nil_append _).symm (.nil t) hwrite
      | ok changed =>
          obtain ⟨location, hleads, hplace, rfl⟩ := leads_of_write hname hwrite
          have hadmits : ∀ {filings : List Filing},
              Admits directory (t.put (name :: location) (.file content.toUTF8)) filings →
                Admits directory t (⟨name, content, location⟩ :: filings) :=
            fun hrest => .cons hleads hplace hrest
          have hlater : Written directory (t.put (name :: location) (.file content.toUTF8)) entries
              (writeAll fileSystem directory entries
                (t.put (name :: location) (.file content.toUTF8))) := ih hmore
          dsimp only
          generalize writeAll fileSystem directory entries
            (t.put (name :: location) (.file content.toUTF8)) = later at hlater ⊢
          cases hlater with
          | all hentries hrest =>
              subst hentries
              exact .all rfl (hadmits hrest)
          | upTo hentries hrest hfails =>
              subst hentries
              exact .upTo rfl (hadmits hrest) hfails

/-- The paths of the files that events tell of. -/
def toldPaths (events : List Event) : List String :=
  events.filterMap fun event =>
    match event with
    | .wroteArtifact path => some path
    | _ => none

/-- The paths in what is told of files are those of the files. -/
theorem toldPaths_told (directory : String) (entries : List (String × String)) :
    toldPaths (told directory entries) = pathsOf directory entries := by
  rw [toldPaths, told, pathsOf, List.filterMap_map, ← List.filterMap_eq_map]
  rfl

end Artifacts

/-! ### One delivery -/

/-- The artifacts of a compilation, which are to be written into a directory. -/
structure Delivery where
  directory : String
  compilation : Compilation
  target : Target

namespace Delivery

open SochoScript.Path FileTree Artifacts

/-- The names and contents of the files, in order. -/
def entries (d : Delivery) : List (String × String) := contents d.compilation d.target

/-- Writes the files into a tree. -/
def run (d : Delivery) (t : FileTree) : Logged FileError (List String) × FileTree :=
  Artifacts.write fileSystem d.directory d.compilation d.target t

/-- The files that were written, as the events tell. -/
def written (d : Delivery) (t : FileTree) : List (String × String) :=
  d.entries.filter fun entry => join d.directory entry.1 ∈ toldPaths (d.run t).1.events

variable {d : Delivery} {t made : FileTree} {filings : List Filing}
  {rest : List (String × String)}

/-- A delivery makes its directory first, and writes its files only then. -/
theorem run_eq (d : Delivery) (t : FileTree) :
    d.run t =
      match fileSystem.makeDirectories d.directory t with
      | (.error e, made) => (.fail e, made)
      | (.ok _, made) => writeAll fileSystem d.directory d.entries made := by
  simp only [run, Artifacts.write, bind, StateT.bind]
  generalize fileSystem.makeDirectories d.directory t = result
  obtain ⟨outcome, made⟩ := result
  cases outcome <;> rfl

/-- A delivery whose directory cannot be made writes no file. -/
theorem run_of_unmade {e : FileError}
    (h : (fileSystem.makeDirectories d.directory t).1 = .error e) :
    d.run t = (.fail e, (fileSystem.makeDirectories d.directory t).2) := by
  rw [run_eq]
  generalize fileSystem.makeDirectories d.directory t = result at h ⊢
  obtain ⟨outcome, made⟩ := result
  subst h
  rfl

/-- What a delivery did to a tree: directories were made, then the files in `filings` were
written, and those in `rest` were not. -/
structure Effect (d : Delivery) (t made : FileTree) (filings : List Filing)
    (rest : List (String × String)) : Prop where
  grows : Grows t made
  admits : Admits d.directory made filings
  entries_eq : d.entries = filings.map Filing.entry ++ rest
  tree_eq : (d.run t).2 = made.fileAll filings
  events_eq : (d.run t).1.events = told d.directory (filings.map Filing.entry)
  finished : rest = [] → made.Made d.directory ∧
    (d.run t).1.outcome = .ok (pathsOf d.directory d.entries)
  stopped : ∀ missed more, rest = missed :: more → ∃ e, (d.run t).1.outcome = .error e ∧
    ((fileSystem.makeDirectories d.directory t).1 = .error e ∨
      (d.run t).2.write (join d.directory missed.1) missed.2 = .error e)

/-- **What a delivery does.** -/
theorem exists_effect (d : Delivery) (t : FileTree) :
    ∃ made filings rest, d.Effect t made filings rest := by
  obtain ⟨hgrows, hmade⟩ := makeDirectories_spec t d.directory
  have hrun := d.run_eq t
  generalize hresult : fileSystem.makeDirectories d.directory t = result at hgrows hmade hrun
  obtain ⟨outcome, made⟩ := result
  cases outcome with
  | error e =>
      refine ⟨made, [], d.entries, hgrows, .nil made, rfl, by rw [hrun]; rfl, by rw [hrun]; rfl,
        nofun, ?_⟩
      intro missed more _
      exact ⟨e, by rw [hrun]; rfl, .inl (by rw [hresult])⟩
  | ok done =>
      have hwritten : Written d.directory made d.entries (d.run t) :=
        hrun ▸ written_writeAll (isFileName_contents d.compilation d.target)
      generalize hended : d.run t = ended at hwritten
      cases hwritten with
      | @all filings hentries hadmits =>
          refine ⟨made, filings, [], hgrows, hadmits, by rw [hentries, List.append_nil],
            by rw [hended], by rw [hended, hentries], ?_, nofun⟩
          exact fun _ => ⟨hmade rfl, by rw [hended]⟩
      | @upTo filings missed more e hentries hadmits hfails =>
          refine ⟨made, filings, missed :: more, hgrows, hadmits, hentries, by rw [hended],
            by rw [hended], nofun, ?_⟩
          intro first others hfirst
          cases hfirst
          exact ⟨e, by rw [hended], .inr (by rw [hended]; exact hfails)⟩

namespace Effect

/-- No two files of a delivery have the same name. -/
theorem pairwise (h : d.Effect t made filings rest) :
    (filings.map Filing.entry ++ rest).Pairwise fun earlier later => earlier.1 ≠ later.1 :=
  h.entries_eq ▸ pairwise_contents d.compilation d.target

/-- Each file of a delivery has the name of a file. -/
theorem isFileName (h : d.Effect t made filings rest) {entry : String × String}
    (hentry : entry ∈ filings.map Filing.entry ++ rest) : IsFileName entry.1 := by
  rw [← h.entries_eq] at hentry
  exact isFileName_contents d.compilation d.target entry hentry

/-- No two files that were written have the same place. -/
theorem nodup_places (h : d.Effect t made filings rest) : (filings.map Filing.place).Nodup :=
  FileTree.nodup_places (List.pairwise_append.mp h.pairwise).1

/-- The events tell of the files that were written, and of no others. -/
theorem written_eq (h : d.Effect t made filings rest) :
    d.written t = filings.map Filing.entry := by
  rw [written, h.events_eq, toldPaths_told, h.entries_eq, List.filter_append]
  have hfirst : (filings.map Filing.entry).filter (fun entry =>
      join d.directory entry.1 ∈ pathsOf d.directory (filings.map Filing.entry)) =
        filings.map Filing.entry := by
    rw [List.filter_eq_self]
    intro entry hentry
    exact decide_eq_true (List.mem_map_of_mem hentry)
  have hothers : rest.filter (fun entry =>
      join d.directory entry.1 ∈ pathsOf d.directory (filings.map Filing.entry)) = [] := by
    rw [List.filter_eq_nil_iff]
    intro entry hentry htold
    obtain ⟨other, hother, hpath⟩ := List.mem_map.mp (of_decide_eq_true htold)
    have hsame := join_inj (h.isFileName (List.mem_append_left _ hother))
      (h.isFileName (List.mem_append_right _ hentry)) hpath
    exact (List.pairwise_append.mp h.pairwise).2.2 other hother entry hentry hsame
  rw [hfirst, hothers, List.append_nil]

end Effect

/-- The files that are `written` into a directory hold what was written, and no other place
changes but for new directories. -/
structure SetsOnly (directory : String) (written : List (String × String))
    (t after : FileTree) : Prop where
  holds : ∀ entry ∈ written, after.read (join directory entry.1) = .ok entry.2 ∧
    ∃ place, after.place? (join directory entry.1) = some place ∧
      after.fileAt? place = some entry.2.toUTF8
  spares : ∀ place, (∀ entry ∈ written, after.place? (join directory entry.1) ≠ some place) →
    Spares t after place

/-- A delivery sets the files that it wrote, and nothing else. -/
theorem Effect.setsOnly (h : d.Effect t made filings rest) :
    SetsOnly d.directory (d.written t) t (d.run t).2 := by
  rw [h.written_eq, h.tree_eq]
  refine ⟨?_, ?_⟩
  · intro entry hentry
    obtain ⟨f, hf, rfl⟩ := List.mem_map.mp hentry
    obtain ⟨hleads, -⟩ := h.admits.leads_of_mem hf
    have hfind := find?_fileAll_of_mem (t := made) h.nodup_places hf
    exact ⟨hleads.read_eq hfind, f.place, hleads.place?_eq, fileAt?_eq_some_iff.mpr hfind⟩
  · intro place hplace
    have hothers : ∀ f ∈ filings, f.place ≠ place := by
      intro f hf heq
      obtain ⟨hleads, -⟩ := h.admits.leads_of_mem hf
      exact hplace f.entry (List.mem_map_of_mem hf) (heq ▸ hleads.place?_eq)
    exact (h.grows.spares place).trans
      (spares_of_find?_eq (find?_fileAll_of_not_mem hothers))

/-- **A finished delivery that is repeated changes nothing.** -/
theorem Effect.run_again (h : d.Effect t made filings []) : d.run (d.run t).2 = d.run t := by
  obtain ⟨hmade, houtcome⟩ := h.finished rfl
  have hentries : d.entries = filings.map Filing.entry := by
    rw [h.entries_eq, List.append_nil]
  have hstill : (made.fileAll filings).Made d.directory :=
    h.admits.kept (fun t => t.Made d.directory) (fun hplace hmade => hmade.put hplace) hmade
  have hadmits : Admits d.directory (made.fileAll filings) filings :=
    admits_of_leads fun f hf => h.admits.leads_of_mem hf
  have hended : d.run t = (⟨told d.directory d.entries, .ok (pathsOf d.directory d.entries)⟩,
      made.fileAll filings) := by
    rw [← houtcome, hentries, ← h.events_eq, ← h.tree_eq]
  rw [run_eq, h.tree_eq, hstill.makeDirectories_eq, hended]
  dsimp only
  rw [hentries, writeAll_of_admits hadmits, fileAll_fileAll h.nodup_places]

/-- What a delivery may do to a tree, and what it gives. -/
structure Accounted (d : Delivery) (t : FileTree) : Prop where
  sets : SetsOnly d.directory (d.written t) t (d.run t).2
  /-- A success gives the paths of the three files in order, and all of them are written. -/
  succeeds : ∀ paths, (d.run t).1.outcome = .ok paths →
    paths = [join d.directory "tokens.json", join d.directory "ast.json",
      join d.directory d.target.outputFile] ∧
    d.written t = [("tokens.json", Token.listJson d.compilation.tokens),
      ("ast.json", d.compilation.program.treeJson), (d.target.outputFile, d.compilation.code)]
  /-- After a failure the files before the one that is missed are written; where that one
  would be, nothing comes but a directory. -/
  fails : ∀ e, (d.run t).1.outcome = .error e →
    ∃ missed more, d.entries = d.written t ++ missed :: more ∧
      (∀ place, (d.run t).2.place? (join d.directory missed.1) = some place →
        Spares t (d.run t).2 place) ∧
      ((fileSystem.makeDirectories d.directory t).1 = .error e ∨
        (d.run t).2.write (join d.directory missed.1) missed.2 = .error e)
  /-- Without the directory no file is written at all. -/
  unmade : ∀ e, (fileSystem.makeDirectories d.directory t).1 = .error e →
    (d.run t).1.outcome = .error e ∧ d.written t = [] ∧ ∀ place, Spares t (d.run t).2 place
  again : ∀ paths, (d.run t).1.outcome = .ok paths → d.run (d.run t).2 = d.run t

/-- Nothing is left to write exactly if the delivery succeeded. -/
theorem Effect.rest_eq_nil_iff (h : d.Effect t made filings rest) :
    rest = [] ↔ ∃ paths, (d.run t).1.outcome = .ok paths := by
  apply Iff.intro
  · intro hnil
    exact ⟨_, (h.finished hnil).2⟩
  · intro hok
    obtain ⟨paths, hpaths⟩ := hok
    cases hrest : rest with
    | nil => rfl
    | cons missed more =>
        obtain ⟨e, he, -⟩ := h.stopped missed more hrest
        rw [hpaths] at he
        cases he

/-- The place of a file that is missed is not that of a file that was written. -/
theorem Effect.spares_missed {missed : String × String} {more : List (String × String)}
    {place : Location} (h : d.Effect t made filings (missed :: more))
    (hplace : (d.run t).2.place? (join d.directory missed.1) = some place) :
    Spares t (d.run t).2 place := by
  have hmissed : missed ∈ filings.map Filing.entry ++ missed :: more := by simp
  obtain ⟨location, -, rfl⟩ := exists_leads_of_place? (h.isFileName hmissed) hplace
  refine h.setsOnly.spares _ ?_
  intro entry hentry hsame
  rw [h.written_eq] at hentry
  obtain ⟨other, -, hother⟩ :=
    exists_leads_of_place? (h.isFileName (List.mem_append_left _ hentry)) hsame
  exact (List.pairwise_append.mp h.pairwise).2.2 entry hentry missed (by simp)
    (List.cons.inj hother).1.symm

/-- **What a delivery does is accounted for.** -/
theorem accounted (d : Delivery) (t : FileTree) : d.Accounted t := by
  obtain ⟨made, filings, rest, h⟩ := d.exists_effect t
  refine ⟨h.setsOnly, ?_, ?_, ?_, ?_⟩
  · intro paths hpaths
    have hnil := h.rest_eq_nil_iff.mpr ⟨paths, hpaths⟩
    have hentries := h.entries_eq
    rw [hnil, List.append_nil, ← h.written_eq] at hentries
    rw [(h.finished hnil).2] at hpaths
    cases hpaths
    exact ⟨rfl, hentries.symm⟩
  · intro e he
    cases rest with
    | nil =>
        rw [(h.finished rfl).2] at he
        cases he
    | cons missed more =>
        obtain ⟨reason, hreason, hcause⟩ := h.stopped missed more rfl
        rw [hreason] at he
        cases he
        refine ⟨missed, more, ?_, fun place hplace => h.spares_missed hplace, hcause⟩
        rw [h.written_eq, ← h.entries_eq]
  · intro e he
    have hgrows := (makeDirectories_spec t d.directory).1
    have hrun := run_of_unmade he
    refine ⟨by rw [hrun]; rfl, ?_, ?_⟩
    · rw [written, hrun, List.filter_eq_nil_iff]
      intro entry _ htold
      cases of_decide_eq_true htold
    · intro place
      rw [hrun]
      exact hgrows.spares place
  · intro paths hpaths
    have hnil := h.rest_eq_nil_iff.mpr ⟨paths, hpaths⟩
    subst hnil
    exact h.run_again

/-! ### Deliveries one after the other -/

/-- The tree after several deliveries, whether they succeed or not. -/
def runAll : List Delivery → FileTree → FileTree
  | [], t => t
  | d :: rest, t => runAll rest (d.run t).2

/-- The content that a delivery sets at a place, if it writes a file there. -/
def sets? (d : Delivery) (t : FileTree) (place : Location) : Option String :=
  ((d.written t).find? fun entry =>
    (d.run t).2.place? (join d.directory entry.1) = some place).map Prod.snd

/-- The content that the last delivery sets at a place, of those that write a file there. -/
def lastSet? (place : Location) : List Delivery → FileTree → Option String
  | [], _ => none
  | d :: rest, t => (lastSet? place rest (d.run t).2).or (d.sets? t place)

/-- **One delivery.**  A place holds what the delivery sets there, and otherwise what it
held before. -/
theorem fileAt?_run (d : Delivery) (t : FileTree) (place : Location) :
    (d.run t).2.fileAt? place = ((d.sets? t place).map String.toUTF8).or (t.fileAt? place) := by
  obtain ⟨made, filings, rest, h⟩ := d.exists_effect t
  unfold sets?
  cases hfound : (d.written t).find? fun entry =>
      (d.run t).2.place? (join d.directory entry.1) = some place with
  | none =>
      refine (h.setsOnly.spares place ?_).file
      intro entry hentry
      simpa using List.find?_eq_none.mp hfound entry hentry
  | some entry =>
      obtain ⟨-, other, hother, hholds⟩ :=
        h.setsOnly.holds entry (List.mem_of_find?_eq_some hfound)
      have hplace : (d.run t).2.place? (join d.directory entry.1) = some place := by
        simpa using List.find?_some hfound
      rw [hother] at hplace
      cases hplace
      exact hholds

/-- **Several deliveries.**  The last one that writes a file decides what it holds. -/
theorem fileAt?_runAll (deliveries : List Delivery) (t : FileTree) (place : Location) :
    (runAll deliveries t).fileAt? place =
      ((lastSet? place deliveries t).map String.toUTF8).or (t.fileAt? place) := by
  induction deliveries generalizing t with
  | nil => rfl
  | cons d rest ih =>
      rw [runAll, ih, fileAt?_run, lastSet?, Option.map_or, Option.or_assoc]

/-- Deliveries in two parts are made one part after the other. -/
theorem runAll_append (earlier later : List Delivery) (t : FileTree) :
    runAll (earlier ++ later) t = runAll later (runAll earlier t) := by
  induction earlier generalizing t with
  | nil => rfl
  | cons d earlier ih => exact ih (d.run t).2

/-- What the later deliveries set at a place hides what the earlier ones set there. -/
theorem lastSet?_append (place : Location) (earlier later : List Delivery) (t : FileTree) :
    lastSet? place (earlier ++ later) t =
      (lastSet? place later (runAll earlier t)).or (lastSet? place earlier t) := by
  induction earlier generalizing t with
  | nil => exact Option.or_none.symm
  | cons d earlier ih =>
      rw [List.cons_append, lastSet?, ih, lastSet?, Option.or_assoc]
      rfl

variable {path name : String} {location : Location}

/-- A path leads where it led before a delivery. -/
theorem leads_run (h : t.Leads path name location) : (d.run t).2.Leads path name location := by
  obtain ⟨made, filings, rest, heffect⟩ := d.exists_effect t
  rw [heffect.tree_eq]
  exact heffect.admits.leads (heffect.grows.leads h)

/-- A path leads where it led before any number of deliveries. -/
theorem leads_runAll {deliveries : List Delivery} (h : t.Leads path name location) :
    (runAll deliveries t).Leads path name location := by
  induction deliveries generalizing t with
  | nil => exact h
  | cons d rest ih => exact ih (leads_run h)

/-- A file that is written is set at the place to which its path leads, now and after all
later deliveries. -/
theorem exists_set_of_written {entry : String × String} (hentry : entry ∈ d.written t)
    (later : List Delivery) :
    ∃ location content, (d.run t).2.place? (join d.directory entry.1) = some (entry.1 :: location) ∧
      (runAll later (d.run t).2).Leads (join d.directory entry.1) entry.1 location ∧
      d.sets? t (entry.1 :: location) = some content := by
  obtain ⟨made, filings, rest, h⟩ := d.exists_effect t
  have hfiled := hentry
  rw [h.written_eq] at hfiled
  obtain ⟨f, hf, rfl⟩ := List.mem_map.mp hfiled
  have hleads := (h.admits.leads_of_mem hf).1
  rw [← h.tree_eq] at hleads
  have hfound : ((d.written t).find? fun other =>
      (d.run t).2.place? (join d.directory other.1) = some f.place).isSome := by
    rw [List.find?_isSome]
    exact ⟨f.entry, hentry, decide_eq_true hleads.place?_eq⟩
  obtain ⟨found, hfound⟩ := Option.isSome_iff_exists.mp hfound
  refine ⟨f.location, found.2, hleads.place?_eq, leads_runAll hleads, ?_⟩
  rw [sets?]
  exact congrArg (Option.map Prod.snd) hfound

/-- **Artifacts touch only their own files.**  A delivery writes its three files in order, or
those before the one that cannot be written, and changes nothing else but that directories
may come where nothing was; a success that is repeated changes nothing.  After any sequence
of deliveries every place holds what the last delivery set that wrote a file there, or what
it held before all of them; and every path to which something was written still leads to
the same place, and what is read there is what was set last. -/
theorem deliveries_touch_own_files (t : FileTree) (deliveries : List Delivery) :
    (∀ d : Delivery, d.Accounted t) ∧
    (∀ place, (runAll deliveries t).fileAt? place =
      ((lastSet? place deliveries t).map String.toUTF8).or (t.fileAt? place)) ∧
    ∀ earlier d later, deliveries = earlier ++ d :: later →
      ∀ entry ∈ d.written (runAll earlier t), ∃ place content,
        (d.run (runAll earlier t)).2.place? (join d.directory entry.1) = some place ∧
        (runAll deliveries t).place? (join d.directory entry.1) = some place ∧
        lastSet? place deliveries t = some content ∧
        (runAll deliveries t).read (join d.directory entry.1) = .ok content := by
  refine ⟨fun d => d.accounted t, fileAt?_runAll deliveries t, ?_⟩
  intro earlier d later hsplit entry hentry
  obtain ⟨location, content, hplace, hleads, hset⟩ := exists_set_of_written hentry later
  have hfinal : runAll deliveries t = runAll later (d.run (runAll earlier t)).2 := by
    rw [hsplit, runAll_append, runAll]
  have hlast : ∃ content, lastSet? (entry.1 :: location) deliveries t = some content := by
    rw [hsplit, lastSet?_append, lastSet?, hset, ← Option.isSome_iff_exists]
    simp
  obtain ⟨content, hlast⟩ := hlast
  have hholds := fileAt?_runAll deliveries t (entry.1 :: location)
  rw [hlast, hfinal] at hholds
  refine ⟨entry.1 :: location, content, hplace, ?_, hlast, ?_⟩
  · rw [hfinal]
    exact hleads.place?_eq
  · rw [hfinal]
    exact hleads.read_eq (fileAt?_eq_some_iff.mp hholds)

-- A directory stands where the dump of the program would be, so only the tokens are written.
example : (written ⟨"out", ⟨[], ⟨[]⟩, ""⟩, .javaScript⟩ (((FileTree.scratch "home").put
    ["out", "home"] .directory).put ["ast.json", "out", "home"] .directory)).map Prod.fst =
    ["tokens.json"] := by
  decide +kernel

end Delivery

end SochoScript
