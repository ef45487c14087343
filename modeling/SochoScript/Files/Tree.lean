import SochoScript.Files.System

/-!
# File trees

A file system as a value: a finite map from locations to files and directories.
A location is the list of names that lead to it from the root, the last name
first, so that the directory that holds it is its tail.

A path is followed segment by segment from the working directory, or from the
root if it begins with a slash.  Each step needs a directory to start from; a dot
stays, two dots go up, and a name must be there and must not be too long.  A
slash at the end of a path asks for a directory.  A path with the null character
in it is refused before anything is looked up.
-/

namespace SochoScript

/-- The names that lead to a place from the root, the last one first. -/
abbrev Location := List String

/-- What can stand at a location. -/
inductive Node where
  | file (content : ByteArray)
  | directory

/-- A file system as a value. -/
structure FileTree where
  /-- What stands where; the root is not listed. -/
  nodes : List (Location × Node)
  /-- Where paths start that do not begin with a slash. -/
  workingDirectory : Location

namespace FileTree

/-- A tree with an empty working directory of the given name. -/
def scratch (name : String) : FileTree :=
  ⟨[([name], .directory)], [name]⟩

/-- What stands at a location. -/
def find? (t : FileTree) (location : Location) : Option Node :=
  if location = [] then some .directory
  else (t.nodes.find? fun entry => entry.1 = location).map Prod.snd

/-- The tree with something else at a location. -/
def put (t : FileTree) (location : Location) (node : Node) : FileTree :=
  { t with nodes := (location, node) :: t.nodes.filter fun entry => entry.1 ≠ location }

/-- What is put at a place below the root stands there. -/
@[simp] theorem find?_put_self {t : FileTree} {location : Location} {node : Node}
    (h : location ≠ []) : (t.put location node).find? location = some node := by
  simp [find?, put, h]

/-- Nothing changes at any other place. -/
theorem find?_put_of_ne {t : FileTree} {location other : Location} {node : Node}
    (h : other ≠ location) : (t.put location node).find? other = t.find? other := by
  unfold find? put
  split
  · rfl
  · rename_i hroot
    have hfilter : ∀ nodes : List (Location × Node),
        (nodes.filter fun entry => entry.1 ≠ location).find? (fun entry => entry.1 = other) =
          nodes.find? fun entry => entry.1 = other := by
      intro nodes
      induction nodes with
      | nil => rfl
      | cons entry rest ih =>
          by_cases hentry : entry.1 = location
          · have hother : entry.1 ≠ other := fun heq => h (heq.symm.trans hentry)
            rw [List.filter_cons_of_neg (by simpa using hentry),
              List.find?_cons_of_neg (by simpa using hother), ih]
          · rw [List.filter_cons_of_pos (by simpa using hentry), List.find?_cons,
              List.find?_cons, ih]
    rw [List.find?_cons_of_neg (by simpa using Ne.symm h), hfilter]

/-- The longest name, in bytes. -/
def nameLimit : Nat := 255

/-- The longest path, in bytes. -/
def pathLimit : Nat := 4095

/-- Where a name leads in a directory: a place that is there, or not yet. -/
def lookUp (t : FileTree) (location : Location) (name : String) :
    Except FileError (Location × Option Node) :=
  match t.find? location with
  | some .directory =>
    if name = "" ∨ name = "." then .ok (location, some .directory)
    else if name = ".." then .ok (location.tail, some .directory)
    else if nameLimit < name.utf8ByteSize then .error .nameTooLong
    else .ok (name :: location, t.find? (name :: location))
  | some (.file _) => .error .notADirectory
  | none => .error .notFound

/-- Where segments lead, all of which must be there. -/
def walk (t : FileTree) (location : Location) : List String → Except FileError Location
  | [] => .ok location
  | segment :: rest =>
    match t.lookUp location segment with
    | .ok (next, some _) => walk t next rest
    | .ok (_, none) => .error .notFound
    | .error e => .error e

/-- The place where a path starts and its segments. -/
def route (t : FileTree) (path : String) : Except FileError (Location × List String) :=
  if Path.hasNull path then .error .invalidPath
  else if path = "" then .error .notFound
  else if pathLimit < path.utf8ByteSize then .error .nameTooLong
  else
    match Path.segments path with
    | "" :: rest => .ok ([], rest)
    | all => .ok (t.workingDirectory, all)

/-- What a path leads to. -/
def resolve (t : FileTree) (path : String) : Except FileError Node := do
  let (start, segments) ← t.route path
  let location ← t.walk start segments
  match t.find? location with
  | some node => return node
  | none => throw .notFound

/-- The directory that holds the last name of a path, and that name. -/
def resolveLast (t : FileTree) (start : Location) (segments : List String) :
    Except FileError (Location × String) := do
  match segments.reverse with
  | [] => return (start, ".")
  | last :: above =>
    let location ← t.walk start above.reverse
    return (location, last)

/-- The text in a file. -/
def read (t : FileTree) (path : String) : Except FileError String := do
  match ← t.resolve path with
  | .directory => throw .isADirectory
  | .file content =>
    match String.fromUTF8? content with
    | some text => return text
    | none => throw .invalidText

/-- Whether a path leads to a directory. -/
def isDirectory (t : FileTree) (path : String) : Bool :=
  match t.resolve path with
  | .ok .directory => true
  | _ => false

/-- The tree with one more directory. -/
def makeDirectory (t : FileTree) (path : String) : Except FileError FileTree := do
  let (start, segments) ← t.route path
  let named := (segments.reverse.dropWhile fun segment => segment = "").reverse
  let (location, last) ← t.resolveLast start named
  match ← t.lookUp location last with
  | (_, some _) => throw .alreadyExists
  | (place, none) => return t.put place .directory

/-- The tree with other content in a file. -/
def write (t : FileTree) (path content : String) : Except FileError FileTree := do
  let (start, segments) ← t.route path
  let (location, last) ← t.resolveLast start segments
  match ← t.lookUp location last with
  | (_, some .directory) => throw .isADirectory
  | (place, _) => return t.put place (.file content.toUTF8)

/-- An operation that may change the tree; a failure leaves it as it was. -/
def change (operation : FileTree → Except FileError FileTree) :
    StateM FileTree (Except FileError Unit) := fun t =>
  match operation t with
  | .ok changed => (.ok (), changed)
  | .error e => (.error e, t)

/-- The operations on a tree. -/
def fileSystem : FileSystem (StateM FileTree) where
  read path := fun t => (t.read path, t)
  makeDirectory path := change fun t => t.makeDirectory path
  isDirectory path := fun t => (t.isDirectory path, t)
  write path content := change fun t => t.write path content

end FileTree

end SochoScript
