/-!
# Paths

A path is a text in which slashes separate names.  It is kept as it was given,
because it is shown as it was given; the operations here look at its segments,
which are the texts between the slashes.  An empty segment and a single dot lead
nowhere, except for the first segment of a path: an empty one there means the
root, and a dot the place where the path starts.
-/

namespace SochoScript

namespace Path

/-- The texts between the slashes. -/
def split : List Char → List (List Char)
  | [] => [[]]
  | '/' :: cs => [] :: split cs
  | c :: cs =>
    match split cs with
    | [] => [[c]]
    | segment :: rest => (c :: segment) :: rest

/-- The segments of a path. -/
def segments (path : String) : List String :=
  (split path.toList).map String.ofList

/-- Whether the null character stands in a path, which no file system takes. -/
def hasNull (path : String) : Bool :=
  path.toList.contains '\x00'

/-- The path with the given segments. -/
def ofSegments (segments : List String) : String :=
  "/".intercalate segments

/-- Whether a segment after the first leads nowhere. -/
def isTrivial (segment : String) : Bool := segment = "" || segment = "."

/-- A name below a directory. -/
def join (directory name : String) : String :=
  if directory = "" then name
  else if directory.toList.getLast? = some '/' then directory ++ name
  else directory ++ "/" ++ name

/-- The last name of a path, unless it is the root or leads upwards. -/
def fileName? (path : String) : Option String :=
  match segments path with
  | [] => none
  | first :: rest =>
    let last := (rest.reverse.dropWhile isTrivial).headD first
    if isTrivial last || last = ".." then none else some last

/-- The directories above `first` and the segments in `above`, which are in
reverse order; the root is left out. -/
def enclosing (first : String) : List String → List String
  | [] => if first = "" then [] else [first]
  | segment :: above =>
    if isTrivial segment then enclosing first above
    else ofSegments (first :: (segment :: above).reverse) :: enclosing first above

/-- A path and the directories that enclose it, the innermost first.  The root
and the place where a path starts are left out. -/
def ancestors (path : String) : List String :=
  match segments path with
  | [] => []
  | first :: rest =>
    match rest.reverse.dropWhile isTrivial with
    | [] => if first = "" then [] else [path]
    | _ :: above => path :: enclosing first above

end Path

end SochoScript
