import PropertyGraph.FilePath
import PropertyGraph.OrderedMap

/-! Trees of files with a working directory. A path is walked part by part, and every
part but the last has to be a directory. -/

namespace PropertyGraph

/-- What reading a file finds. -/
inductive FileContent where
  | absent
  /-- There is something, but no text can be read from it. -/
  | unreadable
  | text (content : String)
deriving DecidableEq

structure FileTree where
  /-- The text of every file, and none for a directory, under the names that lead there
  from the root. -/
  entries : OrderedMap (List String) (Option String)
  /-- The working directory. -/
  here : List String
deriving DecidableEq

namespace FileTree

/-- A tree that holds the empty device and an empty working directory. -/
def empty : FileTree :=
  ⟨.ofList [(["dev"], none), (["dev", "null"], some ""), (["home"], none)], ["home"]⟩

instance : Inhabited FileTree := ⟨empty⟩

/-! ### Walking -/

def isDirectory (t : FileTree) (place : List String) : Bool :=
  place.isEmpty || t.entries.get? place == some none

/-- The greatest length of a name and of a path, in bytes. -/
def nameLimit : Nat := 255

def pathLimit : Nat := 4095

/-- Where a list of parts leads from a place; nothing need be there yet. -/
def walk (t : FileTree) : List String → List String → Option (List String)
  | place, [] => some place
  | place, part :: rest =>
    if !t.isDirectory place then none
    else if FilePath.isIdle part then t.walk place rest
    else if part == ".." then t.walk place.dropLast rest
    else if nameLimit < part.utf8ByteSize then none
    else t.walk (place ++ [part]) rest

/-- Where a path leads. -/
def locate (t : FileTree) (path : String) : Option (List String) :=
  if path == "" || path.contains '\x00' || pathLimit < path.utf8ByteSize then none
  else t.walk (if path.startsWith "/" then [] else t.here) (FilePath.parts path)

/-! ### Files -/

def read (t : FileTree) (path : String) : FileContent :=
  match t.locate path with
  | none => .absent
  | some place =>
    if t.isDirectory place then .unreadable
    else match t.entries.get? place with
      | some (some content) => .text content
      | _ => .absent

/-- Puts a text where a path leads, unless a directory is there. -/
def write? (t : FileTree) (path content : String) : Option FileTree := do
  let place ← t.locate path
  if t.isDirectory place then none
  else some { t with entries := t.entries.insert place (some content) }

/-- Removes the file that a path leads to. -/
def remove (t : FileTree) (path : String) : FileTree :=
  match t.locate path with
  | none => t
  | some place =>
    if t.isDirectory place then t else { t with entries := t.entries.erase place }

/-- Replaces a file in one step: the text is written beside it and then moved into its
place. Where that fails the file stays as it is, and nothing is left beside it. -/
def replace (t : FileTree) (path content : String) : Bool × FileTree :=
  let beside := FilePath.temporary path
  match t.write? beside content with
  | none => (false, t)
  | some written =>
    let cleared := written.remove beside
    match cleared.write? path content with
    | none => (false, cleared)
    | some moved => (true, moved)

/-- Makes a directory where a path leads, if nothing is there. -/
def makeDirectory (t : FileTree) (path : String) : FileTree :=
  match t.locate path with
  | none => t
  | some place =>
    if t.isDirectory place then t
    else { t with entries := t.entries.insertNew place none }

/-- The names in the working directory, in order. -/
def names (t : FileTree) : List String :=
  (t.entries.keys.filterMap (nameIn t.here)).mergeSort fun a b => !decide (b < a)
where
  /-- The last name of a place right inside a directory. -/
  nameIn : List String → List String → Option String
    | [], [name] => some name
    | d :: ds, p :: ps => if d = p then nameIn ds ps else none
    | _, _ => none

end FileTree

end PropertyGraph
