/-! Paths of files as texts. The parts of a path stand between slashes; empty parts
and single dots lead nowhere else. -/

namespace PropertyGraph.FilePath

def parts (path : String) : List String := (path.toList.splitOn '/').map String.ofList

/-- Whether a part leads to where one already is. -/
def isIdle (part : String) : Bool := part == "" || part == "."

/-- The text of a list of parts. -/
def ofParts (parts : List String) : String := "/".intercalate parts

/-- The parts of a directory without the idle ones at its end, last part first. The first
part of a path stays, because it tells where the path begins. -/
def trimEnd : List String → List String
  | [] => []
  | [first] => [first]
  | part :: rest => if isIdle part then trimEnd rest else part :: rest

/-- A path beside another one: its file name is put between a dot and `.tmp`. A path
that names no file gets `graph.json` for a name. -/
def temporary (path : String) : String :=
  match (parts path).reverse.dropWhile isIdle with
  | [] => within path
  | ".." :: _ => within path
  | name :: above => ofParts ((("." ++ name ++ ".tmp") :: trimEnd above).reverse)
where
  /-- The file of a path that stands for a directory. -/
  within (path : String) : String :=
    if path == "" || path.endsWith "/" then path ++ ".graph.json.tmp"
    else path ++ "/.graph.json.tmp"

end PropertyGraph.FilePath
