/-! YAML trees. A scalar keeps its text, its style and its tag, because only some scalars
can be numbers or booleans. An anchor gives a tree a mark, for which an alias stands; an
alias may stand in front of what it stands for. -/

namespace PropertyGraph

namespace Yaml

/-- How a scalar is written. -/
inductive Style where
  | plain
  | quoted
  | literal
  | folded
deriving DecidableEq

end Yaml

inductive Yaml where
  | scalar (text : String) (style : Yaml.Style) (tag : Option String)
  | sequence (items : List Yaml)
  | mapping (entries : List (Yaml × Yaml))
  | alias (mark : Nat)
  | marked (mark : Nat) (x : Yaml)

namespace Yaml

instance : Inhabited Yaml := ⟨.sequence []⟩

/-- What stands where nothing is written. -/
def absent (tag : Option String) : Yaml := .scalar "" .plain tag

/-- A tree without its mark. -/
def content : Yaml → Yaml
  | .marked _ x => x.content
  | x => x

mutual

/-- The marked trees inside a tree, in the order in which they begin. -/
def marks : Yaml → List (Nat × Yaml)
  | .marked mark x => (mark, x) :: marks x
  | .sequence items => itemMarks items
  | .mapping entries => entryMarks entries
  | .scalar .. | .alias _ => []

def itemMarks : List Yaml → List (Nat × Yaml)
  | [] => []
  | x :: items => marks x ++ itemMarks items

def entryMarks : List (Yaml × Yaml) → List (Nat × Yaml)
  | [] => []
  | (key, x) :: entries => marks key ++ marks x ++ entryMarks entries

end

/-- What a part of a document stands for: an alias for the last tree of its mark, all else
for itself. -/
def resolve? (document : Yaml) : Yaml → Option Yaml
  | .alias mark => (document.marks.reverse.lookup mark).map content
  | x => some x.content

end Yaml

end PropertyGraph
