import PropertyGraph.Command.Clause

/-! Statements: the text of whole commands. A command is one statement, ended by a
semicolon or not. -/

namespace PropertyGraph.Draft

/-! ### Parts -/

/-- A label followed by an id. -/
def plainRef? (s : List Char) : Option (Ref × List Char) := do
  let (label, s) ← Token.word? s
  let (digits, s) ← Token.digits? s
  some (⟨label, digits⟩, s)

/-- A label with the id in parentheses, as in `Person(id=1)`. -/
def ref? (s : List Char) : Option (Ref × List Char) := do
  let (label, s) ← Token.word? s
  let s ← Token.symbol? "(" s
  let s ← Token.afterFolded? "ID".toList (Blank.skip s)
  let s ← Token.symbol? "=" s
  let (digits, s) ← Token.digits? s
  let s ← Token.symbol? ")" s
  some (⟨label, digits⟩, s)

/-- The ends of a relationship. -/
def ends? (s : List Char) : Option ((Ref × Ref) × List Char) := do
  let s ← Token.keyword? "FROM" s
  let (source, s) ← ref? s
  let s ← Token.keyword? "TO" s
  let (target, s) ← ref? s
  some ((source, target), s)

/-- What stands in brackets between two nodes, with the direction of the arrow. -/
def arrow? {α : Type} (inside : List Char → Option (α × List Char)) (s : List Char) :
    Option ((α × Direction) × List Char) :=
  match Token.symbol? "-[" s with
  | some s => do
    let (x, s) ← inside s
    let s ← Token.symbol? "]->" s
    some ((x, .outgoing), s)
  | none => do
    let s ← Token.symbol? "<-[" s
    let (x, s) ← inside s
    let s ← Token.symbol? "]-" s
    some ((x, .incoming), s)

def atArrow (s : List Char) : Bool :=
  (Token.symbol? "-[" s).isSome || (Token.symbol? "<-[" s).isSome

def step? (s : List Char) : Option (Step × List Char) := do
  let ((kind, direction), s) ← arrow? Token.word? s
  let (label, s) ← Token.word? s
  some (⟨kind, direction, some label⟩, s)

/-- Steps as long as an arrow follows. -/
def steps? : Nat → List Char → Option (List Step × List Char)
  | 0, _ => none
  | fuel + 1, s =>
    if atArrow s then do
      let (x, s) ← step? s
      let (xs, s) ← steps? fuel s
      some (x :: xs, s)
    else some ([], s)

/-- A name that may be left out, a colon and a tag. -/
def tagged? (s : List Char) : Option ((Option String × String) × List Char) := do
  let (name, s) := match Token.word? s with
    | some (name, s) => (some name, s)
    | none => (none, s)
  let s ← Token.symbol? ":" s
  let (tag, s) ← Token.word? s
  some ((name, tag), s)

def nodeSlot? (s : List Char) : Option (NodeSlot × List Char) := do
  let s ← Token.symbol? "(" s
  let ((name, label), s) ← tagged? s
  let s ← Token.symbol? ")" s
  some (⟨name, label⟩, s)

def segment? (s : List Char) : Option ((RelationshipSlot × NodeSlot) × List Char) := do
  let (((name, kind), direction), s) ← arrow? tagged? s
  let (node, s) ← nodeSlot? s
  some ((⟨name, kind, direction⟩, node), s)

def segments? : Nat → List Char → Option (List (RelationshipSlot × NodeSlot) × List Char)
  | 0, _ => none
  | fuel + 1, s =>
    if atArrow s then do
      let (x, s) ← segment? s
      let (xs, s) ← segments? fuel s
      some (x :: xs, s)
    else some ([], s)

def direction? (s : List Char) : Option (Direction × List Char) :=
  [Direction.outgoing, .incoming, .both].findSome? fun d =>
    (Token.keyword? d.name s).map (d, ·)

/-- The kind that neighbours are filtered by, if any. -/
def kindFilter? (s : List Char) : Option (Option String × List Char) :=
  match Token.keyword? "WITH" s with
  | none => some (none, s)
  | some s => do
    let s ← Token.keyword? "RELATIONSHIP" s
    let (kind, s) ← Token.word? s
    some (some kind, s)

/-- The direction in which neighbours are looked for. -/
def directionClause? (s : List Char) : Option (Direction × List Char) :=
  match Token.keyword? "DIRECTION" s with
  | none => some (.outgoing, s)
  | some s => direction? s

/-! ### Statements after their first keyword -/

def create? (s : List Char) : Option (Draft × List Char) :=
  match Token.keyword? "NODE" s with
  | some s => do
    let (label, s) ← Token.word? s
    let (properties, s) ← blockIfAny? s
    some (.createNode label properties, s)
  | none => do
    let s ← Token.keyword? "RELATIONSHIP" s
    let (kind, s) ← Token.word? s
    let ((source, target), s) ← ends? s
    let (properties, s) ← blockIfAny? s
    some (.createRelationship kind source target properties, s)

def get? (s : List Char) : Option (Draft × List Char) :=
  match Token.keyword? "NODE" s with
  | some s => do
    let (ref, s) ← plainRef? s
    some (.getNode ref, s)
  | none => do
    let s ← Token.keyword? "NEIGHBORS" s
    let (ref, s) ← plainRef? s
    let (kind, s) ← kindFilter? s
    let (direction, s) ← directionClause? s
    some (.getNeighbors ref kind direction, s)

def update? (s : List Char) : Option (Draft × List Char) :=
  match Token.keyword? "NODE" s with
  | some s => do
    let (ref, s) ← plainRef? s
    let (properties, s) ← block? s
    some (.updateNode ref properties, s)
  | none => do
    let s ← Token.keyword? "RELATIONSHIP" s
    let (kind, s) ← Token.word? s
    let ((source, target), s) ← ends? s
    let (properties, s) ← block? s
    some (.updateRelationship kind source target properties, s)

def delete? (s : List Char) : Option (Draft × List Char) :=
  match Token.keyword? "NODE" s with
  | some s => do
    let (ref, s) ← plainRef? s
    some (.deleteNode ref, s)
  | none => do
    let s ← Token.keyword? "RELATIONSHIP" s
    let (digits, s) ← Token.digits? s
    some (.deleteRelationship digits, s)

/-- At least one step has to follow the start. -/
def traverse? (s : List Char) : Option (Draft × List Char) := do
  let (start, s) ← ref? s
  let (first, s) ← step? s
  let (rest, s) ← steps? (s.length + 1) s
  let (condition, s) ← clause? s
  some (.traverse start (first :: rest) condition, s)

def match? (s : List Char) : Option (Draft × List Char) := do
  let (start, s) ← nodeSlot? s
  let (segments, s) ← segments? (s.length + 1) s
  let (condition, s) ← clause? s
  some (.findMatches ⟨start, segments⟩ condition, s)

def export? (s : List Char) : Option (Draft × List Char) := do
  let s ← Token.keyword? "TO" s
  let s ← Token.keyword? "JSON" s
  let (path, s) ← Token.path? s
  some (.exportTo path, s)

def import? (s : List Char) : Option (Draft × List Char) := do
  let s ← Token.keyword? "FROM" s
  let s ← Token.keyword? "JSON" s
  let (path, s) ← Token.path? s
  some (.importFrom path, s)

/-- The statements by their first keyword. -/
def openings : List (String × (List Char → Option (Draft × List Char))) :=
  [("CREATE", create?), ("GET", get?), ("UPDATE", update?), ("DELETE", delete?),
    ("TRAVERSE", traverse?), ("MATCH", match?), ("EXPORT", export?), ("IMPORT", import?)]

def statement? (s : List Char) : Option (Draft × List Char) :=
  openings.findSome? fun (w, read) => (Token.keyword? w s).bind read

/-- What follows a semicolon, or the text itself if there is none. -/
def afterSemicolon (s : List Char) : List Char := (Token.symbol? ";" s).getD s

/-- A text that is one command and nothing else. -/
def readChars (s : List Char) : Option Draft := do
  let (d, rest) ← statement? s
  if (Blank.skip (afterSemicolon rest)).isEmpty then some d else none

end PropertyGraph.Draft

namespace PropertyGraph

/-- The command that a text says. -/
def Command.read (text : String) : Except CommandError Command :=
  match Draft.readChars (Blank.trimChars text.toList) with
  | none => .error .unreadable
  | some d => d.settle.mapError .fault

end PropertyGraph
