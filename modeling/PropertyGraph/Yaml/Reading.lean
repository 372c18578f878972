import PropertyGraph.Yaml
import PropertyGraph.Yaml.Token

/-! YAML texts as trees. A text holds at most one document. -/

namespace PropertyGraph.Yaml

/-- What is left of a document. -/
structure Remains where
  tokens : List Token
  /-- The marks that the names of anchors stand for, every name once. -/
  anchors : List (String × Nat) := []
  /-- The tag handles and the addresses that they stand for. -/
  handles : List (String × String)

namespace Remains

def drop (r : Remains) : Remains := { r with tokens := r.tokens.drop 1 }

/-- Whether the next token is one of these. -/
def startsWith (r : Remains) (ts : List Token) : Bool := r.tokens.head?.any ts.contains

/-- Past a token that has to come next. -/
def expect? (r : Remains) (t : Token) : Option Remains :=
  if r.startsWith [t] then some r.drop else none

/-- The mark of a new anchor: the number of names so far. Once a name is used again, a mark
can be given twice; it stands for the tree that begins last. -/
def nextMark (r : Remains) : Nat := r.anchors.length

/-- Gives a name its mark, in place of the one that it may have. -/
def name (r : Remains) (name : String) : Remains :=
  { r with anchors := (name, r.nextMark) :: r.anchors.filter (·.1 != name) }

def anchor (r : Remains) : Option String × Remains :=
  match r.tokens with
  | .anchor name :: _ => (some name, r.drop)
  | _ => (none, r)

/-- Past a tag, whose handle has to be declared; gives its address. -/
def tag? (r : Remains) : Option (Option String × Remains) :=
  match r.tokens with
  | .tag t :: _ => (t.address? r.handles).map fun address => (some address, r.drop)
  | _ => some (none, r)

/-- The anchor and the tag, in either order. -/
def properties? (r : Remains) : Option (Option String × Option String × Remains) := do
  match r.anchor with
  | (some name, r) => do
    let (tag, r) ← r.tag?
    some (some name, tag, r)
  | (none, r) => do
    let (tag, r) ← r.tag?
    if tag.isSome then
      let (name, r) := r.anchor
      some (name, tag, r)
    else some (none, none, r)

end Remains

/-! ### Trees -/

mutual

/-- The tree that comes next. A block collection may stand only where `block` is set, and
a sequence without indentation of its own only where `compact` is. -/
def node? (block compact : Bool) : Nat → Remains → Option (Yaml × Remains)
  | 0, _ => none
  | fuel + 1, r =>
    match r.tokens with
    | .alias name :: _ => do
      let mark ← r.anchors.lookup name
      some (.alias mark, r.drop)
    | _ => do
      match ← r.properties? with
      | (none, tag, r) => content? block compact fuel tag tag.isSome r
      | (some name, tag, r) =>
        let (x, after) ← content? block compact fuel tag true (r.name name)
        some (.marked r.nextMark x, after)

/-- A tree behind its anchor and tag. With one of them nothing need follow. -/
def content? (block compact : Bool) :
    Nat → (tag : Option String) → (empty : Bool) → Remains → Option (Yaml × Remains)
  | 0, _, _, _ => none
  | fuel + 1, tag, empty, r =>
    let nothing := if empty then some (Yaml.absent tag, r) else none
    let sequence (x : List Yaml × Remains) : Yaml × Remains := (.sequence x.1, x.2)
    let mapping (x : List (Yaml × Yaml) × Remains) : Yaml × Remains := (.mapping x.1, x.2)
    match r.tokens with
    | .scalar text style :: _ => some (.scalar text style tag, r.drop)
    | .flowSequence :: _ => (flowItems? fuel r.drop).map sequence
    | .flowMapping :: _ => (flowEntries? fuel r.drop).map mapping
    | .entry :: _ =>
      if compact then (compactItems? fuel r).map sequence else nothing
    | .blockSequence :: _ =>
      if block then (blockItems? fuel r.drop).map sequence else nothing
    | .blockMapping :: _ =>
      if block then (blockEntries? fuel r.drop).map mapping else nothing
    | _ => nothing

/-- A tree, or nothing where one of these tokens comes next. -/
def nodeUnless? (block compact : Bool) :
    Nat → (ends : List Token) → Remains → Option (Yaml × Remains)
  | 0, _, _ => none
  | fuel + 1, ends, r =>
    if r.startsWith ends then some (.absent none, r) else node? block compact fuel r

/-- What follows a colon, or nothing if none comes next. -/
def valueUnless? (block : Bool) :
    Nat → (ends : List Token) → Remains → Option (Yaml × Remains)
  | 0, _, _ => none
  | fuel + 1, ends, r =>
    if r.startsWith [.value] then nodeUnless? block block fuel ends r.drop
    else some (.absent none, r)

def compactItems? : Nat → Remains → Option (List Yaml × Remains)
  | 0, _ => none
  | fuel + 1, r =>
    if r.startsWith [.entry] then do
      let (x, r) ← nodeUnless? true false fuel [.entry, .key, .value, .blockEnd] r.drop
      let (xs, r) ← compactItems? fuel r
      some (x :: xs, r)
    else some ([], r)

def blockItems? : Nat → Remains → Option (List Yaml × Remains)
  | 0, _ => none
  | fuel + 1, r =>
    if r.startsWith [.entry] then do
      let (x, r) ← nodeUnless? true false fuel [.entry, .blockEnd] r.drop
      let (xs, r) ← blockItems? fuel r
      some (x :: xs, r)
    else (r.expect? .blockEnd).map ([], ·)

def blockEntries? : Nat → Remains → Option (List (Yaml × Yaml) × Remains)
  | 0, _ => none
  | fuel + 1, r =>
    if r.startsWith [.key] then do
      let ends := [.key, .value, .blockEnd]
      let (key, r) ← nodeUnless? true true fuel ends r.drop
      let (value, r) ← valueUnless? true fuel ends r
      let (entries, r) ← blockEntries? fuel r
      some ((key, value) :: entries, r)
    else (r.expect? .blockEnd).map ([], ·)

/-- Items up to the closing bracket; a pair among them is a mapping of its own. What comes
in place of the key that a question mark announces is passed over. -/
def flowItems? : Nat → Remains → Option (List Yaml × Remains)
  | 0, _ => none
  | fuel + 1, r =>
    if r.startsWith [.flowSequenceEnd] then some ([], r.drop)
    else do
      let ends := [.comma, .flowSequenceEnd]
      let (x, r) ←
        if r.startsWith [.key] then do
          let (key, r) ←
            if r.drop.startsWith (.value :: ends) then some (Yaml.absent none, r.drop.drop)
            else node? false false fuel r.drop
          let (value, r) ← valueUnless? false fuel ends r
          some (Yaml.mapping [(key, value)], r)
        else node? false false fuel r
      if r.startsWith [.comma] then do
        let (xs, r) ← flowItems? fuel r.drop
        some (x :: xs, r)
      else (r.expect? .flowSequenceEnd).map ([x], ·)

/-- Entries up to the closing brace; a key may stand without a value. -/
def flowEntries? : Nat → Remains → Option (List (Yaml × Yaml) × Remains)
  | 0, _ => none
  | fuel + 1, r =>
    if r.startsWith [.flowMappingEnd] then some ([], r.drop)
    else do
      let ends := [.comma, .flowMappingEnd]
      let (entry, r) ←
        if r.startsWith [.key] then do
          let (key, r) ← nodeUnless? false false fuel (.value :: ends) r.drop
          let (value, r) ← valueUnless? false fuel ends r
          some ((key, value), r)
        else (node? false false fuel r).map fun x => ((x.1, .absent none), x.2)
      if r.startsWith [.comma] then do
        let (entries, r) ← flowEntries? fuel r.drop
        some (entry :: entries, r)
      else (r.expect? .flowMappingEnd).map ([entry], ·)

end

/-! ### Documents -/

/-- Reads the directives of a document: one version at most, which has to be known, and
every handle once. -/
def directives? : (versioned : Bool) → (declared : List (String × String)) → List Token →
    Option (List (String × String) × List Token)
  | versioned, declared, .version major minor :: ts =>
    if versioned || major != 1 || !(minor == 1 || minor == 2) then none
    else directives? true declared ts
  | versioned, declared, .handle name address :: ts =>
    if declared.any (·.1 == name) then none
    else directives? versioned ((name, address) :: declared) ts
  | _, declared, .documentStart :: ts => some (declared, ts)
  | _, _, _ => none

/-- The content of a document behind its start. -/
def body? (ts : List Token) (handles : List (String × String)) : Option (Yaml × Remains) :=
  let r : Remains := { tokens := ts, handles }
  if ts.isEmpty then some (.absent none, r)
  else nodeUnless? true false (4 * ts.length + 4) [.documentEnd] r

/-- The document of a text; none when there are several or it is not well formed. A text
or document without content holds nothing but an absent value. -/
def document? : List Token → Option Yaml
  | [] => some (.absent none)
  | .documentEnd :: _ => none
  | t :: ts => do
    let (handles, body) ←
      match t with
      | .version .. | .handle .. | .documentStart =>
        (directives? false [] (t :: ts)).map fun d => (d.1 ++ standardHandles, d.2)
      | _ => some (standardHandles, t :: ts)
    let (x, r) ← body? body handles
    if r.tokens.all (· == .documentEnd) then some x else none

def read (text : String) : Option Yaml := (Token.ofText? text.toList).bind document?

end PropertyGraph.Yaml
