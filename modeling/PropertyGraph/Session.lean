import PropertyGraph.Command.Statement
import PropertyGraph.Job
import PropertyGraph.Output
import PropertyGraph.Pattern.Search
import PropertyGraph.Settings

/-! Sessions: a store, and the settings that commands run under. A command that fails
leaves the session as it was. Importing replaces the store by that of a document, once
the whole document is accepted. -/

namespace PropertyGraph

/-! ### Commands on a store -/

/-- Takes the id of a new node out of its bag. -/
def takeId (properties : Bag) : Except StoreError (Option Nat × Bag) :=
  match properties.get? "id" with
  | none => .ok (none, properties)
  | some (.integer n) =>
    if 0 ≤ n.toInt then .ok (some n.toInt.toNat, properties.erase "id")
    else .error (.invalidProperty "id" (.notAnId (.integer n)))
  | some v => .error (.invalidProperty "id" (.notAnId v))

namespace Store

def answerGetNode (s : Store) (key : NodeKey) : Except StoreError Output := do
  let n ← s.getNode key
  .ok (.node n.record)

def answerGetNeighbors (s : Store) (key : NodeKey) (kind : Option String)
    (direction : Direction) : Except StoreError Output := do
  let found ← s.neighbors key kind direction
  .ok (.neighbors (found.map fun (n, r) => ⟨n.record, r.record⟩))

def firstRelationship (s : Store) (kind : String) (source target : NodeKey) :
    Except StoreError Nat :=
  match s.findRelationship? kind source target with
  | some id => .ok id
  | none => .error (.notRelated kind source target)

end Store

namespace Change

def answerCreateNode (label : String) (properties : Bag) : Change Output := do
  let (id, properties) ← require (takeId properties)
  let key ← createNode label id properties
  return .nodeCreated key

def answerCreateRelationship (kind : String) (source target : NodeKey) (properties : Bag) :
    Change Output := do
  let id ← createRelationship kind source target properties
  return .relationshipCreated id

def answerUpdateNode (key : NodeKey) (properties : Bag) : Change Output := do
  updateNode key properties
  return .nodeUpdated key

/-- Deleting a node tells how many relationships went with it. -/
def answerDeleteNode (key : NodeKey) : Change Output := do
  let before := (← get).relationshipCount
  let _ ← deleteNode key
  return .nodeDeleted key (before - (← get).relationshipCount)

/-- Both ends are looked up before the first relationship between them is. -/
def answerUpdateRelationship (kind : String) (source target : NodeKey) (properties : Bag) :
    Change Output := do
  let _ ← ask (·.getNode source)
  let _ ← ask (·.getNode target)
  let id ← ask (·.firstRelationship kind source target)
  updateRelationship id properties
  return .relationshipUpdated id

def answerDeleteRelationship (id : Nat) : Change Output := do
  let _ ← deleteRelationship id
  return .relationshipDeleted id

end Change

/-! ### Commands in a session -/

structure Session where
  settings : Settings
  store : Store
deriving DecidableEq

/-- What came of a command, and the session after it. -/
structure Outcome where
  result : Except QueryError Output
  session : Session

namespace Session

/-- The outcome of a change: the session goes on with the store that the change leaves,
also when it fails. -/
def changing (s : Session) (c : Change Output) : Outcome :=
  match c.run s.store with
  | .ok output store => ⟨.ok output, { s with store }⟩
  | .error e store => ⟨.error (.execution (.store e)), { s with store }⟩

/-- The outcome of a command that puts another store in place; a failure yields none. -/
def replacing (s : Session) : Except QueryError (Output × Store) → Outcome
  | .ok (output, store) => ⟨.ok output, { s with store }⟩
  | .error e => ⟨.error e, s⟩

def reading (s : Session) (r : Except ExecutionError Output) : Outcome :=
  ⟨r.mapError .execution, s⟩

def layout (s : Session) : Json.Layout := if s.settings.prettyJson then .pretty else .compact

/-- Replaces a file by the document of the store. -/
def exportTo (s : Session) (path : String) : Job Outcome := do
  if ← Job.replace path (s.store.toText s.layout ++ "\n") then
    return ⟨.ok (.exported path s.store.nodeCount s.store.relationshipCount), s⟩
  else return ⟨.error (.document .unavailable), s⟩

/-- The store of the document in a file. -/
def storeOf : FileContent → Except DocumentError Store
  | .absent => .error .unavailable
  | .unreadable => .error .malformed
  | .text content => Store.ofText content

def importFrom (s : Session) (path : String) : Job Outcome := do
  let content ← Job.fileContent path
  let imported := (storeOf content).map fun store =>
    (Output.imported path store.nodeCount store.relationshipCount, store)
  return s.replacing (imported.mapError .document)

def run (s : Session) : Command → Job Outcome
  | .createNode label properties => return s.changing (.answerCreateNode label properties)
  | .createRelationship kind source target properties =>
    return s.changing (.answerCreateRelationship kind source target properties)
  | .getNode key => return s.reading ((s.store.answerGetNode key).mapError .store)
  | .getNeighbors key kind direction =>
    return s.reading ((s.store.answerGetNeighbors key kind direction).mapError .store)
  | .updateNode key properties => return s.changing (.answerUpdateNode key properties)
  | .deleteNode key => return s.changing (.answerDeleteNode key)
  | .updateRelationship kind source target properties =>
    return s.changing (.answerUpdateRelationship kind source target properties)
  | .deleteRelationship id => return s.changing (.answerDeleteRelationship id)
  | .traverse start steps condition =>
    return s.reading ((s.store.traverse start steps condition s.settings.maxHops).map fun found =>
      .paths (found.map (·.record)))
  | .findMatches template condition =>
    return s.reading ((s.store.findMatches template condition).map fun found =>
      .paths (found.map (·.record)))
  | .exportTo path => s.exportTo path
  | .importFrom path => s.importFrom path

/-- Runs the command that a text says. -/
def execute (s : Session) (text : String) : Job Outcome :=
  match Command.read text with
  | .error e => return ⟨.error (.command e), s⟩
  | .ok command => s.run command

end Session

end PropertyGraph
