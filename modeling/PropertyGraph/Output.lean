import PropertyGraph.Command.Draft
import PropertyGraph.Document
import PropertyGraph.Execution
import PropertyGraph.Record

/-! What commands answer: their outputs, as records and as one line each, and the reasons
why they fail. -/

namespace PropertyGraph

inductive Output where
  | nodeCreated (key : NodeKey)
  | relationshipCreated (id : Nat)
  | node (record : Json)
  | neighbors (records : List NeighborRecord)
  | nodeUpdated (key : NodeKey)
  | nodeDeleted (key : NodeKey) (relationships : Nat)
  | relationshipUpdated (id : Nat)
  | relationshipDeleted (id : Nat)
  | paths (records : List PathRecord)
  | exported (path : String) (nodes relationships : Nat)
  | imported (path : String) (nodes relationships : Nat)

namespace Output

/-- The record of what a command did, under the name of the deed. -/
def deed (name : String) (members : Json) : List Json := [.object [(name, members)]]

def idMember (id : Nat) : Json := .object [("id", .ofNat id)]

/-- The record of a document that was written or read. -/
def transfer (path : String) (nodes relationships : Nat) : Json :=
  .object [("path", .string path), ("nodes", .ofNat nodes),
    ("relationships", .ofNat relationships)]

/-- One record for every result, or a single one that says what was done. -/
def records : Output → List Json
  | .nodeCreated key => deed "node_created" key.toJson
  | .relationshipCreated id => deed "relationship_created" (idMember id)
  | .node record => [record]
  | .neighbors records => records.map (·.toJson)
  | .nodeUpdated key => deed "node_updated" key.toJson
  | .nodeDeleted key relationships =>
    deed "node_deleted"
      (.object [("node", key.toJson), ("relationships_removed", .ofNat relationships)])
  | .relationshipUpdated id => deed "relationship_updated" (idMember id)
  | .relationshipDeleted id => deed "relationship_deleted" (idMember id)
  | .paths records => records.map (·.toJson)
  | .exported path nodes relationships => deed "exported" (transfer path nodes relationships)
  | .imported path nodes relationships => deed "imported" (transfer path nodes relationships)

/-- The output in one line. -/
def summary : Output → String
  | .nodeCreated key => "Created node " ++ key.display
  | .relationshipCreated id => s!"Created relationship {id}"
  | .node _ => "1 node"
  | .neighbors records => s!"{records.length} neighbor(s)"
  | .nodeUpdated key => "Updated node " ++ key.display
  | .nodeDeleted key relationships =>
    s!"Deleted node {key.display} and {relationships} relationship(s)"
  | .relationshipUpdated id => s!"Updated relationship {id}"
  | .relationshipDeleted id => s!"Deleted relationship {id}"
  | .paths records => s!"{records.length} result(s)"
  | .exported path nodes relationships =>
    s!"Exported {nodes} node(s) and {relationships} relationship(s) to {path}"
  | .imported path nodes relationships =>
    s!"Imported {nodes} node(s) and {relationships} relationship(s) from {path}"

end Output

/-! ### Failures -/

inductive QueryError where
  | command (cause : CommandError)
  | execution (cause : ExecutionError)
  | document (cause : DocumentError)
deriving DecidableEq

namespace QueryError

def message : QueryError → String
  | .command cause => cause.message
  | .execution cause => cause.message
  | .document cause => cause.message

/-- The fault of the store that is behind a failure, if one is. -/
def storeCause? : QueryError → Option StoreError
  | .execution (.store cause) => some cause
  | .document (.rejected cause) => some cause
  | _ => none

/-- The failure and what is behind it. -/
def chain (e : QueryError) : List String := e.message :: e.storeCause?.toList.map (·.message)

end QueryError

end PropertyGraph
