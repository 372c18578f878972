import PropertyGraph.Entity.Json
import PropertyGraph.Json.Layout
import PropertyGraph.Store.Change

/-! Graph documents: a whole store as one JSON value. The nodes come first, then the
relationships, each in insertion order. A document is accepted in one piece or not at
all, and the first entry that is wrong names the reason. -/

namespace PropertyGraph

structure NodeEntry where
  label : String
  id : Nat
  properties : OrderedMap String Json

structure RelationshipEntry where
  kind : String
  id : Nat
  source : NodeKey
  target : NodeKey
  properties : OrderedMap String Json

structure Document where
  nodes : List NodeEntry
  relationships : List RelationshipEntry

/-- Why a document is not taken over. -/
inductive DocumentError where
  | unavailable
  | malformed
  | rejected (cause : StoreError)
deriving DecidableEq

/-- The file system's and the text's own faults are not told any further. -/
def DocumentError.message : DocumentError → String
  | .unavailable => "I/O error:"
  | .malformed => "JSON error:"
  | .rejected cause => "Invalid graph document: " ++ cause.message

/-- A bag with every value in JSON. -/
def Bag.toJsonMap (b : Bag) : OrderedMap String Json where
  entries := b.entries.map fun (k, v) => (k, v.toJson)
  nodup := by simpa [List.map_map, Function.comp_def] using b.nodup

/-- A bag from JSON values; the first one that is no value is the reason. -/
def Bag.ofEntries : List (String × Json) → Except StoreError (List (String × Value))
  | [] => .ok []
  | (name, x) :: rest =>
    match Value.ofJson x with
    | .error why => .error (.invalidProperty name why)
    | .ok v => do
      let rest ← Bag.ofEntries rest
      .ok ((name, v) :: rest)

def Bag.ofJsonMap (m : OrderedMap String Json) : Except StoreError Bag := do
  let entries ← Bag.ofEntries m.entries
  .ok (.ofList entries)

namespace NodeEntry

def ofNode (n : Node) : NodeEntry := ⟨n.label, n.key.id, Bag.toJsonMap n.properties⟩

def node (e : NodeEntry) : Except StoreError Node := do
  let properties ← Bag.ofJsonMap e.properties
  .ok ⟨⟨e.label, e.id⟩, properties⟩

def toJson (e : NodeEntry) : Json :=
  .object [("type", .string e.label), ("id", .ofNat e.id),
    ("properties", .object e.properties.entries)]

def ofSource? (room : Nat) (s : Json.Source) : Option NodeEntry := do
  let fields ← s.fields? ["type", "id", "properties"] room
  let label ← fields.required "type" Json.Source.text?
  let id ← fields.required "id" Json.Source.word64?
  let properties ← fields.optional "properties" ∅ (fun room s => s.mapOf? Json.Source.json? room)
  some ⟨label, id, properties⟩

end NodeEntry

namespace RelationshipEntry

def ofRelationship (r : Relationship) : RelationshipEntry :=
  ⟨r.kind, r.id, r.source, r.target, Bag.toJsonMap r.properties⟩

def relationship (e : RelationshipEntry) : Except StoreError Relationship := do
  let properties ← Bag.ofJsonMap e.properties
  .ok ⟨e.id, e.kind, e.source, e.target, properties⟩

def toJson (e : RelationshipEntry) : Json :=
  .object [("type", .string e.kind), ("id", .ofNat e.id), ("from", e.source.toJson),
    ("to", e.target.toJson), ("properties", .object e.properties.entries)]

def ofSource? (room : Nat) (s : Json.Source) : Option RelationshipEntry := do
  let fields ← s.fields? ["type", "id", "from", "to", "properties"] room
  let kind ← fields.required "type" Json.Source.text?
  let id ← fields.required "id" Json.Source.word64?
  let source ← fields.required "from" NodeKey.ofSource?
  let target ← fields.required "to" NodeKey.ofSource?
  let properties ← fields.optional "properties" ∅ (fun room s => s.mapOf? Json.Source.json? room)
  some ⟨kind, id, source, target, properties⟩

end RelationshipEntry

namespace Document

def ofStore (s : Store) : Document :=
  ⟨s.nodeList.map .ofNode, s.relationshipList.map .ofRelationship⟩

/-- Adds the node of an entry to a store. -/
def addNode (s : Store) (e : NodeEntry) : Except StoreError Store := do
  let n ← e.node
  s.recoverNode n

def addRelationship (s : Store) (e : RelationshipEntry) : Except StoreError Store := do
  let r ← e.relationship
  s.recoverRelationship r

/-- The store that a document describes. -/
def toStore (d : Document) : Except StoreError Store := do
  let s ← d.nodes.foldlM addNode .empty
  d.relationships.foldlM addRelationship s

/-! ### Text -/

def toJson (d : Document) : Json :=
  .object [("nodes", .array (d.nodes.map (·.toJson))),
    ("relationships", .array (d.relationships.map (·.toJson)))]

def ofSource? (room : Nat) (s : Json.Source) : Option Document := do
  let fields ← s.fields? ["nodes", "relationships"] room
  let nodes ← fields.optional "nodes" [] (fun room s => s.listOf? NodeEntry.ofSource? room)
  let relationships ← fields.optional "relationships" []
    (fun room s => s.listOf? RelationshipEntry.ofSource? room)
  some ⟨nodes, relationships⟩

/-- The document of a JSON text. -/
def read (text : String) : Option Document := do
  let s ← Json.Source.read text
  ofSource? Json.Source.nestingLimit s

end Document

namespace Store

/-- The text of a store's document. -/
def toText (s : Store) (layout : Json.Layout) : String :=
  (Document.ofStore s).toJson.write layout

/-- The store of a document's text. -/
def ofText (text : String) : Except DocumentError Store :=
  match Document.read text with
  | none => .error .malformed
  | some d => d.toStore.mapError .rejected

end Store

end PropertyGraph
