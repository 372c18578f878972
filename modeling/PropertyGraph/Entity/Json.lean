import PropertyGraph.Entity
import PropertyGraph.Json.Shape
import PropertyGraph.Value.Json

/-! Identities, nodes, relationships and bags in JSON. -/

namespace PropertyGraph

namespace Bag

def members (b : Bag) : List (String × Json) := b.entries.map fun (k, v) => (k, v.toJson)

def toJson (b : Bag) : Json := .object (Bag.members b)

def ofSource? (room : Nat) (s : Json.Source) : Option Bag :=
  s.mapOf? (fun room => Value.ofSource? room) room

end Bag

namespace NodeKey

def toJson (k : NodeKey) : Json := .object [("type", .string k.label), ("id", .ofNat k.id)]

def ofSource? (room : Nat) (s : Json.Source) : Option NodeKey := do
  let fields ← s.fields? ["type", "id"] room
  let label ← fields.required "type" Json.Source.text?
  let id ← fields.required "id" Json.Source.word64?
  some ⟨label, id⟩

end NodeKey

namespace Direction

def ofName? (name : String) : Option Direction :=
  [outgoing, incoming, both].find? (·.name == name)

def toJson (d : Direction) : Json := .string d.name

/-- A direction is its name, or an object of its name and null. -/
def ofSource? (room : Nat) : Json.Source → Option Direction
  | .string text => text.bind ofName?
  | .object [(some name, .null)] => if room = 0 then none else ofName? name
  | _ => none

end Direction

namespace Node

def toJson (n : Node) : Json :=
  .object [("type", .string n.label), ("id", .ofNat n.key.id),
    ("properties", Bag.toJson n.properties)]

def ofSource? (room : Nat) (s : Json.Source) : Option Node := do
  let fields ← s.fields? ["type", "id", "properties"] room
  let label ← fields.required "type" Json.Source.text?
  let id ← fields.required "id" Json.Source.word64?
  let properties ← fields.required "properties" Bag.ofSource?
  some ⟨⟨label, id⟩, properties⟩

end Node

namespace Relationship

def toJson (r : Relationship) : Json :=
  .object [("id", .ofNat r.id), ("type", .string r.kind), ("from", r.source.toJson),
    ("to", r.target.toJson), ("properties", Bag.toJson r.properties)]

def ofSource? (room : Nat) (s : Json.Source) : Option Relationship := do
  let fields ← s.fields? ["id", "type", "from", "to", "properties"] room
  let id ← fields.required "id" Json.Source.word64?
  let kind ← fields.required "type" Json.Source.text?
  let source ← fields.required "from" NodeKey.ofSource?
  let target ← fields.required "to" NodeKey.ofSource?
  let properties ← fields.required "properties" Bag.ofSource?
  some ⟨id, kind, source, target, properties⟩

end Relationship

end PropertyGraph
