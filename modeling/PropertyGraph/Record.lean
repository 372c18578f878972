import PropertyGraph.Entity.Json
import PropertyGraph.Pattern

/-! Result records. The record of a node or relationship starts with what identifies
it; a property whose name is already taken is left out. -/

namespace PropertyGraph

/-- Members that come after `head`, without the names that `head` takes. -/
def withProperties (head : List (String × Json)) (b : Bag) : Json :=
  .object (head ++ (Bag.members b).filter fun (name, _) => !(head.map Prod.fst).contains name)

def Node.record (n : Node) : Json :=
  withProperties [("id", .ofNat n.key.id), ("type", .string n.label)] n.properties

def Relationship.record (r : Relationship) : Json :=
  withProperties
    [("type", .string r.kind), ("from", .ofNat r.source.id), ("to", .ofNat r.target.id)]
    r.properties

def Entity.record : Entity → Json
  | .node n => n.record
  | .relationship r => r.record

def Entity.toJson : Entity → Json
  | .node n => n.toJson
  | .relationship r => r.toJson

/-! ### Paths, matches and neighbours -/

/-- What is reported of a path, and of the variables bound to it if it is a match. -/
structure PathRecord where
  path : List String
  nodes : List Json
  relationships : List Json
  bindings : Option (List (String × String))

namespace PathRecord

def toJson (r : PathRecord) : Json :=
  .object ([("path", .array (r.path.map .string)), ("nodes", .array r.nodes),
      ("relationships", .array r.relationships)] ++
    match r.bindings with
    | some bindings => [("bindings", .object (bindings.map fun (x, e) => (x, .string e)))]
    | none => [])

end PathRecord

def Path.record (p : Path) : PathRecord where
  path := p.describe
  nodes := p.nodes.map (·.record)
  relationships := p.relationships.map (·.record)
  bindings := none

def Match.record (m : Match) : PathRecord :=
  { m.path.record with
    bindings := some (m.bindings.entries.map fun (x, e) => (x, e.display)) }

structure NeighborRecord where
  node : Json
  relationship : Json

def NeighborRecord.toJson (r : NeighborRecord) : Json :=
  .object [("node", r.node), ("relationship", r.relationship)]

end PropertyGraph
