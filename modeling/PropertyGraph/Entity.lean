import PropertyGraph.Value

/-! Nodes and relationships. A node is known by its label and an id that is unique
under the label; a relationship by an id that is unique in the whole store. Both
carry a bag of properties. -/

namespace PropertyGraph

/-- Identity of a node. -/
structure NodeKey where
  label : String
  id : Nat
deriving DecidableEq, Repr, Inhabited

def NodeKey.display (k : NodeKey) : String := k.label ++ ":" ++ toString k.id

/-- Which relationships of a node are followed. -/
inductive Direction where
  | outgoing
  | incoming
  | both
deriving DecidableEq, Repr

def Direction.name : Direction → String
  | .outgoing => "OUTGOING"
  | .incoming => "INCOMING"
  | .both => "BOTH"

structure Node where
  key : NodeKey
  properties : Bag
deriving DecidableEq, Inhabited

/-- A directed relationship; `kind` is its type tag. -/
structure Relationship where
  id : Nat
  kind : String
  source : NodeKey
  target : NodeKey
  properties : Bag
deriving DecidableEq, Inhabited

namespace Node

def label (n : Node) : String := n.key.label

def merge (n : Node) (patch : Bag) : Node :=
  { n with properties := n.properties.merge patch }

end Node

namespace Relationship

def merge (r : Relationship) (patch : Bag) : Relationship :=
  { r with properties := r.properties.merge patch }

/-- The end across from a node; a node that is no end is answered with the source. -/
def otherEnd (r : Relationship) (k : NodeKey) : NodeKey :=
  if r.source = k then r.target else r.source

end Relationship

/-! ### What a variable stands for -/

inductive Entity where
  | node (n : Node)
  | relationship (r : Relationship)
deriving DecidableEq

namespace Entity

/-- An id as a value; ids beyond the integers have none. -/
def idValue? (id : Nat) : Option Value :=
  if id ≤ greatestId then some (.integer (.ofNat id)) else none

/-- The value a name denotes. On a node the bag comes before the name `id`, on a
relationship `id` is always its own. -/
def property? (e : Entity) (name : String) : Option Value :=
  match e with
  | .node n => (n.properties.get? name).or (if name = "id" then idValue? n.key.id else none)
  | .relationship r => if name = "id" then idValue? r.id else r.properties.get? name

/-- Same identity. -/
def sameAs : Entity → Entity → Bool
  | .node m, .node n => m.key == n.key
  | .relationship r, .relationship s => r.id == s.id
  | _, _ => false

def display : Entity → String
  | .node n => n.key.display
  | .relationship r => r.kind ++ "#" ++ toString r.id

end Entity

end PropertyGraph
