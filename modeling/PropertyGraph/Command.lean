import PropertyGraph.Pattern
import PropertyGraph.Traversal

/-! The twelve commands. -/

namespace PropertyGraph

inductive Command where
  | createNode (label : String) (properties : Bag)
  | createRelationship (kind : String) (source target : NodeKey) (properties : Bag)
  | getNode (key : NodeKey)
  | getNeighbors (key : NodeKey) (kind : Option String) (direction : Direction)
  | updateNode (key : NodeKey) (properties : Bag)
  | deleteNode (key : NodeKey)
  | updateRelationship (kind : String) (source target : NodeKey) (properties : Bag)
  | deleteRelationship (id : Nat)
  | traverse (start : NodeKey) (steps : List Step) (condition : Condition)
  | findMatches (template : Template) (condition : Condition)
  | exportTo (path : String)
  | importFrom (path : String)
deriving DecidableEq

namespace Command

/-- The keywords of a command. -/
def name : Command → String
  | .createNode .. => "CREATE NODE"
  | .createRelationship .. => "CREATE RELATIONSHIP"
  | .getNode .. => "GET NODE"
  | .getNeighbors .. => "GET NEIGHBORS"
  | .updateNode .. => "UPDATE NODE"
  | .deleteNode .. => "DELETE NODE"
  | .updateRelationship .. => "UPDATE RELATIONSHIP"
  | .deleteRelationship .. => "DELETE RELATIONSHIP"
  | .traverse .. => "TRAVERSE"
  | .findMatches .. => "MATCH"
  | .exportTo .. => "EXPORT"
  | .importFrom .. => "IMPORT"

/-- Whether the store stays as it is. -/
def isReadOnly : Command → Bool
  | .getNode .. | .getNeighbors .. | .traverse .. | .findMatches .. | .exportTo .. => true
  | _ => false

end Command

end PropertyGraph
