import PropertyGraph.Entity

/-! Why an operation on the store fails. -/

namespace PropertyGraph

inductive StoreError where
  | nodeNotFound (key : NodeKey)
  | relationshipNotFound (id : Nat)
  | notRelated (kind : String) (source target : NodeKey)
  | duplicateNode (key : NodeKey)
  | duplicateRelationship (id : Nat)
  | invalidProperty (name : String) (why : Objection)
deriving DecidableEq

namespace StoreError

def message : StoreError → String
  | .nodeNotFound key => "Node " ++ key.display ++ " not found"
  | .relationshipNotFound id => s!"Relationship {id} not found"
  | .notRelated kind source target =>
    "No " ++ kind ++ " relationship from " ++ source.display ++ " to " ++ target.display
  | .duplicateNode key => "Node " ++ key.display ++ " already exists"
  | .duplicateRelationship id => s!"Relationship {id} already exists"
  | .invalidProperty name why => "Invalid property '" ++ name ++ "': " ++ why.message

/-- Whether something that was named is absent. -/
def isNotFound : StoreError → Bool
  | .nodeNotFound _ | .relationshipNotFound _ | .notRelated .. => true
  | _ => false

end StoreError

/-! ### Admission of bags -/

/-- The first property that cannot be stored. -/
def firstObjection? : List (String × Value) → Option (String × Objection)
  | [] => none
  | (name, v) :: rest =>
    if name = "" then some (name, .emptyName)
    else match v.objection? with
      | some why => some (name, why)
      | none => firstObjection? rest

/-- Relationships take any names but the empty one. -/
def checkProperties (b : Bag) : Except StoreError Unit :=
  match firstObjection? b.entries with
  | some (name, why) => .error (.invalidProperty name why)
  | none => .ok ()

/-- Nodes take no property `id` besides. -/
def checkNodeProperties (b : Bag) : Except StoreError Unit :=
  if b.contains "id" then .error (.invalidProperty "id" .partOfIdentity)
  else checkProperties b

def checkId (id : Nat) : Except StoreError Unit :=
  if greatestId < id then .error (.invalidProperty "id" (.idTooLarge id)) else .ok ()

end PropertyGraph
