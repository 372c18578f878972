import PropertyGraph.Store

/-! Changes of a store. A change runs on the store that it finds and ends with an answer
or with the reason why it fails; either way it leaves a store, so that what a failed
change has done is there to be seen. The public operations are changes: they check
first and write afterwards. -/

namespace PropertyGraph

abbrev Change := EStateM StoreError Store

namespace Change

variable {α : Type}

/-- Reads or checks the store; if that fails, so does the change. -/
def ask (x : Store → Except StoreError α) : Change α := fun s =>
  match x s with
  | .ok a => .ok a s
  | .error e => .error e s

def require (x : Except StoreError α) : Change α := ask fun _ => x

/-- The answer and the store of a change that goes through. -/
def apply (c : Change α) (s : Store) : Except StoreError (α × Store) :=
  match c.run s with
  | .ok a after => .ok (a, after)
  | .error e _ => .error e

/-- The store that a change leaves, whether it goes through or not. -/
def after (c : Change α) (s : Store) : Store :=
  match c.run s with
  | .ok _ after => after
  | .error _ after => after

/-! ### Creation -/

/-- Creates a node. Without an id it gets the next one of its label. -/
def createNode (label : String) (id : Option Nat) (properties : Bag) : Change NodeKey := do
  require (checkNodeProperties properties)
  let key : NodeKey := ⟨label, id.getD ((← get).nextNodeId label)⟩
  require (checkId key.id)
  ask (·.checkNewNode key)
  modify (·.insertNode ⟨key, properties⟩)
  return key

/-- Creates a relationship between two nodes; ids are never used again. -/
def createRelationship (kind : String) (source target : NodeKey) (properties : Bag) :
    Change Nat := do
  let a ← ask (·.nodeSlot source)
  let b ← ask (·.nodeSlot target)
  require (checkProperties properties)
  let id := (← get).nextRelationshipId
  require (checkId id)
  modify fun s => { s with nextRelationshipId := id + 1 }
  modify (·.insertRelationship ⟨id, kind, source, target, properties⟩ a b)
  return id

/-- Inserts a node that has its identity already. -/
def recoverNode (n : Node) : Change Unit := do
  ask (·.checkNewNode n.key)
  require (checkId n.key.id)
  require (checkNodeProperties n.properties)
  modify (·.insertNode n)

/-- Inserts a relationship that has its id already. Later ids come after it. -/
def recoverRelationship (r : Relationship) : Change Unit := do
  ask (·.checkNewRelationship r.id)
  require (checkId r.id)
  let a ← ask (·.nodeSlot r.source)
  let b ← ask (·.nodeSlot r.target)
  require (checkProperties r.properties)
  modify fun s => { s with nextRelationshipId := max s.nextRelationshipId (r.id + 1) }
  modify (·.insertRelationship r a b)

/-! ### Update -/

/-- Merges a patch into the bag of a node. -/
def updateNode (key : NodeKey) (patch : Bag) : Change Unit := do
  let slot ← ask (·.nodeSlot key)
  require (checkNodeProperties patch)
  let n ← ask (·.nodeIn slot key)
  modify fun s => { s with nodes := s.nodes.setIfInBounds slot (some (n.merge patch)) }

/-- Merges a patch into the bag of a relationship. -/
def updateRelationship (id : Nat) (patch : Bag) : Change Unit := do
  let slot ← ask (·.relationshipSlot id)
  require (checkProperties patch)
  let r ← ask (·.relationshipIn slot id)
  modify fun s =>
    { s with relationships := s.relationships.setIfInBounds slot (some (r.merge patch)) }

/-! ### Deletion -/

/-- Deletes a node together with every relationship that starts or ends at it. -/
def deleteNode (key : NodeKey) : Change Node := do
  let slot ← ask (·.nodeSlot key)
  let n ← ask (·.nodeIn slot key)
  modify (·.removeNode key slot n)
  return n

/-- Deletes a relationship; its ends stay. -/
def deleteRelationship (id : Nat) : Change Relationship := do
  let slot ← ask (·.relationshipSlot id)
  let r ← ask (·.relationshipIn slot id)
  modify (·.detach slot)
  return r

/-- Forgets everything, known tags and counters too. -/
def clear : Change Unit := set Store.empty

end Change

/-! ### Operations as functions between stores -/

namespace Store

def createNode (s : Store) (label : String) (id : Option Nat) (properties : Bag) :
    Except StoreError (NodeKey × Store) :=
  (Change.createNode label id properties).apply s

def createRelationship (s : Store) (kind : String) (source target : NodeKey)
    (properties : Bag) : Except StoreError (Nat × Store) :=
  (Change.createRelationship kind source target properties).apply s

def recoverNode (s : Store) (n : Node) : Except StoreError Store :=
  ((Change.recoverNode n).apply s).map Prod.snd

def recoverRelationship (s : Store) (r : Relationship) : Except StoreError Store :=
  ((Change.recoverRelationship r).apply s).map Prod.snd

def updateNode (s : Store) (key : NodeKey) (patch : Bag) : Except StoreError Store :=
  ((Change.updateNode key patch).apply s).map Prod.snd

def updateRelationship (s : Store) (id : Nat) (patch : Bag) : Except StoreError Store :=
  ((Change.updateRelationship id patch).apply s).map Prod.snd

def deleteNode (s : Store) (key : NodeKey) : Except StoreError (Node × Store) :=
  (Change.deleteNode key).apply s

def deleteRelationship (s : Store) (id : Nat) : Except StoreError (Relationship × Store) :=
  (Change.deleteRelationship id).apply s

end Store

end PropertyGraph
