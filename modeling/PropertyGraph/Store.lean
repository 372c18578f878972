import PropertyGraph.Merging
import PropertyGraph.Store.Error

/-! The store. Nodes and relationships live in two arenas and are addressed by slot;
slots are handed out in order and never used again, so slot order is insertion order
everywhere. A deleted entity leaves its slot empty. Identities, adjacency and tags
are indexed by slot. A tag stays known when its last entity is deleted. The functions
here check nothing; the operations that do are changes of the store. -/

namespace PropertyGraph

structure Store where
  nodes : Array (Option Node)
  relationships : Array (Option Relationship)
  nodeSlots : OrderedMap NodeKey Nat
  relationshipSlots : OrderedMap Nat Nat
  /-- By node slot, the slots of the relationships that leave the node. -/
  outgoing : Array (List Nat)
  /-- By node slot, the slots of the relationships that arrive at the node. -/
  incoming : Array (List Nat)
  labels : OrderedMap String (List Nat)
  kinds : OrderedMap String (List Nat)
  nextNodeIds : OrderedMap String Nat
  nextRelationshipId : Nat
deriving DecidableEq

namespace Store

def empty : Store where
  nodes := #[]
  relationships := #[]
  nodeSlots := ∅
  relationshipSlots := ∅
  outgoing := #[]
  incoming := #[]
  labels := ∅
  kinds := ∅
  nextNodeIds := ∅
  nextRelationshipId := 1

instance : Inhabited Store := ⟨empty⟩

/-! ### Reading -/

def nodeAt? (s : Store) (slot : Nat) : Option Node := s.nodes[slot]?.join

def relationshipAt? (s : Store) (slot : Nat) : Option Relationship :=
  s.relationships[slot]?.join

def node? (s : Store) (key : NodeKey) : Option Node :=
  (s.nodeSlots.get? key).bind s.nodeAt?

def relationship? (s : Store) (id : Nat) : Option Relationship :=
  (s.relationshipSlots.get? id).bind s.relationshipAt?

def hasNode (s : Store) (key : NodeKey) : Bool := s.nodeSlots.contains key

def hasRelationship (s : Store) (id : Nat) : Bool := s.relationshipSlots.contains id

def getNode (s : Store) (key : NodeKey) : Except StoreError Node :=
  match s.node? key with
  | some n => .ok n
  | none => .error (.nodeNotFound key)

def getRelationship (s : Store) (id : Nat) : Except StoreError Relationship :=
  match s.relationship? id with
  | some r => .ok r
  | none => .error (.relationshipNotFound id)

def nodeSlot (s : Store) (key : NodeKey) : Except StoreError Nat :=
  match s.nodeSlots.get? key with
  | some slot => .ok slot
  | none => .error (.nodeNotFound key)

def relationshipSlot (s : Store) (id : Nat) : Except StoreError Nat :=
  match s.relationshipSlots.get? id with
  | some slot => .ok slot
  | none => .error (.relationshipNotFound id)

/-- The node in the slot that a key led to. -/
def nodeIn (s : Store) (slot : Nat) (key : NodeKey) : Except StoreError Node :=
  match s.nodeAt? slot with
  | some n => .ok n
  | none => .error (.nodeNotFound key)

def relationshipIn (s : Store) (slot : Nat) (id : Nat) : Except StoreError Relationship :=
  match s.relationshipAt? slot with
  | some r => .ok r
  | none => .error (.relationshipNotFound id)

def checkNewNode (s : Store) (key : NodeKey) : Except StoreError Unit :=
  if s.hasNode key then .error (.duplicateNode key) else .ok ()

def checkNewRelationship (s : Store) (id : Nat) : Except StoreError Unit :=
  if s.hasRelationship id then .error (.duplicateRelationship id) else .ok ()

def nodeCount (s : Store) : Nat := s.nodeSlots.size

def relationshipCount (s : Store) : Nat := s.relationshipSlots.size

/-- The nodes in insertion order. -/
def nodeList (s : Store) : List Node := s.nodes.toList.filterMap id

/-- The relationships in insertion order. -/
def relationshipList (s : Store) : List Relationship := s.relationships.toList.filterMap id

def nodesLabeled (s : Store) (label : String) : List Node :=
  ((s.labels.get? label).getD []).filterMap s.nodeAt?

def relationshipsOfKind (s : Store) (kind : String) : List Relationship :=
  ((s.kinds.get? kind).getD []).filterMap s.relationshipAt?

/-- Whether a node ever carried the label. -/
def hasLabel (s : Store) (label : String) : Bool := s.labels.contains label

def hasKind (s : Store) (kind : String) : Bool := s.kinds.contains kind

/-! ### Insertion -/

def nextNodeId (s : Store) (label : String) : Nat := (s.nextNodeIds.get? label).getD 1

/-- Gives a node the next slot. -/
def insertNode (s : Store) (n : Node) : Store :=
  let slot := s.nodes.size
  { s with
    nodes := s.nodes.push (some n)
    outgoing := s.outgoing.push []
    incoming := s.incoming.push []
    nodeSlots := s.nodeSlots.insert n.key slot
    labels := s.labels.update n.label [] (· ++ [slot])
    nextNodeIds := s.nextNodeIds.update n.label 1 (max · (n.key.id + 1)) }

/-- Gives a relationship the next slot; its ends are in the two node slots. -/
def insertRelationship (s : Store) (r : Relationship) (source target : Nat) : Store :=
  let slot := s.relationships.size
  { s with
    relationships := s.relationships.push (some r)
    outgoing := s.outgoing.modify source (· ++ [slot])
    incoming := s.incoming.modify target (· ++ [slot])
    relationshipSlots := s.relationshipSlots.insert r.id slot
    kinds := s.kinds.update r.kind [] (· ++ [slot]) }

/-! ### Deletion -/

/-- Applies a function to the adjacency of a node that is there. -/
def modifyAt (s : Store) (key : NodeKey) (lists : Array (List Nat))
    (f : List Nat → List Nat) : Array (List Nat) :=
  match s.nodeSlots.get? key with
  | some slot => lists.modify slot f
  | none => lists

/-- Empties a relationship slot and drops it from every index. -/
def detach (s : Store) (slot : Nat) : Store :=
  match s.relationshipAt? slot with
  | none => s
  | some r =>
    let drop := List.filter (fun e => decide (e ≠ slot))
    { s with
      relationships := s.relationships.setIfInBounds slot none
      outgoing := s.modifyAt r.source s.outgoing drop
      incoming := s.modifyAt r.target s.incoming drop
      kinds := s.kinds.adjust r.kind drop
      relationshipSlots := s.relationshipSlots.erase r.id }

/-- The relationship slots of a node slot in one direction, in insertion order. -/
def adjacent (s : Store) (slot : Nat) : Direction → List Nat
  | .outgoing => (s.outgoing[slot]?).getD []
  | .incoming => (s.incoming[slot]?).getD []
  | .both => mergeAscending ((s.outgoing[slot]?).getD []) ((s.incoming[slot]?).getD [])

/-- Empties a node slot, drops it from every index, and detaches every relationship that
starts or ends there. -/
def removeNode (s : Store) (key : NodeKey) (slot : Nat) (n : Node) : Store :=
  let cleared := { s with
    nodes := s.nodes.setIfInBounds slot none
    outgoing := s.outgoing.setIfInBounds slot []
    incoming := s.incoming.setIfInBounds slot [] }
  let detached := (s.adjacent slot .both).foldl detach cleared
  { detached with
    labels := detached.labels.adjust n.label (List.filter (fun e => decide (e ≠ slot)))
    nodeSlots := detached.nodeSlots.erase key }

/-! ### Neighbours -/

/-- The node and relationship at the other end of a relationship slot, if the kind is
the one asked for. -/
def across? (s : Store) (key : NodeKey) (kind : Option String) (slot : Nat) :
    Option (Node × Relationship) := do
  let r ← s.relationshipAt? slot
  if kind.all (r.kind == ·) then
    let n ← s.node? (r.otherEnd key)
    some (n, r)
  else none

/-- Neighbours with the relationship to each, in the order the relationships were
inserted; a loop counts once. -/
def neighbors (s : Store) (key : NodeKey) (kind : Option String) (direction : Direction) :
    Except StoreError (List (Node × Relationship)) := do
  let slot ← s.nodeSlot key
  .ok ((s.adjacent slot direction).filterMap (s.across? key kind))

/-- The first relationship of a kind from one node to another. -/
def findRelationship? (s : Store) (kind : String) (source target : NodeKey) : Option Nat := do
  let slot ← s.nodeSlots.get? source
  let r ← ((s.adjacent slot .outgoing).filterMap s.relationshipAt?).find?
    fun r => r.kind == kind && r.target == target
  some r.id

end Store

end PropertyGraph
