import PropertyGraph.Proofs.Store.Scan

/-! Entities of a store and their ids. What has an id in a store has one that is an integer,
and the name `id` always denotes it: no node carries a property of that name, and what a
relationship carries under it is passed over. -/

namespace PropertyGraph

namespace Entity

/-- The number that tells a node from the others of its label, or a relationship from all
others. -/
def id : Entity → Nat
  | .node n => n.key.id
  | .relationship r => r.id

/-- The store holds the entity. -/
def Live (s : Store) : Entity → Prop
  | .node n => n ∈ s.nodeList
  | .relationship r => r ∈ s.relationshipList

instance (s : Store) (e : Entity) : Decidable (e.Live s) :=
  match e with
  | .node n => inferInstanceAs (Decidable (n ∈ s.nodeList))
  | .relationship r => inferInstanceAs (Decidable (r ∈ s.relationshipList))

variable {s : Store} {e : Entity}

theorem Live.id_le (he : e.Live s) (h : s.Invariant) : e.id ≤ greatestId := by
  cases e with
  | node n => exact (h.node_storable he).id_le
  | relationship r => exact (h.relationship_storable he).id_le

theorem idValue?_of_le {id : Nat} (h : id ≤ greatestId) :
    idValue? id = some (.integer (.ofNat id)) := if_pos h

/-- The name `id` denotes the id. -/
theorem Live.property?_id (he : e.Live s) (h : s.Invariant) :
    e.property? "id" = some (.integer (.ofNat e.id)) := by
  rw [← idValue?_of_le (he.id_le h)]
  cases e with
  | node n => rw [property?, (h.node_storable he).no_id, Option.none_or, if_pos rfl, id]
  | relationship r => rw [property?, if_pos rfl, id]

end Entity

/-- An id of the store, as an integer, is the same number. -/
theorem toInt_ofNat_of_le {id : Nat} (h : id ≤ greatestId) : (Int64.ofNat id).toInt = id :=
  Int64.toInt_ofNat_of_lt (Nat.lt_succ_of_le h)

theorem ofNat_eq_ofNat_iff {i j : Nat} (hi : i ≤ greatestId) (hj : j ≤ greatestId) :
    Int64.ofNat i = Int64.ofNat j ↔ i = j := by
  rw [← Int64.toInt_inj, toInt_ofNat_of_le hi, toInt_ofNat_of_le hj, Int.ofNat_inj]

/-- People of whom one knows another one. The relationship has the id 1 and a property `id`
besides, and a node has a property `from`. -/
def Store.misleading : Store := history [.createNode "Person" none ∅,
  .createNode "Person" none (.ofList [("from", .integer 5)]),
  .createRelationship "KNOWS" ⟨"Person", 1⟩ ⟨"Person", 2⟩ (.ofList [("id", .integer 99)])]

/-- The relationship there. -/
def Store.misleadingRelationship : Relationship :=
  ⟨1, "KNOWS", ⟨"Person", 1⟩, ⟨"Person", 2⟩, .ofList [("id", .integer 99)]⟩

theorem Store.reachable_misleading : misleading.Reachable := ⟨_, rfl⟩

theorem Store.live_misleadingRelationship :
    (Entity.relationship misleadingRelationship).Live misleading := by decide

end PropertyGraph
