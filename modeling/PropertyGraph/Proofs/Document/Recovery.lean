import PropertyGraph.Proofs.Store.Scan
import PropertyGraph.Proofs.Value.Json

/-! Recovery of a store from its document. Every node and every relationship of a store
passes the checks again, in the order in which the document lists them, and goes into the
next slot. The new store has no empty slots, so an entity may have another slot than
before, but its scans are the same; and all reads of a store are told by its scans. -/

namespace PropertyGraph

namespace Store

open Arena

/-! ### Reads and scans -/

/-- The two stores give the same answer to every read. -/
structure AnswersAs (t s : Store) : Prop where
  getNode : ∀ key, t.getNode key = s.getNode key
  hasNode : ∀ key, t.hasNode key = s.hasNode key
  getRelationship : ∀ id, t.getRelationship id = s.getRelationship id
  hasRelationship : ∀ id, t.hasRelationship id = s.hasRelationship id
  neighbors : ∀ key kind d, t.neighbors key kind d = s.neighbors key kind d
  nodesLabeled : ∀ label, t.nodesLabeled label = s.nodesLabeled label
  relationshipsOfKind : ∀ kind, t.relationshipsOfKind kind = s.relationshipsOfKind kind
  findRelationship? : ∀ kind source target,
    t.findRelationship? kind source target = s.findRelationship? kind source target

namespace Invariant

variable {s t : Store}

/-- Stores with the same scans answer alike. -/
theorem answersAs (hs : s.Invariant) (ht : t.Invariant) (hn : t.nodeList = s.nodeList)
    (hr : t.relationshipList = s.relationshipList) : t.AnswersAs s := by
  have hnode : ∀ key, t.node? key = s.node? key := fun key => by
    ext n
    rw [ht.node?_eq_some_iff, hs.node?_eq_some_iff, hn]
  have hrelationship : ∀ id, t.relationship? id = s.relationship? id := fun id => by
    ext r
    rw [ht.relationship?_eq_some_iff, hs.relationship?_eq_some_iff, hr]
  constructor
  · intro key
    rw [getNode, getNode, hnode]
  · intro key
    rw [Bool.eq_iff_iff, ht.hasNode_iff, hs.hasNode_iff, hn]
  · intro id
    rw [getRelationship, getRelationship, hrelationship]
  · intro id
    rw [Bool.eq_iff_iff, ht.hasRelationship_iff, hs.hasRelationship_iff, hr]
  · intro key kind d
    rw [ht.neighbors_eq, hs.neighbors_eq, hr]
    simp only [hnode]
  · intro label
    rw [ht.nodesLabeled_eq_filter, hs.nodesLabeled_eq_filter, hn]
  · intro kind
    rw [ht.relationshipsOfKind_eq_filter, hs.relationshipsOfKind_eq_filter, hr]
  · intro kind source target
    rw [ht.findRelationship?_eq, hs.findRelationship?_eq, hr]

end Invariant

/-! ### Recovering entities -/

/-- The store holds these entities in these places and nothing else, and it knows the tags
that they carry and no others. -/
structure Holds (s : Store) (nodes : List Node) (relationships : List Relationship) : Prop where
  invariant : s.Invariant
  nodeArena : s.nodes.toList = nodes.map some
  relationshipArena : s.relationships.toList = relationships.map some
  hasLabel : ∀ label, s.hasLabel label = true ↔ ∃ n ∈ nodes, n.label = label
  hasKind : ∀ kind, s.hasKind kind = true ↔ ∃ r ∈ relationships, r.kind = kind

namespace Holds

variable {s : Store} {nodes : List Node} {relationships : List Relationship} {n : Node}
  {r : Relationship}

theorem nodeList (h : s.Holds nodes relationships) : s.nodeList = nodes := by
  rw [Store.nodeList, h.nodeArena, List.filterMap_map]
  exact List.filterMap_some

theorem relationshipList (h : s.Holds nodes relationships) :
    s.relationshipList = relationships := by
  rw [Store.relationshipList, h.relationshipArena, List.filterMap_map]
  exact List.filterMap_some

theorem empty : Store.empty.Holds [] [] :=
  ⟨.empty, rfl, rfl, fun _ => by simp [Store.hasLabel, Store.empty, OrderedMap.contains],
    fun _ => by simp [Store.hasKind, Store.empty, OrderedMap.contains]⟩

/-- What a node that goes through leaves behind. -/
theorem of_run_recoverNode (h : s.Holds nodes relationships) {t : Store} {x : Unit}
    (hrun : (Change.recoverNode n).run s = .ok x t) : t.Holds (nodes ++ [n]) relationships := by
  have ht := h.invariant.recoverNode hrun
  obtain ⟨-, -, -, rfl⟩ := Change.run_recoverNode_eq_ok_iff.1 hrun
  refine ⟨ht, ?_, h.relationshipArena, ?_, h.hasKind⟩
  · rw [Store.insertNode, Array.toList_push, h.nodeArena, List.map_append]
    rfl
  · intro label
    have hlabels : s.labels.contains label = true ↔ ∃ m ∈ nodes, m.label = label :=
      h.hasLabel label
    rw [Store.hasLabel, Store.insertNode, OrderedMap.contains_update_iff, hlabels]
    simp [or_and_right, exists_or]

theorem recoverNode (h : s.Holds nodes relationships) (hn : n.Storable)
    (hnew : ∀ m ∈ nodes, m.key ≠ n.key) :
    ∃ t, s.recoverNode n = .ok t ∧ t.Holds (nodes ++ [n]) relationships := by
  have hfree : s.nodeSlots.get? n.key = none :=
    h.invariant.nodes.indexed.get?_eq_none fun m hm => hnew m (h.nodeList ▸ hm)
  have hrun := (Change.run_recoverNode_eq_ok_iff (x := ())).2 ⟨hfree, checkId_eq_ok_iff.2 hn.id_le,
    checkNodeProperties_eq_ok_iff.2 ⟨hn.properties, hn.no_id⟩, rfl⟩
  refine ⟨_, ?_, h.of_run_recoverNode hrun⟩
  rw [Store.recoverNode, Change.apply, hrun]
  rfl

/-- What a relationship that goes through leaves behind. -/
theorem of_run_recoverRelationship (h : s.Holds nodes relationships) {t : Store} {x : Unit}
    (hrun : (Change.recoverRelationship r).run s = .ok x t) :
    t.Holds nodes (relationships ++ [r]) := by
  have ht := h.invariant.recoverRelationship hrun
  obtain ⟨a, b, -, -, -, -, -, rfl⟩ := Change.run_recoverRelationship_eq_ok_iff.1 hrun
  refine ⟨ht, h.nodeArena, ?_, h.hasLabel, ?_⟩
  · rw [Store.insertRelationship, Array.toList_push, h.relationshipArena, List.map_append]
    rfl
  · intro kind
    have hkinds : s.kinds.contains kind = true ↔ ∃ x ∈ relationships, x.kind = kind :=
      h.hasKind kind
    rw [Store.hasKind, Store.insertRelationship, OrderedMap.contains_update_iff, hkinds]
    simp [or_and_right, exists_or]

theorem recoverRelationship (h : s.Holds nodes relationships) (hr : r.Storable)
    (hnew : ∀ x ∈ relationships, x.id ≠ r.id)
    (hends : ∀ key, key = r.source ∨ key = r.target → ∃ n ∈ nodes, n.key = key) :
    ∃ t, s.recoverRelationship r = .ok t ∧ t.Holds nodes (relationships ++ [r]) := by
  have hfree : s.relationshipSlots.get? r.id = none :=
    h.invariant.relationships.indexed.get?_eq_none fun x hx => hnew x (h.relationshipList ▸ hx)
  have hslot : ∀ key, key = r.source ∨ key = r.target → ∃ i, s.nodeSlots.get? key = some i := by
    intro key hkey
    exact OrderedMap.contains_iff.1 (h.invariant.hasNode_iff.2 (h.nodeList ▸ hends key hkey))
  obtain ⟨a, ha⟩ := hslot r.source (.inl rfl)
  obtain ⟨b, hb⟩ := hslot r.target (.inr rfl)
  have hrun := (Change.run_recoverRelationship_eq_ok_iff (x := ())).2 ⟨a, b, hfree,
    checkId_eq_ok_iff.2 hr.id_le, ha, hb, checkProperties_eq_ok_iff.2 hr.properties, rfl⟩
  refine ⟨_, ?_, h.of_run_recoverRelationship hrun⟩
  rw [Store.recoverRelationship, Change.apply, hrun]
  rfl

/-- Nodes are taken over one after the other if no identity occurs twice. -/
theorem addNodes (h : s.Holds nodes relationships) {added : List Node}
    (hadded : ∀ n ∈ added, n.Storable) (hkeys : ((nodes ++ added).map Node.key).Nodup) :
    ∃ t, (added.map NodeEntry.ofNode).foldlM Document.addNode s = .ok t ∧
      t.Holds (nodes ++ added) relationships := by
  refine foldlM_collect (p := fun t nodes => Holds t nodes relationships) ?_ h hkeys
  intro s nodes n hn h hnew
  obtain ⟨t, ht, hholds⟩ := h.recoverNode (hadded n hn) hnew
  exact ⟨t, bind_eq_ok_iff.2 ⟨n, NodeEntry.node_ofNode (hadded n hn), ht⟩, hholds⟩

theorem addRelationships (h : s.Holds nodes relationships) {added : List Relationship}
    (hadded : ∀ r ∈ added, r.Storable)
    (hends : ∀ r ∈ added, ∀ key, key = r.source ∨ key = r.target → ∃ n ∈ nodes, n.key = key)
    (hids : ((relationships ++ added).map Relationship.id).Nodup) :
    ∃ t, (added.map RelationshipEntry.ofRelationship).foldlM Document.addRelationship s = .ok t ∧
      t.Holds nodes (relationships ++ added) := by
  refine foldlM_collect (p := fun t relationships => Holds t nodes relationships) ?_ h hids
  intro s relationships r hr h hnew
  obtain ⟨t, ht, hholds⟩ := h.recoverRelationship (hadded r hr) hnew (hends r hr)
  exact ⟨t, bind_eq_ok_iff.2 ⟨r, RelationshipEntry.relationship_ofRelationship (hadded r hr), ht⟩,
    hholds⟩

end Holds

/-! ### Recovering a store -/

/-- The document of a sound store is accepted, and the store made from it holds what the
sound one does, without gaps. -/
theorem Invariant.recovers {s : Store} (h : s.Invariant) : ∃ t,
    (Document.ofStore s).toStore = .ok t ∧ t.Holds s.nodeList s.relationshipList := by
  have hends : ∀ r ∈ s.relationshipList, ∀ key, key = r.source ∨ key = r.target →
      ∃ n ∈ s.nodeList, n.key = key := by
    intro r hr key hkey
    obtain ⟨n, hn⟩ := h.end_live hr hkey
    exact ⟨n, h.node?_eq_some_iff.1 hn⟩
  obtain ⟨u, hu, huholds⟩ :=
    Holds.empty.addNodes (fun _ => h.node_storable) h.nodes.indexed.nodup_keys
  obtain ⟨t, ht, htholds⟩ := huholds.addRelationships (fun _ => h.relationship_storable) hends
    h.relationships.indexed.nodup_keys
  exact ⟨t, bind_eq_ok_iff.2 ⟨u, hu, ht⟩, htholds⟩

/-- The document of a store describes the store. The store made from it has the same
scans, without the slots that deletions left empty, answers every read alike, and knows
the tags of its entities and no others. -/
theorem toStore_ofStore {s : Store} (h : s.Reachable) : ∃ t,
    (Document.ofStore s).toStore = .ok t ∧ t.nodeList = s.nodeList ∧
      t.relationshipList = s.relationshipList ∧ t.AnswersAs s ∧
      (∀ label, t.hasLabel label = true ↔ ∃ n ∈ s.nodeList, n.label = label) ∧
      (∀ kind, t.hasKind kind = true ↔ ∃ r ∈ s.relationshipList, r.kind = kind) ∧
      t.nodes.toList = s.nodeList.map some ∧
      t.relationships.toList = s.relationshipList.map some := by
  obtain ⟨t, ht, hholds⟩ := h.invariant.recovers
  exact ⟨t, ht, hholds.nodeList, hholds.relationshipList,
    h.invariant.answersAs hholds.invariant hholds.nodeList hholds.relationshipList,
    hholds.hasLabel, hholds.hasKind, hholds.nodeArena, hholds.relationshipArena⟩

/-- Two shops of which the first was closed; the second one has rates of both kinds. -/
def shops : Store := history [.createNode "Shop" none ∅,
  .createNode "Shop" none (.ofList [("rates", .array [.integer 2, .array [.float .zero]])]),
  .createRelationship "SUPPLIES" ⟨"Shop", 1⟩ ⟨"Shop", 2⟩ ∅,
  .createRelationship "SUPPLIES" ⟨"Shop", 2⟩ ⟨"Shop", 2⟩ ∅, .deleteNode ⟨"Shop", 1⟩]

theorem toStore_ofStore_shops : shops.nodeAt? 0 = none ∧ ∃ t,
    (Document.ofStore shops).toStore = .ok t ∧ t.nodeList = shops.nodeList ∧
      t.relationshipList = shops.relationshipList ∧ t.AnswersAs shops ∧
      (∀ label, t.hasLabel label = true ↔ ∃ n ∈ shops.nodeList, n.label = label) ∧
      (∀ kind, t.hasKind kind = true ↔ ∃ r ∈ shops.relationshipList, r.kind = kind) ∧
      t.nodes.toList = shops.nodeList.map some ∧
      t.relationships.toList = shops.relationshipList.map some :=
  ⟨by decide +kernel, toStore_ofStore ⟨_, rfl⟩⟩

end Store

end PropertyGraph
