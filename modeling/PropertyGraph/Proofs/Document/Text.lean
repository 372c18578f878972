import PropertyGraph.Proofs.Document.Recovery
import PropertyGraph.Proofs.Json.Shape

/-! Graphs as text. The document of a store is written as text and read back as the same
document, in either layout, if its values are legible. The document, its list of nodes or
relationships, an entry and its bag are four levels of nesting, which leaves the rest of
the limit to the arrays of a value. -/

namespace PropertyGraph

/-- The arrays of the value nest at most 123 deep, and its floats are reread. -/
structure Value.IsLegible (v : Value) : Prop where
  depth_le : v.depth ≤ 123
  rereads : v.Rereads

def Bag.IsLegible (b : Bag) : Prop := ∀ e ∈ OrderedMap.entries b, e.2.IsLegible

/-- The values of the bag have no floats in them, and their arrays nest at most 123 deep,
which is what the text of a document allows. -/
def Bag.IsTextual (b : Bag) : Prop :=
  ∀ e ∈ OrderedMap.entries b, e.2.IsFloatFree ∧ e.2.depth ≤ 123

instance (b : Bag) : Decidable b.IsTextual :=
  inferInstanceAs (Decidable (∀ e ∈ OrderedMap.entries b, e.2.IsFloatFree ∧ e.2.depth ≤ 123))

open Json Source

namespace Bag

variable {b : Bag}

theorem IsTextual.isLegible (h : b.IsTextual) : b.IsLegible := by
  intro e he
  obtain ⟨hfree, hdepth⟩ := h e he
  exact ⟨hdepth, hfree.rereads⟩

theorem isFinite_toJsonMap (b : Bag) : (Json.object (toJsonMap b).entries).IsFinite := by
  refine .object fun m hm => ?_
  obtain ⟨e, he, rfl⟩ := List.mem_map.1 hm
  exact Value.isFinite_toJson e.2

theorem mapOf?_toJsonMap (h : b.IsLegible) :
    mapOf? json? 124 (.object (ofMembers (toJsonMap b).entries)) = some (toJsonMap b) := by
  refine mapOf?_ofMembers fun m hm => ?_
  obtain ⟨e, he, rfl⟩ := List.mem_map.1 hm
  exact Value.json?_ofJson_toJson e.2 (h e he).rereads (h e he).depth_le

end Bag

/-! ### Entries -/

/-- An id is a number that a text may give. -/
theorem word64?_id {id : Nat} (room : Nat) (h : id ≤ greatestId) :
    word64? room (ofJson (.ofNat id)) = some id :=
  word64?_ofNat (Nat.lt_of_le_of_lt h (by decide))

theorem NodeKey.ofSource?_toJson {k : NodeKey} (room : Nat) (h : k.id ≤ greatestId) :
    NodeKey.ofSource? (room + 1) (ofJson k.toJson) = some k := by
  have hid := word64?_id room h
  rw [NodeKey.ofSource?, NodeKey.toJson, fields?_ofJson ["type", "id"] rfl (by decide)]
  simp [Fields.required, Fields.get?, List.lookup_cons, ofJson, text?, hid]

theorem NodeEntry.ofSource?_toJson {n : Node} (hn : n.Storable) (ht : n.properties.IsLegible) :
    NodeEntry.ofSource? 125 (ofJson (ofNode n).toJson) = some (ofNode n) := by
  have hid := word64?_id 124 hn.id_le
  have hbag := Bag.mapOf?_toJsonMap ht
  rw [NodeEntry.ofSource?, NodeEntry.toJson,
    fields?_ofJson ["type", "id", "properties"] rfl (by decide)]
  simp [Fields.required, Fields.optional, Fields.get?, List.lookup_cons, ofJson, text?, ofNode, hid,
    hbag]

theorem RelationshipEntry.ofSource?_toJson {r : Relationship} (hr : r.Storable)
    (hsource : r.source.id ≤ greatestId) (htarget : r.target.id ≤ greatestId)
    (ht : r.properties.IsLegible) :
    RelationshipEntry.ofSource? 125 (ofJson (ofRelationship r).toJson) =
      some (ofRelationship r) := by
  have hid := word64?_id 124 hr.id_le
  have hfrom := NodeKey.ofSource?_toJson 123 hsource
  have hto := NodeKey.ofSource?_toJson 123 htarget
  have hbag := Bag.mapOf?_toJsonMap ht
  rw [RelationshipEntry.ofSource?, RelationshipEntry.toJson,
    fields?_ofJson ["type", "id", "from", "to", "properties"] rfl (by decide)]
  simp [Fields.required, Fields.optional, Fields.get?, List.lookup_cons, ofJson, text?,
    ofRelationship, hid, hfrom, hto, hbag]

/-! ### Documents -/

theorem NodeKey.isFinite_toJson (k : NodeKey) : k.toJson.IsFinite :=
  .cons (.string _) (.cons (.integer _) .nil)

theorem NodeEntry.isFinite_toJson (n : Node) : (ofNode n).toJson.IsFinite :=
  .cons (.string _) (.cons (.integer _) (.cons (Bag.isFinite_toJsonMap _) .nil))

theorem RelationshipEntry.isFinite_toJson (r : Relationship) :
    (ofRelationship r).toJson.IsFinite :=
  .cons (.string _) (.cons (.integer _) (.cons r.source.isFinite_toJson
    (.cons r.target.isFinite_toJson (.cons (Bag.isFinite_toJsonMap _) .nil))))

namespace Store

/-- No value in the store has a float in it, and no arrays nest more than 123 deep. -/
structure IsTextual (s : Store) : Prop where
  nodes : ∀ n ∈ s.nodeList, n.properties.IsTextual
  relationships : ∀ r ∈ s.relationshipList, r.properties.IsTextual

instance (s : Store) : Decidable s.IsTextual :=
  decidable_of_iff ((∀ n ∈ s.nodeList, n.properties.IsTextual) ∧
    ∀ r ∈ s.relationshipList, r.properties.IsTextual)
    ⟨fun h => ⟨h.1, h.2⟩, fun h => ⟨h.nodes, h.relationships⟩⟩

/-- All values in the store are legible. -/
structure IsLegible (s : Store) : Prop where
  nodes : ∀ n ∈ s.nodeList, n.properties.IsLegible
  relationships : ∀ r ∈ s.relationshipList, r.properties.IsLegible

variable {s : Store}

theorem IsTextual.isLegible (h : s.IsTextual) : s.IsLegible where
  nodes n hn := (h.nodes n hn).isLegible
  relationships r hr := (h.relationships r hr).isLegible

theorem isFinite_toJson_ofStore (s : Store) : (Document.ofStore s).toJson.IsFinite := by
  refine .cons (.array fun x hx => ?_) (.cons (.array fun x hx => ?_) .nil)
  · simp only [Document.ofStore, List.map_map, List.mem_map] at hx
    obtain ⟨n, hn, rfl⟩ := hx
    exact NodeEntry.isFinite_toJson n
  · simp only [Document.ofStore, List.map_map, List.mem_map] at hx
    obtain ⟨r, hr, rfl⟩ := hx
    exact RelationshipEntry.isFinite_toJson r

theorem ofSource?_ofStore (hs : s.Invariant) (h : s.IsLegible) :
    Document.ofSource? nestingLimit (ofJson (Document.ofStore s).toJson) =
      some (Document.ofStore s) := by
  have hnodes : listOf? NodeEntry.ofSource? 126
      (.array (ofItems ((s.nodeList.map NodeEntry.ofNode).map NodeEntry.toJson))) =
        some (s.nodeList.map NodeEntry.ofNode) := by
    refine listOf?_ofItems fun e he => ?_
    obtain ⟨n, hn, rfl⟩ := List.mem_map.1 he
    exact NodeEntry.ofSource?_toJson (hs.node_storable hn) (h.nodes n hn)
  have hrelationships : listOf? RelationshipEntry.ofSource? 126
      (.array (ofItems ((s.relationshipList.map RelationshipEntry.ofRelationship).map
        RelationshipEntry.toJson))) =
        some (s.relationshipList.map RelationshipEntry.ofRelationship) := by
    refine listOf?_ofItems fun e he => ?_
    obtain ⟨r, hr, rfl⟩ := List.mem_map.1 he
    exact RelationshipEntry.ofSource?_toJson (hs.relationship_storable hr)
      (hs.end_id_le hr (.inl rfl)) (hs.end_id_le hr (.inr rfl)) (h.relationships r hr)
  rw [Document.ofSource?, Document.toJson, nestingLimit,
    fields?_ofJson ["nodes", "relationships"] rfl (by decide)]
  simp [Fields.optional, Fields.get?, List.lookup_cons, ofJson, Document.ofStore, hnodes,
    hrelationships, -List.map_map]

/-- The text of a store is read as its tree. -/
theorem read_toText_eq (s : Store) (layout : Layout) : Document.read (s.toText layout) =
    Document.ofSource? nestingLimit (ofJson (Document.ofStore s).toJson) := by
  rw [Document.read, toText, Source.read_write _ (isFinite_toJson_ofStore s), Option.bind_eq_bind,
    Option.bind_some]

theorem read_toText (hs : s.Invariant) (h : s.IsTextual) (layout : Layout) :
    Document.read (s.toText layout) = some (Document.ofStore s) := by
  rw [read_toText_eq, ofSource?_ofStore hs h.isLegible]

/-- The text of a store without floats, in either layout, describes the store: what is
read from it has the same scans and the same text again. -/
theorem ofText_toText (hs : s.Reachable) (h : s.IsTextual) (layout : Layout) :
    ∃ t, ofText (s.toText layout) = .ok t ∧ t.nodeList = s.nodeList ∧
      t.relationshipList = s.relationshipList ∧ ∀ again, t.toText again = s.toText again := by
  obtain ⟨t, ht, hholds⟩ := hs.invariant.recovers
  refine ⟨t, ?_, hholds.nodeList, hholds.relationshipList, fun again => ?_⟩
  · rw [ofText, read_toText hs.invariant h]
    exact mapError_eq_ok_iff.2 ht
  · rw [toText, toText, Document.ofStore, Document.ofStore, hholds.nodeList,
      hholds.relationshipList]

/-- Two notes with characters that have to be escaped; a third one was thrown away. -/
def notes : Store := history [.createNode "Note \"A\"" none ∅,
  .createNode "Note" (some 7) (.ofList
    [("to\\from", .array [.integer (-1), .array [.text "é\n\x01", .array []], .boolean true])]),
  .createNode "Note" none ∅,
  .createRelationship "ANSWERS" ⟨"Note", 7⟩ ⟨"Note \"A\"", 1⟩ (.ofList [("\t", .text "\\\"")]),
  .createRelationship "ANSWERS" ⟨"Note", 8⟩ ⟨"Note", 7⟩ ∅, .deleteNode ⟨"Note", 8⟩]

theorem ofText_toText_notes : notes.relationshipList.map (·.id) = [1] ∧ ∀ layout, ∃ t,
    ofText (notes.toText layout) = .ok t ∧ t.nodeList = notes.nodeList ∧
      t.relationshipList = notes.relationshipList ∧ ∀ again, t.toText again = notes.toText again :=
  ⟨by decide +kernel, ofText_toText ⟨_, rfl⟩ (by decide +kernel)⟩

end Store

end PropertyGraph
