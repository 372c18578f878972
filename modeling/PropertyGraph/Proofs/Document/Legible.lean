import PropertyGraph.Proofs.Document.Text

/-! Which graphs come back from their text. What a store admits need not be legible: arrays
may nest deeper than the reader goes, and the text of a double may be read as another double.
A graph comes back from its text exactly if all its values are legible. -/

namespace PropertyGraph

open Json Source

/-! ### Bags and entries that come back -/

namespace Bag

theorem forall₂_of_ofEntries {l : List (String × Json)} {out : List (String × Value)}
    (h : ofEntries l = .ok out) :
    List.Forall₂ (fun e e' => e'.1 = e.1 ∧ Value.ofJson e.2 = .ok e'.2) l out := by
  induction l generalizing out with
  | nil =>
    cases h
    exact .nil
  | cons e rest ih =>
    rw [ofEntries] at h
    split at h
    · cases h
    · next v hv =>
      obtain ⟨es, hes, h⟩ := bind_eq_ok_iff.1 h
      cases h
      exact .cons ⟨rfl, hv⟩ (ih hes)

theorem forall₂_of_ofJsonMap {m : OrderedMap String Json} {b : Bag} (h : ofJsonMap m = .ok b) :
    List.Forall₂ (fun e e' => e'.1 = e.1 ∧ Value.ofJson e.2 = .ok e'.2) m.entries b.entries := by
  obtain ⟨es, hes, h⟩ := bind_eq_ok_iff.1 h
  have hread := forall₂_of_ofEntries hes
  have hkeys := keys_eq_of_forall₂ (hread.imp fun _ _ he => he.1)
  have hentries : (OrderedMap.ofList es).entries = es :=
    OrderedMap.entries_insertAll (hkeys ▸ m.nodup)
  cases h
  rw [hentries]
  exact hread

/-- A bag that comes back from its text is legible. -/
theorem isLegible_of_mapOf? {b : Bag} (hb : b.Storable) {m : OrderedMap String Json}
    (hm : mapOf? json? 124 (.object (ofMembers (toJsonMap b).entries)) = some m)
    (h : ofJsonMap m = .ok b) : b.IsLegible := by
  intro e he
  have hfinite : e.2.IsFinite := (hb e.1 e.2 (OrderedMap.get?_eq_some_iff.2 he)).2
  have hread := List.forall₂_map_left_iff.1 (forall₂_of_mapOf? hm)
  obtain ⟨e', ⟨-, hj⟩, -, hv⟩ := forall_mem_of_forall₂ hread (forall₂_of_ofJsonMap h) e he
  obtain ⟨hdepth, hrereads⟩ := Value.legible_of_json? e.2 hfinite hj hv
  exact ⟨hdepth, hrereads⟩

end Bag

namespace Node

variable {n : Node} {e : NodeEntry}

/-- The bag of an entry that is read from a written one is read from the written bag. -/
theorem mapOf?_of_ofSource? (h : NodeEntry.ofSource? 125 (ofJson (NodeEntry.ofNode n).toJson) =
    some e) : mapOf? json? 124 (.object (ofMembers (Bag.toJsonMap n.properties).entries)) =
      some e.properties := by
  rw [NodeEntry.ofSource?, NodeEntry.toJson,
    fields?_ofJson ["type", "id", "properties"] rfl (by decide)] at h
  have hfields : ∃ id, word64? 124 (ofJson (.ofNat n.key.id)) = some id ∧
      ∃ m, mapOf? json? 124 (.object (ofMembers (Bag.toJsonMap n.properties).entries)) = some m ∧
        ⟨n.label, id, m⟩ = e := by
    simpa [Fields.required, Fields.optional, Fields.get?, List.lookup_cons, ofJson, text?,
      NodeEntry.ofNode, Option.bind_eq_some_iff] using h
  obtain ⟨_, -, m, hm, rfl⟩ := hfields
  exact hm

theorem isLegible_of_ofSource? (hn : n.Storable)
    (he : NodeEntry.ofSource? 125 (ofJson (NodeEntry.ofNode n).toJson) = some e)
    (h : e.node = .ok n) : n.properties.IsLegible := by
  obtain ⟨b, hb, h⟩ := bind_eq_ok_iff.1 h
  cases h
  exact Bag.isLegible_of_mapOf? hn.properties (mapOf?_of_ofSource? he) hb

end Node

namespace Relationship

variable {r : Relationship} {e : RelationshipEntry}

theorem mapOf?_of_ofSource?
    (h : RelationshipEntry.ofSource? 125 (ofJson (RelationshipEntry.ofRelationship r).toJson) =
      some e) : mapOf? json? 124 (.object (ofMembers (Bag.toJsonMap r.properties).entries)) =
      some e.properties := by
  rw [RelationshipEntry.ofSource?, RelationshipEntry.toJson,
    fields?_ofJson ["type", "id", "from", "to", "properties"] rfl (by decide)] at h
  have hfields : ∃ id, word64? 124 (ofJson (.ofNat r.id)) = some id ∧
      ∃ source, NodeKey.ofSource? 124 (ofJson r.source.toJson) = some source ∧
      ∃ target, NodeKey.ofSource? 124 (ofJson r.target.toJson) = some target ∧
      ∃ m, mapOf? json? 124 (.object (ofMembers (Bag.toJsonMap r.properties).entries)) = some m ∧
        ⟨r.kind, id, source, target, m⟩ = e := by
    simpa [Fields.required, Fields.optional, Fields.get?, List.lookup_cons, ofJson, text?,
      RelationshipEntry.ofRelationship, Option.bind_eq_some_iff] using h
  obtain ⟨_, -, _, -, _, -, m, hm, rfl⟩ := hfields
  exact hm

theorem isLegible_of_ofSource? (hr : r.Storable)
    (he : RelationshipEntry.ofSource? 125 (ofJson (RelationshipEntry.ofRelationship r).toJson) =
      some e) (h : e.relationship = .ok r) : r.properties.IsLegible := by
  obtain ⟨b, hb, h⟩ := bind_eq_ok_iff.1 h
  cases h
  exact Bag.isLegible_of_mapOf? hr.properties (mapOf?_of_ofSource? he) hb

end Relationship

/-! ### Stores that come back -/

namespace Store

namespace Holds

variable {s t : Store} {nodes : List Node} {relationships : List Relationship}

theorem of_addNode (h : s.Holds nodes relationships) {e : NodeEntry}
    (ht : Document.addNode s e = .ok t) :
    ∃ n, e.node = .ok n ∧ t.Holds (nodes ++ [n]) relationships := by
  obtain ⟨n, hn, ht⟩ := bind_eq_ok_iff.1 ht
  exact ⟨n, hn, h.of_run_recoverNode (run_of_apply ht)⟩

theorem of_addRelationship (h : s.Holds nodes relationships) {e : RelationshipEntry}
    (ht : Document.addRelationship s e = .ok t) :
    ∃ r, e.relationship = .ok r ∧ t.Holds nodes (relationships ++ [r]) := by
  obtain ⟨r, hr, ht⟩ := bind_eq_ok_iff.1 ht
  exact ⟨r, hr, h.of_run_recoverRelationship (run_of_apply ht)⟩

end Holds

/-- The store made from a document has an entity for each entry. -/
theorem forall₂_of_toStore {d : Document} {t : Store} (h : d.toStore = .ok t) :
    List.Forall₂ (fun (e : NodeEntry) n => e.node = .ok n) d.nodes t.nodeList ∧
      List.Forall₂ (fun (e : RelationshipEntry) r => e.relationship = .ok r) d.relationships
        t.relationshipList := by
  obtain ⟨s, hs, ht⟩ := bind_eq_ok_iff.1 h
  obtain ⟨nodes, hnodes, hholds⟩ := foldlM_collected (p := fun s nodes => s.Holds nodes [])
    (fun _ _ _ _ h => h.of_addNode) .empty hs
  obtain ⟨relationships, hrelationships, hholds⟩ :=
    foldlM_collected (p := fun s relationships => s.Holds nodes relationships)
      (fun _ _ _ _ h => h.of_addRelationship) hholds ht
  rw [hholds.nodeList, hholds.relationshipList]
  exact ⟨hnodes, hrelationships⟩

/-- The document that is read from the text of a store has an entry for each entity. -/
theorem forall₂_of_ofSource? {s : Store} {d : Document}
    (h : Document.ofSource? nestingLimit (ofJson (Document.ofStore s).toJson) = some d) :
    List.Forall₂ (fun n e => NodeEntry.ofSource? 125 (ofJson (NodeEntry.ofNode n).toJson) = some e)
        s.nodeList d.nodes ∧
      List.Forall₂ (fun r e => RelationshipEntry.ofSource? 125
        (ofJson (RelationshipEntry.ofRelationship r).toJson) = some e)
        s.relationshipList d.relationships := by
  rw [Document.ofSource?, Document.toJson, nestingLimit,
    fields?_ofJson ["nodes", "relationships"] rfl (by decide)] at h
  have hfields : ∃ nodes, listOf? NodeEntry.ofSource? 126 (.array (ofItems
        ((s.nodeList.map NodeEntry.ofNode).map NodeEntry.toJson))) = some nodes ∧
      ∃ relationships, listOf? RelationshipEntry.ofSource? 126 (.array (ofItems
        ((s.relationshipList.map RelationshipEntry.ofRelationship).map
          RelationshipEntry.toJson))) = some relationships ∧ ⟨nodes, relationships⟩ = d := by
    simpa [Fields.optional, Fields.get?, List.lookup_cons, ofJson, Document.ofStore,
      Option.bind_eq_some_iff, -List.map_map] using h
  obtain ⟨nodes, hnodes, relationships, hrelationships, rfl⟩ := hfields
  exact ⟨List.forall₂_map_left_iff.1 (forall₂_of_listOf? hnodes),
    List.forall₂_map_left_iff.1 (forall₂_of_listOf? hrelationships)⟩

/-- A graph that comes back from its text is legible. -/
theorem Invariant.isLegible {s t : Store} (hs : s.Invariant) {layout : Layout}
    (ht : ofText (s.toText layout) = .ok t) (hn : t.nodeList = s.nodeList)
    (hr : t.relationshipList = s.relationshipList) : s.IsLegible := by
  rw [ofText, read_toText_eq] at ht
  split at ht
  · cases ht
  · next d hd =>
    obtain ⟨hnodes, hrelationships⟩ := forall₂_of_ofSource? hd
    obtain ⟨hnodes', hrelationships'⟩ := forall₂_of_toStore (mapError_eq_ok_iff.1 ht)
    rw [hn] at hnodes'
    rw [hr] at hrelationships'
    constructor
    · intro n hmem
      obtain ⟨e, he, hnode⟩ := forall_mem_of_forall₂ hnodes hnodes' n hmem
      exact n.isLegible_of_ofSource? (hs.node_storable hmem) he hnode
    · intro r hmem
      obtain ⟨e, he, hrelationship⟩ := forall_mem_of_forall₂ hrelationships hrelationships' r hmem
      exact r.isLegible_of_ofSource? (hs.relationship_storable hmem) he hrelationship

/-- A graph comes back from its text exactly if its values are legible; the store does not
see to that. -/
theorem ofText_toText_iff {s : Store} (hs : s.Reachable) (layout : Layout) :
    (∃ t, ofText (s.toText layout) = .ok t ∧ t.nodeList = s.nodeList ∧
      t.relationshipList = s.relationshipList) ↔ s.IsLegible := by
  constructor
  · rintro ⟨t, ht, hn, hr⟩
    exact hs.invariant.isLegible ht hn hr
  · intro h
    obtain ⟨t, ht, hholds⟩ := hs.invariant.recovers
    refine ⟨t, ?_, hholds.nodeList, hholds.relationshipList⟩
    rw [ofText, read_toText_eq, ofSource?_ofStore hs.invariant h]
    exact mapError_eq_ok_iff.2 ht

/-- The graph of one node with one property. -/
def loneProperty (v : Value) : Store := history [.createNode "Part" none (.ofList [("size", v)])]

theorem reachable_loneProperty (v : Value) : (loneProperty v).Reachable := ⟨_, rfl⟩

/-- An array in an array and so on, `n` of them around an empty one. -/
def nested : Nat → Value
  | 0 => .array []
  | n + 1 => .array [nested n]

/-- The graph with three tenths is legible and comes back. The one with an array of depth 124 is
not, and does not. -/
theorem ofText_toText_iff_tenths :
    ((∃ t, ofText ((loneProperty (.float (.ofDecimal false 3 (-1)))).toText .compact) = .ok t ∧
        t.nodeList = (loneProperty (.float (.ofDecimal false 3 (-1)))).nodeList ∧
        t.relationshipList = (loneProperty (.float (.ofDecimal false 3 (-1)))).relationshipList) ↔
      (loneProperty (.float (.ofDecimal false 3 (-1)))).IsLegible) ∧
    (loneProperty (.float (.ofDecimal false 3 (-1)))).IsLegible ∧
    (∃ t, ofText ((loneProperty (.float (.ofDecimal false 3 (-1)))).toText .compact) = .ok t ∧
      t.nodeList = [⟨⟨"Part", 1⟩, .ofList [("size", .float (.ofDecimal false 3 (-1)))]⟩]) ∧
    ¬ (loneProperty (nested 123)).IsLegible ∧
    ¬ ∃ t, ofText ((loneProperty (nested 123)).toText .compact) = .ok t ∧
      t.nodeList = (loneProperty (nested 123)).nodeList ∧
      t.relationshipList = (loneProperty (nested 123)).relationshipList := by
  have htenths : (loneProperty (.float (.ofDecimal false 3 (-1)))).nodeList =
      [⟨⟨"Part", 1⟩, .ofList [("size", .float (.ofDecimal false 3 (-1)))]⟩] := by decide +kernel
  have hnested : (loneProperty (nested 123)).nodeList =
      [⟨⟨"Part", 1⟩, .ofList [("size", nested 123)]⟩] := by decide +kernel
  have hlegible : (loneProperty (.float (.ofDecimal false 3 (-1)))).IsLegible := by
    refine ⟨?_, nofun⟩
    rw [htenths]
    exact List.forall_mem_singleton.2 (List.forall_mem_singleton.2 ⟨Nat.zero_le _,
      Value.rereads_float_iff.2 ((Double.rereads_iff (by decide +kernel)).2 (by decide +kernel))⟩)
  have hdeep : ¬ (loneProperty (nested 123)).IsLegible := by
    intro h
    have hnodes := h.nodes
    rw [hnested] at hnodes
    have hdepth : (nested 123).depth ≤ 123 :=
      (List.forall_mem_singleton.1 (List.forall_mem_singleton.1 hnodes)).depth_le
    exact absurd hdepth (by decide +kernel)
  have hiff := ofText_toText_iff
    (reachable_loneProperty (.float (.ofDecimal false 3 (-1)))) .compact
  obtain ⟨t, ht, hnodes, -⟩ := hiff.2 hlegible
  exact ⟨hiff, hlegible, ⟨t, ht, hnodes.trans htenths⟩, hdeep,
    fun h => hdeep ((ofText_toText_iff (reachable_loneProperty _) .compact).1 h)⟩

def drifting : Double := .ofDecimal false 10000000000000005 (-17)

/-- The double below `drifting`, which is what its text is read as. -/
def drifted : Double := .ofDecimal false 10000000000000003 (-17)

/-- The store admits arrays whose text is refused, and a double whose text is another one. -/
theorem admitted_refused_or_altered :
    ((nested 123).objection? = none ∧
      (loneProperty (nested 123)).nodeList = [⟨⟨"Part", 1⟩, .ofList [("size", nested 123)]⟩] ∧
      ∀ layout, ofText ((loneProperty (nested 123)).toText layout) = .error .malformed) ∧
    (Value.float drifting).objection? = none ∧
      (loneProperty (.float drifting)).nodeList =
        [⟨⟨"Part", 1⟩, .ofList [("size", .float drifting)]⟩] ∧
      drifted ≠ drifting ∧
      ∀ layout, ∃ t, ofText ((loneProperty (.float drifting)).toText layout) = .ok t ∧
        t.nodeList = [⟨⟨"Part", 1⟩, .ofList [("size", .float drifted)]⟩] := by
  have hrefused : (Document.ofSource? nestingLimit
      (ofJson (Document.ofStore (loneProperty (nested 123))).toJson)).isNone = true := by
    decide +kernel
  have haltered : ((Document.ofSource? nestingLimit
      (ofJson (Document.ofStore (loneProperty (.float drifting))).toJson)).bind
        fun d => d.toStore.toOption).map nodeList =
      some [⟨⟨"Part", 1⟩, .ofList [("size", .float drifted)]⟩] := by
    decide +kernel
  refine ⟨⟨by decide +kernel, by decide +kernel, fun layout => ?_⟩, by decide +kernel,
    by decide +kernel, by decide +kernel, fun layout => ?_⟩
  · rw [ofText, read_toText_eq, Option.isNone_iff_eq_none.1 hrefused]
  · obtain ⟨t, ht, hnodes⟩ := Option.map_eq_some_iff.1 haltered
    obtain ⟨d, hd, ht⟩ := Option.bind_eq_some_iff.1 ht
    have hstore : d.toStore = .ok t := by
      cases hstore : d.toStore with
      | error why =>
        rw [hstore] at ht
        cases ht
      | ok u =>
        rw [hstore] at ht
        cases ht
        rfl
    refine ⟨t, ?_, hnodes⟩
    rw [ofText, read_toText_eq, hd]
    exact mapError_eq_ok_iff.2 hstore

end Store

end PropertyGraph
