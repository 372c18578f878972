import PropertyGraph.Proofs.Document.Recovery
import PropertyGraph.Proofs.Value.Conversion

/-! Acceptance of documents. An entry is judged by the entries before it: relationships
also by all nodes. A document is taken over exactly if it is well formed, and what the store
holds then is the document again, with its numbers rounded; otherwise the first entry that
is wrong is refused for the first thing that is wrong with it. -/

namespace PropertyGraph

open Store

/-! ### Entries -/

namespace NodeEntry

def key (e : NodeEntry) : NodeKey := ⟨e.label, e.id⟩

def rounded (e : NodeEntry) : NodeEntry := { e with properties := Bag.rounded e.properties }

/-- The first check of the store that an entry with proper values fails after entries of these
identities. -/
def checkFault? (before : List NodeKey) (e : NodeEntry) : Option StoreError :=
  (if e.key ∈ before then some (.duplicateNode e.key) else none).or <|
  (if greatestId < e.id then some (.invalidProperty "id" (.idTooLarge e.id)) else none).or <|
  (if e.properties.contains "id" then some (.invalidProperty "id" .partOfIdentity) else none).or <|
  if e.properties.contains "" then some (.invalidProperty "" .emptyName) else none

/-- The first thing that is wrong with an entry after entries of these identities. -/
def fault? (before : List NodeKey) (e : NodeEntry) : Option StoreError :=
  (Bag.foreign? e.properties.entries).or (e.checkFault? before)

/-- Nothing is wrong with the entry by itself. -/
structure Valid (e : NodeEntry) : Prop where
  plain : ∀ p ∈ e.properties.entries, p.2.Plain
  id_le : e.id ≤ greatestId
  no_id : e.properties.contains "id" = false
  no_empty : e.properties.contains "" = false

theorem fault?_eq_none_iff (before : List NodeKey) (e : NodeEntry) :
    e.fault? before = none ↔ e.Valid ∧ e.key ∉ before := by
  simp only [fault?, checkFault?, Option.or_eq_none_iff, Bag.foreign?_eq_none_iff, ite_eq_right_iff,
    reduceCtorEq, imp_false, Nat.not_lt, Bool.not_eq_true]
  constructor
  · rintro ⟨hplain, hnew, hid, hno, hempty⟩
    exact ⟨⟨hplain, hid, hno, hempty⟩, hnew⟩
  · rintro ⟨⟨hplain, hid, hno, hempty⟩, hnew⟩
    exact ⟨hplain, hnew, hid, hno, hempty⟩

end NodeEntry

namespace RelationshipEntry

def rounded (e : RelationshipEntry) : RelationshipEntry :=
  { e with properties := Bag.rounded e.properties }

/-- The first check of the store that an entry with proper values fails among nodes of these
identities and after entries of these ids. -/
def checkFault? (nodes : List NodeKey) (before : List Nat) (e : RelationshipEntry) :
    Option StoreError :=
  (if e.id ∈ before then some (.duplicateRelationship e.id) else none).or <|
  (if greatestId < e.id then some (.invalidProperty "id" (.idTooLarge e.id)) else none).or <|
  (if e.source ∉ nodes then some (.nodeNotFound e.source) else none).or <|
  (if e.target ∉ nodes then some (.nodeNotFound e.target) else none).or <|
  if e.properties.contains "" then some (.invalidProperty "" .emptyName) else none

def fault? (nodes : List NodeKey) (before : List Nat) (e : RelationshipEntry) :
    Option StoreError :=
  (Bag.foreign? e.properties.entries).or (e.checkFault? nodes before)

structure Valid (nodes : List NodeKey) (e : RelationshipEntry) : Prop where
  plain : ∀ p ∈ e.properties.entries, p.2.Plain
  id_le : e.id ≤ greatestId
  source_mem : e.source ∈ nodes
  target_mem : e.target ∈ nodes
  no_empty : e.properties.contains "" = false

theorem fault?_eq_none_iff (nodes : List NodeKey) (before : List Nat) (e : RelationshipEntry) :
    e.fault? nodes before = none ↔ e.Valid nodes ∧ e.id ∉ before := by
  simp only [fault?, checkFault?, Option.or_eq_none_iff, Bag.foreign?_eq_none_iff, ite_eq_right_iff,
    reduceCtorEq, imp_false, Nat.not_lt, Bool.not_eq_true, not_not]
  constructor
  · rintro ⟨hplain, hnew, hid, hsource, htarget, hempty⟩
    exact ⟨⟨hplain, hid, hsource, htarget, hempty⟩, hnew⟩
  · rintro ⟨⟨hplain, hid, hsource, htarget, hempty⟩, hnew⟩
    exact ⟨hplain, hnew, hid, hsource, htarget, hempty⟩

end RelationshipEntry

/-! ### Documents -/

namespace Document

def nodeKeys (d : Document) : List NodeKey := d.nodes.map NodeEntry.key

def relationshipIds (d : Document) : List Nat := d.relationships.map (·.id)

def rounded (d : Document) : Document :=
  ⟨d.nodes.map NodeEntry.rounded, d.relationships.map RelationshipEntry.rounded⟩

/-- The numbers of the document are such as a text can give. -/
structure Fits (d : Document) : Prop where
  nodes : ∀ e ∈ d.nodes, ∀ p ∈ e.properties.entries, p.2.Fits
  relationships : ∀ e ∈ d.relationships, ∀ p ∈ e.properties.entries, p.2.Fits

structure WellFormed (d : Document) : Prop where
  nodeKeys_nodup : d.nodeKeys.Nodup
  relationshipIds_nodup : d.relationshipIds.Nodup
  nodes : ∀ e ∈ d.nodes, e.Valid
  relationships : ∀ e ∈ d.relationships, e.Valid d.nodeKeys

/-- What the first entry that is wrong is refused for. -/
def fault? (d : Document) : Option StoreError :=
  (firstFault? NodeEntry.fault? NodeEntry.key [] d.nodes).or
    (firstFault? (RelationshipEntry.fault? d.nodeKeys) RelationshipEntry.id [] d.relationships)

theorem nodes_fault?_eq_none_iff (entries : List NodeEntry) :
    firstFault? NodeEntry.fault? NodeEntry.key [] entries = none ↔
      (∀ e ∈ entries, e.Valid) ∧ (entries.map NodeEntry.key).Nodup :=
  firstFault?_eq_none_iff NodeEntry.fault?_eq_none_iff .nil

theorem relationships_fault?_eq_none_iff (nodes : List NodeKey)
    (entries : List RelationshipEntry) :
    firstFault? (RelationshipEntry.fault? nodes) RelationshipEntry.id [] entries = none ↔
      (∀ e ∈ entries, e.Valid nodes) ∧ (entries.map RelationshipEntry.id).Nodup :=
  firstFault?_eq_none_iff (RelationshipEntry.fault?_eq_none_iff nodes) .nil

theorem fault?_eq_none_iff (d : Document) : d.fault? = none ↔ d.WellFormed := by
  rw [fault?, Option.or_eq_none_iff, nodes_fault?_eq_none_iff, relationships_fault?_eq_none_iff]
  constructor
  · rintro ⟨⟨hnodes, hkeys⟩, hrelationships, hids⟩
    exact ⟨hkeys, hids, hnodes, hrelationships⟩
  · intro h
    exact ⟨⟨h.nodes, h.nodeKeys_nodup⟩, h.relationships, h.relationshipIds_nodup⟩

/-- The document is refused at an entry; what comes before the entry is well formed. -/
inductive Refused (d : Document) (why : StoreError) : Prop where
  | node (front : List NodeEntry) (e : NodeEntry) (back : List NodeEntry) :
    d.nodes = front ++ e :: back → WellFormed ⟨front, []⟩ →
    e.fault? (front.map NodeEntry.key) = some why → Refused d why
  | relationship (front : List RelationshipEntry) (e : RelationshipEntry)
      (back : List RelationshipEntry) :
    d.relationships = front ++ e :: back → WellFormed ⟨d.nodes, front⟩ →
    e.fault? d.nodeKeys (front.map (·.id)) = some why → Refused d why

theorem fault?_eq_some_iff (d : Document) {why : StoreError} :
    d.fault? = some why ↔ d.Refused why := by
  rw [fault?, Option.or_eq_some_iff, firstFault?_eq_some_iff, firstFault?_eq_some_iff]
  constructor
  · rintro (⟨front, e, back, hl, hfront, he⟩ | ⟨hnodes, front, e, back, hl, hfront, he⟩)
    · have hwell : WellFormed ⟨front, []⟩ :=
        (fault?_eq_none_iff _).1 (Option.or_eq_none_iff.2 ⟨hfront, rfl⟩)
      exact .node front e back hl hwell he
    · have hwell : WellFormed ⟨d.nodes, front⟩ :=
        (fault?_eq_none_iff _).1 (Option.or_eq_none_iff.2 ⟨hnodes, hfront⟩)
      exact .relationship front e back hl hwell he
  · rintro (⟨front, e, back, hl, hwell, he⟩ | ⟨front, e, back, hl, hwell, he⟩)
    · have hnone := Option.or_eq_none_iff.1 ((fault?_eq_none_iff _).2 hwell)
      exact .inl ⟨front, e, back, hl, hnone.1, he⟩
    · have hnone := Option.or_eq_none_iff.1 ((fault?_eq_none_iff _).2 hwell)
      exact .inr ⟨hnone.1, front, e, back, hl, hnone.2, he⟩

end Document

/-! ### Taking entries over -/

namespace Store

theorem apply_map_snd (c : Change Unit) (s : Store) : (c.apply s).map Prod.snd =
    match c.run s with
    | .ok _ t => .ok t
    | .error why _ => .error why := by
  unfold Change.apply
  cases c.run s <;> rfl

theorem recoverNode_eq (s : Store) (n : Node) :
    s.recoverNode n = (do
      s.checkNewNode n.key
      checkId n.key.id
      checkNodeProperties n.properties
      .ok (s.insertNode n)) := by
  rw [recoverNode, apply_map_snd, Change.recoverNode, Change.run_ask_bind]
  cases s.checkNewNode n.key with
  | error why => rfl
  | ok _ =>
    simp only [Change.run_require_bind]
    cases checkId n.key.id with
    | error why => rfl
    | ok _ => cases checkNodeProperties n.properties <;> rfl

theorem recoverRelationship_eq (s : Store) (r : Relationship) :
    s.recoverRelationship r = (do
      s.checkNewRelationship r.id
      checkId r.id
      let a ← s.nodeSlot r.source
      let b ← s.nodeSlot r.target
      checkProperties r.properties
      .ok ({ s with
        nextRelationshipId := max s.nextRelationshipId (r.id + 1) }.insertRelationship r a b)) := by
  rw [recoverRelationship, apply_map_snd, Change.recoverRelationship, Change.run_ask_bind]
  cases s.checkNewRelationship r.id with
  | error why => rfl
  | ok _ =>
    simp only [Change.run_require_bind]
    cases checkId r.id with
    | error why => rfl
    | ok _ =>
      simp only [Change.run_ask_bind]
      cases s.nodeSlot r.source with
      | error why => rfl
      | ok a =>
        dsimp only
        cases s.nodeSlot r.target with
        | error why => rfl
        | ok b =>
          simp only [Change.run_require_bind]
          cases checkProperties r.properties <;> rfl

namespace Holds

variable {s : Store} {nodes : List Node} {relationships : List Relationship}

theorem hasNode_iff (h : s.Holds nodes relationships) (key : NodeKey) :
    s.hasNode key = true ↔ key ∈ nodes.map Node.key := by
  rw [h.invariant.hasNode_iff, h.nodeList, List.mem_map]

theorem hasRelationship_iff (h : s.Holds nodes relationships) (id : Nat) :
    s.hasRelationship id = true ↔ id ∈ relationships.map Relationship.id := by
  rw [h.invariant.hasRelationship_iff, h.relationshipList, List.mem_map]

/-! The checks of the store that holds the entities are tests of these. -/

theorem judged_checkNewNode (h : s.Holds nodes relationships) (key : NodeKey) :
    Judged (s.checkNewNode key)
      (if key ∈ nodes.map Node.key then some (.duplicateNode key) else none)
      fun _ => s.nodeSlots.get? key = none := by
  refine .test _ (h.hasNode_iff key) fun hnew => OrderedMap.contains_eq_false_iff.1 ?_
  exact Bool.eq_false_iff.2 fun hhas => hnew ((h.hasNode_iff key).1 hhas)

theorem judged_checkNewRelationship (h : s.Holds nodes relationships) (id : Nat) :
    Judged (s.checkNewRelationship id)
      (if id ∈ relationships.map Relationship.id then some (.duplicateRelationship id) else none)
      fun _ => s.relationshipSlots.get? id = none := by
  refine .test _ (h.hasRelationship_iff id) fun hnew => OrderedMap.contains_eq_false_iff.1 ?_
  exact Bool.eq_false_iff.2 fun hhas => hnew ((h.hasRelationship_iff id).1 hhas)

theorem judged_nodeSlot (h : s.Holds nodes relationships) (key : NodeKey) :
    Judged (s.nodeSlot key)
      (if key ∉ nodes.map Node.key then some (.nodeNotFound key) else none)
      fun i => s.nodeSlots.get? key = some i := by
  have hmem := h.hasNode_iff key
  rw [hasNode, OrderedMap.contains] at hmem
  rw [nodeSlot]
  cases hslot : s.nodeSlots.get? key with
  | none =>
    rw [hslot] at hmem
    rw [if_pos fun hin => by simpa using hmem.2 hin]
    exact .error _
  | some i =>
    rw [hslot] at hmem
    rw [if_neg (not_not.2 (hmem.1 rfl))]
    exact .ok rfl

/-- A node is checked as the entry that it comes from. -/
theorem judged_recoverNode (h : s.Holds nodes relationships) {e : NodeEntry} {n : Node}
    (hn : .ofNode n = e.rounded) (hfinite : ∀ p ∈ n.properties.entries, p.2.IsFinite) :
    Judged (s.recoverNode n) (e.checkFault? (nodes.map Node.key)) fun t =>
      t.Holds (nodes ++ [n]) relationships := by
  have hkey : n.key = e.key := congrArg NodeEntry.key hn
  have hcontains := Bag.contains_of_toJsonMap (congrArg NodeEntry.properties hn)
  have hid : n.key.id = e.id := congrArg NodeEntry.id hn
  rw [recoverNode_eq, NodeEntry.checkFault?, ← hkey, ← hid, ← hcontains, ← hcontains]
  refine (h.judged_checkNewNode n.key).bind fun _ hfree => ?_
  refine (judged_checkId n.key.id).bind fun _ hid => ?_
  refine (judged_checkNodeProperties hfinite).bind_ok fun _ hproperties => ?_
  exact h.of_run_recoverNode ((Change.run_recoverNode_eq_ok_iff (x := ())).2 ⟨hfree,
    checkId_eq_ok_iff.2 hid, checkNodeProperties_eq_ok_iff.2 hproperties, rfl⟩)

theorem judged_recoverRelationship (h : s.Holds nodes relationships) {e : RelationshipEntry}
    {r : Relationship} (hr : .ofRelationship r = e.rounded)
    (hfinite : ∀ p ∈ r.properties.entries, p.2.IsFinite) :
    Judged (s.recoverRelationship r)
      (e.checkFault? (nodes.map Node.key) (relationships.map Relationship.id)) fun t =>
      t.Holds nodes (relationships ++ [r]) := by
  have hid : r.id = e.id := congrArg RelationshipEntry.id hr
  have hsource : r.source = e.source := congrArg RelationshipEntry.source hr
  have htarget : r.target = e.target := congrArg RelationshipEntry.target hr
  have hcontains := Bag.contains_of_toJsonMap (congrArg RelationshipEntry.properties hr)
  rw [recoverRelationship_eq, RelationshipEntry.checkFault?, ← hid, ← hsource, ← htarget,
    ← hcontains]
  refine (h.judged_checkNewRelationship r.id).bind fun _ hfree => ?_
  refine (judged_checkId r.id).bind fun _ hid => ?_
  refine (h.judged_nodeSlot r.source).bind fun a ha => ?_
  refine (h.judged_nodeSlot r.target).bind fun b hb => ?_
  refine (judged_checkProperties hfinite).bind_ok fun _ hproperties => ?_
  exact h.of_run_recoverRelationship ((Change.run_recoverRelationship_eq_ok_iff (x := ())).2
    ⟨a, b, hfree, checkId_eq_ok_iff.2 hid, ha, hb, checkProperties_eq_ok_iff.2 hproperties, rfl⟩)

end Holds

end Store

namespace NodeEntry

theorem judged_node {e : NodeEntry} (h : ∀ p ∈ e.properties.entries, p.2.Fits) :
    Judged e.node (Bag.foreign? e.properties.entries) fun n =>
      ofNode n = e.rounded ∧ ∀ p ∈ n.properties.entries, p.2.IsFinite := by
  refine (Bag.judged_ofJsonMap h).bind_ok fun b hb => ⟨?_, hb.2⟩
  rw [ofNode, rounded, hb.1]
  rfl

end NodeEntry

namespace RelationshipEntry

theorem judged_relationship {e : RelationshipEntry}
    (h : ∀ p ∈ e.properties.entries, p.2.Fits) :
    Judged e.relationship (Bag.foreign? e.properties.entries) fun r =>
      ofRelationship r = e.rounded ∧ ∀ p ∈ r.properties.entries, p.2.IsFinite := by
  refine (Bag.judged_ofJsonMap h).bind_ok fun b hb => ⟨?_, hb.2⟩
  rw [ofRelationship, rounded, hb.1]

end RelationshipEntry

/-! ### Taking documents over -/

namespace Document

/-- The store holds the nodes of the entries and these relationships. -/
def TakenNodes (s : Store) (entries : List NodeEntry) : Prop :=
  ∃ nodes, s.Holds nodes [] ∧ nodes.map NodeEntry.ofNode = entries.map NodeEntry.rounded

/-- The store holds the nodes and the relationships of the entries. -/
def Taken (d : Document) (s : Store) (entries : List RelationshipEntry) : Prop :=
  ∃ nodes relationships, s.Holds nodes relationships ∧
    nodes.map NodeEntry.ofNode = d.nodes.map NodeEntry.rounded ∧
    relationships.map RelationshipEntry.ofRelationship = entries.map RelationshipEntry.rounded

/-! Entries are rounded in their properties only. -/

theorem keys_of_map_ofNode {nodes : List Node} {entries : List NodeEntry}
    (h : nodes.map NodeEntry.ofNode = entries.map NodeEntry.rounded) :
    nodes.map Node.key = entries.map NodeEntry.key := by
  have hkeys := congrArg (List.map NodeEntry.key) h
  rwa [List.map_map, List.map_map] at hkeys

theorem ids_of_map_ofRelationship {relationships : List Relationship}
    {entries : List RelationshipEntry} (h : relationships.map RelationshipEntry.ofRelationship =
      entries.map RelationshipEntry.rounded) :
    relationships.map Relationship.id = entries.map RelationshipEntry.id := by
  have hids := congrArg (List.map RelationshipEntry.id) h
  rwa [List.map_map, List.map_map] at hids

theorem judged_addNode {s : Store} {taken : List NodeEntry} (h : TakenNodes s taken)
    {e : NodeEntry} (he : ∀ p ∈ e.properties.entries, p.2.Fits) :
    Judged (addNode s e) (e.fault? (taken.map NodeEntry.key)) fun t =>
      TakenNodes t (taken ++ [e]) := by
  obtain ⟨nodes, hholds, htaken⟩ := h
  rw [addNode, NodeEntry.fault?, ← keys_of_map_ofNode htaken]
  refine (NodeEntry.judged_node he).bind fun n hn => ?_
  refine (hholds.judged_recoverNode hn.1 hn.2).mono fun t ht => ⟨_, ht, ?_⟩
  rw [List.map_append, List.map_append, htaken, List.map_singleton, hn.1, List.map_singleton]

theorem judged_addRelationship {d : Document} {s : Store} {taken : List RelationshipEntry}
    (h : d.Taken s taken) {e : RelationshipEntry} (he : ∀ p ∈ e.properties.entries, p.2.Fits) :
    Judged (addRelationship s e) (e.fault? d.nodeKeys (taken.map RelationshipEntry.id)) fun t =>
      d.Taken t (taken ++ [e]) := by
  obtain ⟨nodes, relationships, hholds, hnodes, htaken⟩ := h
  rw [addRelationship, RelationshipEntry.fault?, nodeKeys, ← keys_of_map_ofNode hnodes,
    ← ids_of_map_ofRelationship htaken]
  refine (RelationshipEntry.judged_relationship he).bind fun r hr => ?_
  refine (hholds.judged_recoverRelationship hr.1 hr.2).mono fun t ht => ⟨_, _, ht, hnodes, ?_⟩
  rw [List.map_append, List.map_append, htaken, List.map_singleton, hr.1, List.map_singleton]

/-- A document is judged by its first fault. The store made from it has the document that the
first one is when its numbers are rounded. -/
theorem judged_toStore {d : Document} (hd : d.Fits) :
    Judged d.toStore d.fault? fun t => ofStore t = d.rounded := by
  have hempty : TakenNodes .empty [] := ⟨[], .empty, rfl⟩
  have hnodes : Judged (d.nodes.foldlM addNode .empty)
      (firstFault? NodeEntry.fault? NodeEntry.key [] d.nodes) fun s => TakenNodes s d.nodes :=
    Judged.foldlM (p := TakenNodes) (fun _ _ e he h => judged_addNode h (hd.nodes e he)) hempty
  rw [toStore, fault?]
  refine hnodes.bind fun s ⟨nodes, hholds, hs⟩ => ?_
  have hnone : d.Taken s [] := ⟨nodes, [], hholds, hs, rfl⟩
  have hrelationships : Judged (d.relationships.foldlM addRelationship s)
      (firstFault? (RelationshipEntry.fault? d.nodeKeys) RelationshipEntry.id [] d.relationships)
      fun t => d.Taken t d.relationships :=
    Judged.foldlM (p := d.Taken)
      (fun _ _ e he h => judged_addRelationship h (hd.relationships e he)) hnone
  refine hrelationships.mono fun t ⟨_, _, ht, hn, hr⟩ => ?_
  rw [ofStore, rounded, ht.nodeList, ht.relationshipList, hn, hr]

/-- Documents are accepted exactly if they are well formed. What is accepted comes back in the
same order, and otherwise the first entry that is wrong tells the reason. -/
theorem toStore_spec (d : Document) (hd : d.Fits) :
    ((∃ t, d.toStore = .ok t) ↔ d.WellFormed) ∧
      (∀ t, d.toStore = .ok t → ofStore t = d.rounded) ∧
      ∀ why, d.toStore = .error why ↔ d.Refused why := by
  have h := judged_toStore hd
  refine ⟨?_, fun t => h.of_eq_ok, fun why => ?_⟩
  · rw [h.eq_ok_iff, fault?_eq_none_iff]
  · rw [h.eq_error_iff, fault?_eq_some_iff]

/-- A city with an area that only an unsigned word holds, and a road from it to a city that is
not in the document. -/
def atlas : Document :=
  ⟨[⟨"City", 1, .ofList [("area", .array [.number (.integer (2 ^ 63))])]⟩],
    [⟨"ROAD", 7, ⟨"City", 1⟩, ⟨"City", 2⟩, ∅⟩]⟩

/-- The city alone. -/
def chart : Document :=
  ⟨[⟨"City", 1, .ofList [("area", .array [.number (.integer (2 ^ 63))])]⟩], []⟩

/-- The road makes the one document refused. The other one is accepted, and comes back with the
area as a float. -/
theorem toStore_spec_atlas : (atlas.Fits ∧ ((∃ t, atlas.toStore = .ok t) ↔ atlas.WellFormed) ∧
      (∀ t, atlas.toStore = .ok t → ofStore t = atlas.rounded) ∧
      ∀ why, atlas.toStore = .error why ↔ atlas.Refused why) ∧
    atlas.toStore = .error (.nodeNotFound ⟨"City", 2⟩) ∧
    chart.Fits ∧ chart.WellFormed ∧ ∃ t, chart.toStore = .ok t ∧ ofStore t =
      ⟨[⟨"City", 1, .ofList [("area", .array [.number (.float (.ofInt (2 ^ 63)))])]⟩], []⟩ := by
  have hbag : ∀ p ∈ [("area", Json.array [.number (.integer (2 ^ 63))])], p.2.Fits :=
    List.forall_mem_singleton.2
      (.array (List.forall_mem_singleton.2 (.number ⟨by decide, by decide⟩)))
  have hatlas : atlas.Fits :=
    ⟨List.forall_mem_singleton.2 hbag, List.forall_mem_singleton.2 nofun⟩
  have hchart : chart.Fits := ⟨List.forall_mem_singleton.2 hbag, nofun⟩
  have hrefused : atlas.Refused (.nodeNotFound ⟨"City", 2⟩) :=
    (fault?_eq_some_iff atlas).1 (by decide +kernel)
  have hwell : chart.WellFormed := (fault?_eq_none_iff chart).1 (by decide +kernel)
  obtain ⟨hok, hcomesBack, -⟩ := toStore_spec chart hchart
  obtain ⟨t, ht⟩ := hok.2 hwell
  refine ⟨⟨hatlas, toStore_spec atlas hatlas⟩, ((toStore_spec atlas hatlas).2.2 _).2 hrefused,
    hchart, hwell, t, ht, ?_⟩
  rw [hcomesBack t ht]
  rfl

end Document

end PropertyGraph
