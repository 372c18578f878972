import PropertyGraph.Proofs.Store.Reachable

/-! Indexed reads and scans. A scan goes through an arena slot by slot; what the store
answers from its adjacency rows and tag indices is what a scan finds, in the same order.
The reason is the same everywhere: an index lists the slots of the entities asked for in
ascending order, and there is only one such list. -/

namespace PropertyGraph

namespace Relationship

variable {r : Relationship} {d : Direction} {a b : NodeKey} {kind : Option String}

/-- The node is the end of the relationship that a direction starts from. -/
def Touches (r : Relationship) (d : Direction) (a : NodeKey) : Prop :=
  match d with
  | .outgoing => r.source = a
  | .incoming => r.target = a
  | .both => r.source = a ∨ r.target = a

instance (r : Relationship) (d : Direction) (a : NodeKey) : Decidable (r.Touches d a) :=
  match d with
  | .outgoing => inferInstanceAs (Decidable (r.source = a))
  | .incoming => inferInstanceAs (Decidable (r.target = a))
  | .both => inferInstanceAs (Decidable (r.source = a ∨ r.target = a))

/-- Followed in a direction, the relationship leads from one node to another. -/
def Joins (r : Relationship) (d : Direction) (a b : NodeKey) : Prop :=
  match d with
  | .outgoing => r.source = a ∧ r.target = b
  | .incoming => r.target = a ∧ r.source = b
  | .both => (r.source = a ∧ r.target = b) ∨ (r.target = a ∧ r.source = b)

/-- The relationship is of the kind asked for, if any is. -/
def IsKind (r : Relationship) (kind : Option String) : Prop := ∀ k ∈ kind, r.kind = k

instance (r : Relationship) (kind : Option String) : Decidable (r.IsKind kind) :=
  match kind with
  | none => isTrue nofun
  | some k => decidable_of_iff (r.kind = k) (by simp [IsKind])

theorem joins_iff : r.Joins d a b ↔ r.Touches d a ∧ r.otherEnd a = b := by
  unfold Joins Touches otherEnd
  cases d <;> grind

theorem joins_outgoing_iff_incoming : r.Joins .outgoing a b ↔ r.Joins .incoming b a :=
  and_comm

theorem otherEnd_eq_or (r : Relationship) (a : NodeKey) :
    r.otherEnd a = r.source ∨ r.otherEnd a = r.target := by
  unfold otherEnd
  split
  · exact .inr rfl
  · exact .inl rfl

theorem all_kind_iff : kind.all (r.kind == ·) = true ↔ r.IsKind kind := by
  cases kind <;> simp [IsKind]

end Relationship

namespace Store

open Arena

variable {s : Store} {n m : Node} {r : Relationship} {key : NodeKey} {kind : Option String}
  {d : Direction}

theorem mem_nodeList_iff : n ∈ s.nodeList ↔ ∃ i, s.nodeAt? i = some n := mem_contents_iff

theorem mem_relationshipList_iff : r ∈ s.relationshipList ↔ ∃ e, s.relationshipAt? e = some r :=
  mem_contents_iff

namespace Invariant

/-! ### Single entities -/

theorem node?_eq_some_iff (h : s.Invariant) :
    s.node? key = some n ↔ n ∈ s.nodeList ∧ n.key = key := h.nodes.indexed.find_eq_some_iff

theorem relationship?_eq_some_iff (h : s.Invariant) {id : Nat} :
    s.relationship? id = some r ↔ r ∈ s.relationshipList ∧ r.id = id :=
  h.relationships.indexed.find_eq_some_iff

theorem hasNode_iff (h : s.Invariant) :
    s.hasNode key = true ↔ ∃ n ∈ s.nodeList, n.key = key := h.nodes.indexed.contains_iff

theorem hasRelationship_iff (h : s.Invariant) {id : Nat} :
    s.hasRelationship id = true ↔ ∃ r ∈ s.relationshipList, r.id = id :=
  h.relationships.indexed.contains_iff

/-- Only one node has an identity. -/
theorem node_ext (h : s.Invariant) (hn : n ∈ s.nodeList) (hm : m ∈ s.nodeList)
    (hk : n.key = m.key) : n = m := by
  obtain ⟨i, hi⟩ := mem_nodeList_iff.1 hn
  obtain ⟨j, hj⟩ := mem_nodeList_iff.1 hm
  exact (h.nodes.indexed.unique hi hj hk).2

theorem relationship_ext (h : s.Invariant) {r x : Relationship} (hr : r ∈ s.relationshipList)
    (hx : x ∈ s.relationshipList) (hid : r.id = x.id) : r = x := by
  obtain ⟨i, hi⟩ := mem_relationshipList_iff.1 hr
  obtain ⟨j, hj⟩ := mem_relationshipList_iff.1 hx
  exact (h.relationships.indexed.unique hi hj hid).2

/-- Both ends of a relationship are there. -/
theorem end_live (h : s.Invariant) (hr : r ∈ s.relationshipList)
    (hk : key = r.source ∨ key = r.target) : ∃ n, s.node? key = some n := by
  obtain ⟨e, he⟩ := mem_relationshipList_iff.1 hr
  have hlive : ∃ i n, at? s.nodes i = some n ∧ n.key = key := by
    rcases hk with rfl | rfl
    · exact h.outgoing.side_live e r he
    · exact h.incoming.side_live e r he
  obtain ⟨i, n, hi, hn⟩ := hlive
  exact ⟨n, h.node?_eq_some_iff.2 ⟨mem_nodeList_iff.2 ⟨i, hi⟩, hn⟩⟩

theorem node_storable (h : s.Invariant) (hn : n ∈ s.nodeList) : n.Storable := by
  obtain ⟨i, hi⟩ := mem_nodeList_iff.1 hn
  exact h.nodes.storable i n hi

theorem relationship_storable (h : s.Invariant) (hr : r ∈ s.relationshipList) : r.Storable := by
  obtain ⟨e, he⟩ := mem_relationshipList_iff.1 hr
  exact h.relationships.storable e r he

theorem end_id_le (h : s.Invariant) (hr : r ∈ s.relationshipList)
    (hk : key = r.source ∨ key = r.target) : key.id ≤ greatestId := by
  obtain ⟨n, hn⟩ := h.end_live hr hk
  obtain ⟨hmem, rfl⟩ := h.node?_eq_some_iff.1 hn
  exact (h.node_storable hmem).id_le

/-! ### Adjacency -/

/-- What is adjacent to a node in a direction are the relationships that it is the right
end of. -/
theorem adjacent_enumerates (h : s.Invariant) {i : Nat} (hi : s.nodeAt? i = some n)
    (d : Direction) : Enumerates (s.adjacent i d) fun e =>
      ∃ r, at? s.relationships e = some r ∧ decide (r.Touches d n.key) = true := by
  have hout := h.outgoing.of_node i n hi
  have hin := h.incoming.of_node i n hi
  simp only [decide_eq_true_iff]
  cases d with
  | outgoing => exact hout.congr fun e => by simp only [Relationship.Touches, eq_comm]
  | incoming => exact hin.congr fun e => by simp only [Relationship.Touches, eq_comm]
  | both =>
    refine (hout.merge hin).congr fun e => ?_
    simp only [Relationship.Touches, ← exists_or, ← and_or_left, eq_comm]

theorem adjacent_eq_filter (h : s.Invariant) {i : Nat} (hi : s.nodeAt? i = some n)
    (d : Direction) : (s.adjacent i d).filterMap s.relationshipAt? =
      s.relationshipList.filter fun r => decide (r.Touches d n.key) :=
  filterMap_eq_filter (h.adjacent_enumerates hi d)

/-- A slot leads across a relationship of the kind, to the node at its other end. -/
theorem across?_eq_some_iff (h : s.Invariant) {e : Nat} :
    s.across? key kind e = some (m, r) ↔
      s.relationshipAt? e = some r ∧ r.IsKind kind ∧ m ∈ s.nodeList ∧ r.otherEnd key = m.key := by
  simp only [across?, Option.bind_eq_bind, Option.bind_eq_some_iff]
  constructor
  · rintro ⟨x, hx, hm⟩
    split at hm
    · next hkind =>
      obtain ⟨y, hy, hm⟩ := Option.bind_eq_some_iff.1 hm
      cases hm
      obtain ⟨hmem, hkey⟩ := h.node?_eq_some_iff.1 hy
      exact ⟨hx, Relationship.all_kind_iff.1 hkind, hmem, hkey.symm⟩
    · cases hm
  · rintro ⟨he, hkind, hmem, hkey⟩
    have hm : s.node? (r.otherEnd key) = some m := h.node?_eq_some_iff.2 ⟨hmem, hkey.symm⟩
    exact ⟨r, he, by rw [if_pos (Relationship.all_kind_iff.2 hkind), hm]; rfl⟩

/-- The other end is always there, so a slot leads across exactly if its relationship is
of the kind. -/
theorem across?_map_snd (h : s.Invariant) (e : Nat) :
    (s.across? key kind e).map Prod.snd =
      (s.relationshipAt? e).filter fun r => decide (r.IsKind kind) := by
  ext r
  rw [Option.map_eq_some_iff, Option.filter_eq_some_iff, decide_eq_true_iff]
  constructor
  · rintro ⟨⟨m, x⟩, hx, rfl⟩
    obtain ⟨he, hkind, -⟩ := h.across?_eq_some_iff.1 hx
    exact ⟨he, hkind⟩
  · rintro ⟨he, hkind⟩
    obtain ⟨m, hm⟩ := h.end_live (mem_relationshipList_iff.2 ⟨e, he⟩) (r.otherEnd_eq_or key)
    obtain ⟨hmem, hkey⟩ := h.node?_eq_some_iff.1 hm
    exact ⟨(m, r), h.across?_eq_some_iff.2 ⟨he, hkind, hmem, hkey.symm⟩, rfl⟩

/-- The neighbours of a node: their relationships are those that a scan finds, and each
comes with the node at its other end. -/
theorem neighbors_spec (h : s.Invariant) (hn : n ∈ s.nodeList) (kind : Option String)
    (d : Direction) : ∃ found, s.neighbors n.key kind d = .ok found ∧
      found.map Prod.snd =
        s.relationshipList.filter (fun r => decide (r.IsKind kind ∧ r.Touches d n.key)) ∧
      ∀ m r, (m, r) ∈ found ↔ m ∈ s.nodeList ∧ r ∈ s.relationshipList ∧ r.IsKind kind ∧
        r.Joins d n.key m.key := by
  obtain ⟨i, hi⟩ := mem_nodeList_iff.1 hn
  have hslot : s.nodeSlot n.key = .ok i := nodeSlot_eq_ok_iff.2 (h.nodes.indexed.get?_key hi)
  refine ⟨(s.adjacent i d).filterMap (s.across? n.key kind), ?_, ?_, ?_⟩
  · rw [neighbors, hslot]
    rfl
  · rw [List.map_filterMap, funext h.across?_map_snd, ← List.filter_filterMap,
      h.adjacent_eq_filter hi d, List.filter_filter]
    simp only [Bool.decide_and]
  · intro m r
    simp only [List.mem_filterMap, h.across?_eq_some_iff, (h.adjacent_enumerates hi d).mem_iff,
      decide_eq_true_iff, Relationship.joins_iff, mem_relationshipList_iff]
    constructor
    · rintro ⟨e, ⟨x, hx, htouches⟩, hr, hkind, hm, hkey⟩
      cases hx.symm.trans hr
      exact ⟨hm, ⟨e, hr⟩, hkind, htouches, hkey⟩
    · rintro ⟨hm, ⟨e, hr⟩, hkind, htouches, hkey⟩
      exact ⟨e, ⟨r, hr, htouches⟩, hr, hkind, hm, hkey⟩

/-- The neighbours of a node in terms of the scans of the store. -/
theorem neighbors_eq (h : s.Invariant) (key : NodeKey) (kind : Option String) (d : Direction) :
    s.neighbors key kind d = match s.node? key with
      | none => .error (.nodeNotFound key)
      | some _ => .ok ((s.relationshipList.filter fun r => decide (r.Touches d key)).filterMap
          fun r => if kind.all (r.kind == ·) then (s.node? (r.otherEnd key)).map (·, r)
            else none) := by
  cases hslot : s.nodeSlots.get? key with
  | none => simp [neighbors, nodeSlot, node?, hslot, bind, Except.bind]
  | some i =>
    obtain ⟨n, hi, rfl⟩ := (h.nodes.indexed key i).1 hslot
    have hn : s.node? n.key = some n := h.node?_eq_some_iff.2 ⟨mem_nodeList_iff.2 ⟨i, hi⟩, rfl⟩
    rw [neighbors, nodeSlot, hslot, hn, ← h.adjacent_eq_filter hi d, List.filterMap_filterMap]
    refine congrArg Except.ok (List.filterMap_congr fun e _ => ?_)
    simp only [across?, Option.bind_eq_bind]
    refine congrArg _ (funext fun r => ?_)
    split
    · rw [Option.map_eq_bind]
      rfl
    · rfl

/-- The first relationship found in the row of the source is the first that a scan finds.
Without the source there is no such relationship, since none dangles. -/
theorem findRelationship?_eq (h : s.Invariant) (kind : String) (source target : NodeKey) :
    s.findRelationship? kind source target =
      (s.relationshipList.find? fun r =>
        decide (r.kind = kind ∧ r.source = source ∧ r.target = target)).map (·.id) := by
  cases hslot : s.nodeSlots.get? source with
  | none =>
    have hnone : (s.relationshipList.find? fun r =>
        decide (r.kind = kind ∧ r.source = source ∧ r.target = target)) = none := by
      refine List.find?_eq_none.2 fun r hr hends => ?_
      obtain ⟨n, hn⟩ := h.end_live hr (.inl rfl)
      rw [(of_decide_eq_true hends).2.1, node?, hslot] at hn
      cases hn
    rw [findRelationship?, hslot, hnone]
    rfl
  | some i =>
    obtain ⟨n, hi, rfl⟩ := (h.nodes.indexed source i).1 hslot
    have hfind : findRelationship? s kind n.key target =
        (((s.adjacent i .outgoing).filterMap s.relationshipAt?).find? fun r =>
          r.kind == kind && r.target == target).map (·.id) := by
      rw [findRelationship?, hslot, Option.map_eq_bind]
      rfl
    rw [hfind, h.adjacent_eq_filter hi, List.find?_filter]
    congr 2
    funext r
    refine Bool.eq_iff_iff.2 ?_
    simp only [Bool.and_eq_true, beq_iff_eq, decide_eq_true_iff]
    exact and_left_comm

/-! ### Tags -/

theorem nodesLabeled_eq_filter (h : s.Invariant) (label : String) :
    s.nodesLabeled label = s.nodeList.filter fun n => decide (n.label = label) := by
  refine filterMap_eq_filter ((h.nodes.tagged label).congr fun i => ?_)
  simp only [decide_eq_true_iff]

/-- The label of a node that is there is known. -/
theorem hasLabel_of_mem (h : s.Invariant) (hn : n ∈ s.nodeList) : s.hasLabel n.label = true := by
  obtain ⟨i, hi⟩ := mem_nodeList_iff.1 hn
  have hmem := ((h.nodes.tagged n.label).mem_iff i).2 ⟨n, hi, rfl⟩
  rw [hasLabel, OrderedMap.contains_iff]
  cases hget : s.labels.get? n.label with
  | none => simp [hget] at hmem
  | some slots => exact ⟨slots, rfl⟩

theorem relationshipsOfKind_eq_filter (h : s.Invariant) (kind : String) :
    s.relationshipsOfKind kind = s.relationshipList.filter fun r => decide (r.kind = kind) := by
  refine filterMap_eq_filter ((h.relationships.tagged kind).congr fun e => ?_)
  simp only [decide_eq_true_iff]

end Invariant

/-! ### Agreement -/

/-- All indexed reads give what scans of the two arenas give. -/
structure ReadsAsScanned (s : Store) : Prop where
  neighbors : ∀ n ∈ s.nodeList, ∀ kind d, ∃ found, s.neighbors n.key kind d = .ok found ∧
    found.map Prod.snd =
      s.relationshipList.filter (fun r => decide (r.IsKind kind ∧ r.Touches d n.key)) ∧
    ∀ m r, (m, r) ∈ found → m ∈ s.nodeList ∧ r.Joins d n.key m.key
  reversed : ∀ n ∈ s.nodeList, ∀ m ∈ s.nodeList, ∀ kind found back,
    s.neighbors n.key kind .outgoing = .ok found → s.neighbors m.key kind .incoming = .ok back →
    ∀ r, (m, r) ∈ found ↔ (n, r) ∈ back
  nodesLabeled : ∀ label,
    s.nodesLabeled label = s.nodeList.filter fun n => decide (n.label = label)
  relationshipsOfKind : ∀ kind,
    s.relationshipsOfKind kind = s.relationshipList.filter fun r => decide (r.kind = kind)
  findRelationship? : ∀ kind source target, s.findRelationship? kind source target =
    (s.relationshipList.find? fun r =>
      decide (r.kind = kind ∧ r.source = source ∧ r.target = target)).map (·.id)
  nodeCount : s.nodeCount = s.nodeList.length
  relationshipCount : s.relationshipCount = s.relationshipList.length

theorem readsAsScanned_of_reachable (h : s.Reachable) : s.ReadsAsScanned where
  neighbors n hn kind d := by
    obtain ⟨found, hfound, hscan, hmem⟩ := h.invariant.neighbors_spec hn kind d
    refine ⟨found, hfound, hscan, fun m r hr => ?_⟩
    obtain ⟨hm, -, -, hjoins⟩ := (hmem m r).1 hr
    exact ⟨hm, hjoins⟩
  reversed n hn m hm kind found back hfound hback r := by
    obtain ⟨found', hfound', -, hmem⟩ := h.invariant.neighbors_spec hn kind .outgoing
    obtain ⟨back', hback', -, hmem'⟩ := h.invariant.neighbors_spec hm kind .incoming
    cases hfound.symm.trans hfound'
    cases hback.symm.trans hback'
    rw [hmem, hmem', Relationship.joins_outgoing_iff_incoming]
    simp only [hn, hm, true_and]
  nodesLabeled := h.invariant.nodesLabeled_eq_filter
  relationshipsOfKind := h.invariant.relationshipsOfKind_eq_filter
  findRelationship? := h.invariant.findRelationship?_eq
  nodeCount := h.invariant.nodes.indexed.size_eq
  relationshipCount := h.invariant.relationships.indexed.size_eq

/-- Two people of whom one knows both; that the other one knows the first was taken back. -/
def acquaintances : Store := history [.createNode "Person" none ∅, .createNode "Person" none ∅,
  .createRelationship "KNOWS" ⟨"Person", 1⟩ ⟨"Person", 1⟩ ∅,
  .createRelationship "KNOWS" ⟨"Person", 2⟩ ⟨"Person", 1⟩ ∅,
  .createRelationship "KNOWS" ⟨"Person", 1⟩ ⟨"Person", 2⟩ ∅, .deleteRelationship 2]

theorem reachable_acquaintances : acquaintances.Reachable := ⟨_, rfl⟩

theorem readsAsScanned_acquaintances :
    acquaintances.relationshipList.map (·.id) = [1, 3] ∧ acquaintances.ReadsAsScanned :=
  ⟨by decide, readsAsScanned_of_reachable reachable_acquaintances⟩

end Store

end PropertyGraph
