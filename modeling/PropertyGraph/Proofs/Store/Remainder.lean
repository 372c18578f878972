import PropertyGraph.Proofs.Store.Retention

/-! What deletions leave. A deletion takes its entities out of the two scans and leaves the
others in their places; nothing else that is read changes, neither the tags that are known
nor the counters. Reads are told by the scans, so every read gives what it gave before,
without what is gone. -/

namespace PropertyGraph

/-- Filtering the slots of an arena filters what they hold. -/
theorem Arena.contents_eq_filter {α : Type} {arena arena' : Array (Option α)} {p : α → Bool}
    (hsize : arena'.size = arena.size) (hat : ∀ i, at? arena' i = (at? arena i).filter p) :
    contents arena' = (contents arena).filter p := by
  rw [contents_eq_filterMap, contents_eq_filterMap, hsize, List.filter_filterMap]
  exact List.filterMap_congr fun i _ => hat i

namespace Store

open Arena

variable {s t : Store} {p : Node → Bool} {q : Relationship → Bool} {n m : Node}
  {r : Relationship} {key : NodeKey} {e i : Nat}

/-- Of the entities in `s` those with a property are in `t`, and nothing else is different. -/
structure Leaves (s t : Store) (p : Node → Bool) (q : Relationship → Bool) : Prop where
  invariant : t.Invariant
  nodeList : t.nodeList = s.nodeList.filter p
  relationshipList : t.relationshipList = s.relationshipList.filter q
  hasLabel : ∀ label, t.hasLabel label = s.hasLabel label
  hasKind : ∀ kind, t.hasKind kind = s.hasKind kind
  nextNodeIds : t.nextNodeIds = s.nextNodeIds
  nextRelationshipId : t.nextRelationshipId = s.nextRelationshipId

/-! ### Known tags -/

theorem hasKind_detach (s : Store) (e : Nat) (kind : String) :
    (s.detach e).hasKind kind = s.hasKind kind := OrderedMap.contains_congr (kinds_detach s e) kind

theorem hasKind_removeNode (s : Store) (key : NodeKey) (i : Nat) (n : Node) (kind : String) :
    (s.removeNode key i n).hasKind kind = s.hasKind kind :=
  OrderedMap.contains_congr (kinds_removeNode s key i n) kind

theorem hasLabel_detach (s : Store) (e : Nat) (label : String) :
    (s.detach e).hasLabel label = s.hasLabel label := by
  rw [hasLabel, hasLabel, (sameNodes_detach s e).labels]

theorem hasLabel_removeNode (s : Store) (key : NodeKey) (i : Nat) (n : Node) (label : String) :
    (s.removeNode key i n).hasLabel label = s.hasLabel label :=
  OrderedMap.contains_congr (labels_removeNode s key i n) label

/-! ### Deletions -/

theorem Retains.leaves (h : s.Retains t p q) : s.Leaves t p q where
  invariant := h.invariant
  nodeList := contents_eq_filter h.nodes_size h.nodeAt?
  relationshipList := contents_eq_filter h.relationships_size h.relationshipAt?
  hasLabel := OrderedMap.contains_congr h.labels
  hasKind := OrderedMap.contains_congr h.kinds
  nextNodeIds := h.nextNodeIds
  nextRelationshipId := h.nextRelationshipId

namespace Invariant

/-- Only the relationship goes. -/
theorem deleteRelationship_leaves (h : s.Invariant) (hr : r ∈ s.relationshipList) :
    ∃ t, s.deleteRelationship r.id = .ok (r, t) ∧
      s.Leaves t (fun _ => true) fun x => decide (x.id ≠ r.id) := by
  obtain ⟨e, he⟩ := Store.mem_relationshipList_iff.1 hr
  obtain ⟨t, hrun, ht⟩ := h.deletes_relationship he
  exact ⟨t, Change.apply_eq_ok_iff.2 hrun, ht.leaves⟩

/-- The node goes with every relationship that starts or ends at it. -/
theorem deleteNode_leaves (h : s.Invariant) (hn : n ∈ s.nodeList) :
    ∃ t, s.deleteNode n.key = .ok (n, t) ∧
      s.Leaves t (fun m => decide (m.key ≠ n.key)) fun r => decide (¬ r.Touches .both n.key) := by
  obtain ⟨i, hi⟩ := Store.mem_nodeList_iff.1 hn
  obtain ⟨t, hrun, ht⟩ := h.deletes_node hi
  exact ⟨t, Change.apply_eq_ok_iff.2 hrun, ht.leaves⟩

end Invariant

/-! ### Reading what is left -/

namespace Leaves

theorem mem_nodeList_iff (h : s.Leaves t p q) : n ∈ t.nodeList ↔ n ∈ s.nodeList ∧ p n = true := by
  rw [h.nodeList, List.mem_filter]

theorem mem_relationshipList_iff (h : s.Leaves t p q) :
    r ∈ t.relationshipList ↔ r ∈ s.relationshipList ∧ q r = true := by
  rw [h.relationshipList, List.mem_filter]

theorem node?_eq (h : s.Leaves t p q) (hs : s.Invariant) (key : NodeKey) :
    t.node? key = (s.node? key).filter p := by
  ext n
  rw [h.invariant.node?_eq_some_iff, Option.filter_eq_some_iff, hs.node?_eq_some_iff,
    h.mem_nodeList_iff, and_right_comm]

theorem relationship?_eq (h : s.Leaves t p q) (hs : s.Invariant) (id : Nat) :
    t.relationship? id = (s.relationship? id).filter q := by
  ext r
  rw [h.invariant.relationship?_eq_some_iff, Option.filter_eq_some_iff,
    hs.relationship?_eq_some_iff, h.mem_relationshipList_iff, and_right_comm]

theorem relationshipCount_eq (h : s.Leaves t p q) :
    t.relationshipCount = s.relationshipList.countP q := by
  rw [relationshipCount, h.invariant.relationships.indexed.size_eq, List.countP_eq_length_filter,
    ← h.relationshipList]
  rfl

/-- The neighbours of a node that is left are those of before, as far as their
relationships are left. -/
theorem neighbors_eq (h : s.Leaves t p q) (hs : s.Invariant) (hn : n ∈ t.nodeList)
    (kind : Option String) (d : Direction) : ∃ found, s.neighbors n.key kind d = .ok found ∧
      t.neighbors n.key kind d = .ok (found.filter fun x => q x.2) := by
  have hnode : t.node? n.key = some n := h.invariant.node?_eq_some_iff.2 ⟨hn, rfl⟩
  have hnode' : s.node? n.key = some n :=
    hs.node?_eq_some_iff.2 ⟨(h.mem_nodeList_iff.1 hn).1, rfl⟩
  rw [hs.neighbors_eq, h.invariant.neighbors_eq, hnode, hnode']
  refine ⟨_, rfl, congrArg Except.ok ?_⟩
  rw [h.relationshipList, List.filter_filter, List.filter_congr fun r _ => Bool.and_comm _ _,
    ← List.filter_filter, List.filterMap_filter, List.filter_filterMap]
  refine List.filterMap_congr fun r hr => ?_
  by_cases hq : q r = true
  · -- the other end of a relationship that is left is left too
    have hleft : r ∈ t.relationshipList :=
      h.mem_relationshipList_iff.2 ⟨(List.mem_filter.1 hr).1, hq⟩
    obtain ⟨m, hm⟩ := h.invariant.end_live hleft (r.otherEnd_eq_or n.key)
    have hm' := hm
    rw [h.node?_eq hs, Option.filter_eq_some_iff] at hm'
    rw [hm, hm'.1, if_pos hq]
    split <;> simp [Option.filter_some, hq]
  · rw [if_neg hq]
    cases s.node? (r.otherEnd n.key) <;> split <;> simp [Option.filter_some, hq]

end Leaves

end Store

end PropertyGraph
