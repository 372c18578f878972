import PropertyGraph.Proofs.Store.Invariant

/-! Deletion keeps the invariant. Detaching a relationship takes it out of its arena, of
its two indices and of the two rows that list it. A node is deleted in three stages: its
slot and its rows are emptied, every relationship that its rows listed is detached, and
its identity goes. Between the stages the row of the node is exempt, since relationships
at the node may be left that it does not list any more. -/

namespace PropertyGraph.Store

open Arena

variable {s t u : Store} {exempt : Nat → Prop} {e i : Nat}

/-! ### Detaching -/

theorem modifyAt_eq {key : NodeKey} (h : s.nodeSlots.get? key = some i)
    (lists : Array (List Nat)) (f : List Nat → List Nat) :
    s.modifyAt key lists f = lists.modify i f := by
  rw [modifyAt, h]

/-- The part of the invariant that detaching works on. -/
structure LinksSound (exempt : Nat → Prop) (s : Store) : Prop where
  relationships : RelationshipsSound s.relationships s.relationshipSlots s.kinds
    s.nextRelationshipId
  outgoing : Linked exempt s.nodeSlots s.relationships Relationship.source s.outgoing
  incoming : Linked exempt s.nodeSlots s.relationships Relationship.target s.incoming

theorem LinksSound.detach (h : s.LinksSound exempt) (e : Nat) :
    (s.detach e).LinksSound exempt := by
  unfold Store.detach
  split
  · exact h
  · next r hr =>
    obtain ⟨a, ha⟩ := h.outgoing.side_live e r hr
    obtain ⟨b, hb⟩ := h.incoming.side_live e r hr
    simp only [modifyAt_eq ha, modifyAt_eq hb]
    exact ⟨h.relationships.erase hr, h.outgoing.detach hr ha, h.incoming.detach hr hb⟩

theorem LinksSound.foldl_detach (h : s.LinksSound exempt) (slots : List Nat) :
    (slots.foldl Store.detach s).LinksSound exempt := by
  induction slots generalizing s with
  | nil => exact h
  | cons e rest ih => exact ih (h.detach e)

theorem at?_detach (s : Store) (e j : Nat) :
    at? (s.detach e).relationships j = if e = j then none else at? s.relationships j := by
  unfold Store.detach
  split
  · next hnone =>
    split
    · next hj => rw [← hj]; exact hnone
    · rfl
  · next r hr => exact at?_set (lt_size_of_at? hr) none j

theorem at?_foldl_detach (slots : List Nat) (s : Store) (j : Nat) :
    at? (slots.foldl Store.detach s).relationships j =
      if j ∈ slots then none else at? s.relationships j := by
  induction slots generalizing s with
  | nil => simp
  | cons e rest ih =>
    rw [List.foldl_cons, ih, at?_detach]
    by_cases hj : e = j
    · simp [hj]
    · simp [hj, Ne.symm hj]

/-- What detaching leaves alone. -/
structure SameNodes (s t : Store) : Prop where
  nodes : t.nodes = s.nodes
  nodeSlots : t.nodeSlots = s.nodeSlots
  labels : t.labels = s.labels
  nextNodeIds : t.nextNodeIds = s.nextNodeIds
  nextRelationshipId : t.nextRelationshipId = s.nextRelationshipId
  outgoing_size : t.outgoing.size = s.outgoing.size
  incoming_size : t.incoming.size = s.incoming.size
  outgoing_nil : ∀ i, row s.outgoing i = [] → row t.outgoing i = []
  incoming_nil : ∀ i, row s.incoming i = [] → row t.incoming i = []

theorem SameNodes.refl (s : Store) : SameNodes s s :=
  ⟨rfl, rfl, rfl, rfl, rfl, rfl, rfl, fun _ h => h, fun _ h => h⟩

theorem SameNodes.trans (h : SameNodes s t) (h' : SameNodes t u) : SameNodes s u where
  nodes := h'.nodes.trans h.nodes
  nodeSlots := h'.nodeSlots.trans h.nodeSlots
  labels := h'.labels.trans h.labels
  nextNodeIds := h'.nextNodeIds.trans h.nextNodeIds
  nextRelationshipId := h'.nextRelationshipId.trans h.nextRelationshipId
  outgoing_size := h'.outgoing_size.trans h.outgoing_size
  incoming_size := h'.incoming_size.trans h.incoming_size
  outgoing_nil i hi := h'.outgoing_nil i (h.outgoing_nil i hi)
  incoming_nil i hi := h'.incoming_nil i (h.incoming_nil i hi)

theorem size_modifyAt (s : Store) (key : NodeKey) (lists : Array (List Nat))
    (f : List Nat → List Nat) : (s.modifyAt key lists f).size = lists.size := by
  unfold modifyAt
  split <;> simp

theorem row_modifyAt_filter_nil (s : Store) (key : NodeKey) {lists : Array (List Nat)}
    (p : Nat → Bool) (h : row lists i = []) :
    row (s.modifyAt key lists (List.filter p)) i = [] := by
  unfold modifyAt
  split
  · rw [row_modify_filter, h]
    split <;> rfl
  · exact h

theorem sameNodes_detach (s : Store) (e : Nat) : SameNodes s (s.detach e) := by
  unfold Store.detach
  split
  · exact .refl s
  · exact ⟨rfl, rfl, rfl, rfl, rfl, size_modifyAt .., size_modifyAt ..,
      fun _ h => row_modifyAt_filter_nil s _ _ h, fun _ h => row_modifyAt_filter_nil s _ _ h⟩

theorem sameNodes_foldl_detach (slots : List Nat) (s : Store) :
    SameNodes s (slots.foldl Store.detach s) := by
  induction slots generalizing s with
  | nil => exact .refl s
  | cons e rest ih => exact (sameNodes_detach s e).trans (ih (s.detach e))

/-! ### The invariant -/

namespace Invariant

theorem linksSound (h : s.Invariant) : s.LinksSound fun _ => False :=
  ⟨h.relationships, h.linked_outgoing, h.linked_incoming⟩

theorem detach (h : s.Invariant) (e : Nat) : (s.detach e).Invariant := by
  have hsame := sameNodes_detach s e
  have hlinks := h.linksSound.detach e
  have hnodes : NodesSound (s.detach e).nodes (s.detach e).nodeSlots (s.detach e).labels
      (s.detach e).nextNodeIds := by
    rw [hsame.nodes, hsame.nodeSlots, hsame.labels, hsame.nextNodeIds]
    exact h.nodes
  refine ⟨hnodes, hlinks.relationships, (adjacency_iff hnodes.indexed).2 ⟨?_, hlinks.outgoing⟩,
    (adjacency_iff hnodes.indexed).2 ⟨?_, hlinks.incoming⟩⟩
  · rw [hsame.outgoing_size, hsame.nodes, h.outgoing.size_eq]
  · rw [hsame.incoming_size, hsame.nodes, h.incoming.size_eq]

/-- The slots of both rows of a node are those of the relationships at the node. -/
theorem adjacent_both (h : s.Invariant) (i : Nat) :
    Enumerates (s.adjacent i .both) fun e => ∃ r, s.relationshipAt? e = some r ∧
      (s.nodeSlots.get? r.source = some i ∨ s.nodeSlots.get? r.target = some i) := by
  refine ((h.linked_outgoing.row_eq i not_false).merge
    (h.linked_incoming.row_eq i not_false)).congr fun e => ?_
  simp only [← exists_or, ← and_or_left]
  rfl

theorem removeNode (h : s.Invariant) {n : Node} (hi : s.nodeAt? i = some n) :
    (s.removeNode n.key i n).Invariant := by
  have hget : ∀ k, s.nodeSlots.get? k = some i → k = n.key := by
    intro k hk
    rw [h.nodes.indexed.get?_eq_iff hi] at hk
    exact hk.symm
  -- the store with an empty slot and empty rows, before and after the detachments
  let cleared := { s with
    nodes := s.nodes.setIfInBounds i none
    outgoing := s.outgoing.setIfInBounds i []
    incoming := s.incoming.setIfInBounds i [] }
  let detached := (s.adjacent i .both).foldl Store.detach cleared
  have hcleared : cleared.LinksSound (· = i) :=
    ⟨h.relationships, h.linked_outgoing.clear i, h.linked_incoming.clear i⟩
  have hlinks : detached.LinksSound (· = i) := hcleared.foldl_detach _
  have hsame : SameNodes cleared detached := sameNodes_foldl_detach _ _
  have hslots : detached.nodeSlots = s.nodeSlots := hsame.nodeSlots
  rw [← hslots] at hget
  -- no relationship at the node is left
  have hfree : ∀ e r, at? detached.relationships e = some r →
      r.source ≠ n.key ∧ r.target ≠ n.key := by
    intro e r hr
    rw [show detached.relationships = _ from rfl, at?_foldl_detach] at hr
    split at hr
    · cases hr
    · next hnot =>
      have hkey := h.nodes.indexed.get?_key hi
      rw [(h.adjacent_both i).mem_iff] at hnot
      constructor
      · intro hk
        exact hnot ⟨r, hr, .inl (hk ▸ hkey)⟩
      · intro hk
        exact hnot ⟨r, hr, .inr (hk ▸ hkey)⟩
  have hnodes : NodesSound detached.nodes (detached.nodeSlots.erase n.key)
      (detached.labels.adjust n.label (List.filter fun e => decide (e ≠ i)))
      detached.nextNodeIds := by
    rw [hsame.nodes, hslots, hsame.labels, hsame.nextNodeIds]
    exact h.nodes.erase hi
  refine ⟨hnodes, hlinks.relationships, (adjacency_iff hnodes.indexed).2 ⟨?_, ?_⟩,
    (adjacency_iff hnodes.indexed).2 ⟨?_, ?_⟩⟩
  · calc detached.outgoing.size = cleared.outgoing.size := hsame.outgoing_size
      _ = detached.nodes.size := by simp [cleared, hsame.nodes, h.outgoing.size_eq]
  · have hrow : row detached.outgoing i = [] := hsame.outgoing_nil i (row_set_nil _ _)
    exact hlinks.outgoing.erase_node hrow hget fun e r hr => (hfree e r hr).1
  · calc detached.incoming.size = cleared.incoming.size := hsame.incoming_size
      _ = detached.nodes.size := by simp [cleared, hsame.nodes, h.incoming.size_eq]
  · have hrow : row detached.incoming i = [] := hsame.incoming_nil i (row_set_nil _ _)
    exact hlinks.incoming.erase_node hrow hget fun e r hr => (hfree e r hr).2

end Invariant

end PropertyGraph.Store
