import Mathlib.Data.List.Perm.Basic
import PropertyGraph.Proofs.Store.Scan

/-! What deletions retain, down to the tables. A deletion empties slots of the two arenas, drops
identities from the indices without moving the others, and keeps the tags and the counters.
All the rest of a store is told by its arenas, so two stores that retain the same entities of a
third one are the same store, in whatever order the others were deleted. In particular the
relationships between two nodes are gone in the end, with whichever node they went. -/

namespace PropertyGraph

/-- Two indices of one arena are the same if they have their keys in the order of a third one. -/
theorem Arena.Indexed.ext_of_sublist {α κ : Type} [DecidableEq κ] {arena : Array (Option α)}
    {key : α → κ} {index other whole : OrderedMap κ Nat} (h : Indexed arena key index)
    (ho : Indexed arena key other) (hkeys : index.keys.Sublist whole.keys)
    (hokeys : other.keys.Sublist whole.keys) : index = other := by
  refine h.ext ho ((List.Nodup.perm_iff_eq_of_sublist whole.nodup hkeys hokeys).1 ?_)
  refine (List.perm_ext_iff_of_nodup index.nodup other.nodup).2 fun k => ?_
  change k ∈ index.keys ↔ k ∈ other.keys
  rw [OrderedMap.mem_keys_iff, OrderedMap.mem_keys_iff, h.contains_iff, ho.contains_iff]

/-- Emptying a slot, if its entity does not have a property, filters the slot. -/
theorem Arena.filter_at? {α : Type} {arena : Array (Option α)} {i : Nat} {p : α → Bool}
    {gone : Prop} [Decidable gone] (hgone : ∀ a, at? arena i = some a → (p a = true ↔ ¬ gone)) :
    (if gone then none else at? arena i) = (at? arena i).filter p := by
  cases ha : at? arena i with
  | none => simp
  | some a => by_cases hp : p a = true <;> simp [Option.filter_some, hp, (hgone a ha).symm]

namespace Store

open Arena Change

variable {s t u : Store} {p p' : Node → Bool} {q q' : Relationship → Bool} {n m : Node}
  {r x : Relationship} {e i : Nat}

/-- The entities of `t` are those of `s` that have a property, in their slots, and what is known
of `s` is known of `t`. -/
structure Retains (s t : Store) (p : Node → Bool) (q : Relationship → Bool) : Prop where
  invariant : t.Invariant
  nodes_size : t.nodes.size = s.nodes.size
  nodeAt? : ∀ i, t.nodeAt? i = (s.nodeAt? i).filter p
  relationships_size : t.relationships.size = s.relationships.size
  relationshipAt? : ∀ e, t.relationshipAt? e = (s.relationshipAt? e).filter q
  nodeKeys : t.nodeSlots.keys.Sublist s.nodeSlots.keys
  relationshipKeys : t.relationshipSlots.keys.Sublist s.relationshipSlots.keys
  labels : t.labels.keys = s.labels.keys
  kinds : t.kinds.keys = s.kinds.keys
  nextNodeIds : t.nextNodeIds = s.nextNodeIds
  nextRelationshipId : t.nextRelationshipId = s.nextRelationshipId

namespace Retains

theorem trans (h : s.Retains t p q) (h' : t.Retains u p' q') :
    s.Retains u (fun n => p n && p' n) fun r => q r && q' r where
  invariant := h'.invariant
  nodes_size := h'.nodes_size.trans h.nodes_size
  nodeAt? i := by
    rw [h'.nodeAt?, h.nodeAt?, Option.filter_filter]
  relationships_size := h'.relationships_size.trans h.relationships_size
  relationshipAt? e := by
    rw [h'.relationshipAt?, h.relationshipAt?, Option.filter_filter]
  nodeKeys := h'.nodeKeys.trans h.nodeKeys
  relationshipKeys := h'.relationshipKeys.trans h.relationshipKeys
  labels := h'.labels.trans h.labels
  kinds := h'.kinds.trans h.kinds
  nextNodeIds := h'.nextNodeIds.trans h.nextNodeIds
  nextRelationshipId := h'.nextRelationshipId.trans h.nextRelationshipId

theorem node_stays (h : s.Retains t p q) (hi : s.nodeAt? i = some n) (hp : p n = true) :
    t.nodeAt? i = some n := by
  rw [h.nodeAt?, hi, Option.filter_some, if_pos hp]

theorem relationship_stays (h : s.Retains t p q) (he : s.relationshipAt? e = some r)
    (hq : q r = true) : t.relationshipAt? e = some r := by
  rw [h.relationshipAt?, he, Option.filter_some, if_pos hq]

/-- There is one store only that retains the entities with a property. -/
theorem unique (ht : s.Retains t p q) (hu : s.Retains u p q) : t = u := by
  have hnodes : t.nodes = u.nodes := ext_at? (ht.nodes_size.trans hu.nodes_size.symm) fun i =>
    (ht.nodeAt? i).trans (hu.nodeAt? i).symm
  have hrelationships : t.relationships = u.relationships :=
    ext_at? (ht.relationships_size.trans hu.relationships_size.symm) fun e =>
      (ht.relationshipAt? e).trans (hu.relationshipAt? e).symm
  -- the arenas tell all other tables
  have it := ht.invariant
  have iu := hu.invariant
  have hnodeSlots : t.nodeSlots = u.nodeSlots :=
    it.nodes.indexed.ext_of_sublist (hnodes ▸ iu.nodes.indexed) ht.nodeKeys hu.nodeKeys
  have hrelationshipSlots : t.relationshipSlots = u.relationshipSlots :=
    it.relationships.indexed.ext_of_sublist (hrelationships ▸ iu.relationships.indexed)
      ht.relationshipKeys hu.relationshipKeys
  have houtgoing : t.outgoing = u.outgoing :=
    it.outgoing.ext (hnodes ▸ hrelationships ▸ iu.outgoing)
  have hincoming : t.incoming = u.incoming :=
    it.incoming.ext (hnodes ▸ hrelationships ▸ iu.incoming)
  have hlabels : t.labels = u.labels :=
    it.nodes.tagged.ext (hnodes ▸ iu.nodes.tagged) (ht.labels.trans hu.labels.symm)
  have hkinds : t.kinds = u.kinds :=
    it.relationships.tagged.ext (hrelationships ▸ iu.relationships.tagged)
      (ht.kinds.trans hu.kinds.symm)
  have hnextNodeIds := ht.nextNodeIds.trans hu.nextNodeIds.symm
  have hnextRelationshipId := ht.nextRelationshipId.trans hu.nextRelationshipId.symm
  cases t
  cases u
  simp only [mk.injEq]
  exact ⟨hnodes, hrelationships, hnodeSlots, hrelationshipSlots, houtgoing, hincoming, hlabels,
    hkinds, hnextNodeIds, hnextRelationshipId⟩

/-- Which entities are retained first is not seen in the end. -/
theorem unique_comm {v w : Store} (ht : s.Retains t p q) (hv : t.Retains v p' q')
    (hu : s.Retains u p' q') (hw : u.Retains w p q) : v = w := by
  have hw' : s.Retains w (fun n => p n && p' n) fun r => q r && q' r := by
    simpa only [Bool.and_comm] using hu.trans hw
  exact (ht.trans hv).unique hw'

end Retains

/-! ### What deletions retain -/

theorem size_detach (s : Store) (e : Nat) :
    (s.detach e).relationships.size = s.relationships.size := by
  unfold detach
  split
  · rfl
  · exact Array.size_setIfInBounds

theorem size_foldl_detach (slots : List Nat) (s : Store) :
    (slots.foldl detach s).relationships.size = s.relationships.size := by
  induction slots generalizing s with
  | nil => rfl
  | cons e rest ih => rw [List.foldl_cons, ih, size_detach]

theorem relationshipKeys_detach (s : Store) (e : Nat) :
    (s.detach e).relationshipSlots.keys.Sublist s.relationshipSlots.keys := by
  unfold detach
  split
  · exact .refl _
  · rw [OrderedMap.keys_erase]
    exact List.filter_sublist

theorem kinds_detach (s : Store) (e : Nat) : (s.detach e).kinds.keys = s.kinds.keys := by
  unfold detach
  split
  · rfl
  · exact OrderedMap.keys_adjust ..

theorem relationshipKeys_foldl_detach (slots : List Nat) (s : Store) :
    (slots.foldl detach s).relationshipSlots.keys.Sublist s.relationshipSlots.keys := by
  induction slots generalizing s with
  | nil => exact .refl _
  | cons e rest ih => exact (ih (s.detach e)).trans (relationshipKeys_detach s e)

theorem kinds_foldl_detach (slots : List Nat) (s : Store) :
    (slots.foldl detach s).kinds.keys = s.kinds.keys := by
  induction slots generalizing s with
  | nil => rfl
  | cons e rest ih => exact (ih (s.detach e)).trans (kinds_detach s e)

theorem kinds_removeNode (s : Store) (key : NodeKey) (i : Nat) (n : Node) :
    (s.removeNode key i n).kinds.keys = s.kinds.keys :=
  kinds_foldl_detach (s.adjacent i .both) _

theorem labels_removeNode (s : Store) (key : NodeKey) (i : Nat) (n : Node) :
    (s.removeNode key i n).labels.keys = s.labels.keys := by
  rw [removeNode, OrderedMap.keys_adjust, (sameNodes_foldl_detach _ _).labels]

theorem nodes_removeNode (s : Store) (key : NodeKey) (i : Nat) (n : Node) :
    (s.removeNode key i n).nodes = s.nodes.setIfInBounds i none :=
  (sameNodes_foldl_detach _ _).nodes

/-- The change goes through with an answer, and of the store the entities with a property are
retained. -/
def Deletes {α : Type} (s : Store) (c : Change α) (a : α) (p : Node → Bool)
    (q : Relationship → Bool) : Prop :=
  ∃ t, c.run s = .ok a t ∧ s.Retains t p q

namespace Invariant

theorem retains_detach (h : s.Invariant) (he : s.relationshipAt? e = some r) :
    s.Retains (s.detach e) (fun _ => true) fun x => decide (x.id ≠ r.id) where
  invariant := h.detach e
  nodes_size := congrArg Array.size (sameNodes_detach s e).nodes
  nodeAt? i := by
    rw [Store.nodeAt?, (sameNodes_detach s e).nodes, ← Store.nodeAt?]
    cases s.nodeAt? i <;> rfl
  relationships_size := size_detach s e
  relationshipAt? j := by
    refine (at?_detach s e j).trans (filter_at? fun x hx => ?_)
    rw [decide_eq_true_iff]
    refine not_congr ⟨fun hid => (h.relationships.indexed.unique hx he hid).1.symm, ?_⟩
    rintro rfl
    rw [Option.some.inj (hx.symm.trans he)]
  nodeKeys := by rw [(sameNodes_detach s e).nodeSlots]
  relationshipKeys := relationshipKeys_detach s e
  labels := by rw [(sameNodes_detach s e).labels]
  kinds := kinds_detach s e
  nextNodeIds := (sameNodes_detach s e).nextNodeIds
  nextRelationshipId := (sameNodes_detach s e).nextRelationshipId

/-- The relationships at the node are detached in one go, so what the cascade leaves is told by
the ends of the relationships alone. -/
theorem retains_removeNode (h : s.Invariant) (hi : s.nodeAt? i = some n) :
    s.Retains (s.removeNode n.key i n) (fun m => decide (m.key ≠ n.key))
      fun r => decide (¬ r.Touches .both n.key) where
  invariant := h.removeNode hi
  nodes_size := by
    rw [nodes_removeNode, Array.size_setIfInBounds]
  nodeAt? j := by
    have hat : (s.removeNode n.key i n).nodeAt? j = if i = j then none else s.nodeAt? j := by
      rw [Store.nodeAt?, nodes_removeNode]
      exact at?_set (lt_size_of_at? hi) none j
    refine hat.trans (filter_at? fun m hm => ?_)
    rw [decide_eq_true_iff]
    refine not_congr ⟨fun hk => (h.nodes.indexed.unique hm hi hk).1.symm, ?_⟩
    rintro rfl
    rw [Option.some.inj (hm.symm.trans hi)]
  relationships_size := size_foldl_detach _ _
  relationshipAt? e := by
    refine (at?_foldl_detach _ _ e).trans (filter_at? fun r hr => ?_)
    rw [decide_eq_true_iff, (h.adjacent_enumerates hi .both).mem_iff]
    simp [show at? s.relationships e = some r from hr]
  nodeKeys := by
    rw [Store.removeNode, OrderedMap.keys_erase, (sameNodes_foldl_detach _ _).nodeSlots]
    exact List.filter_sublist
  relationshipKeys := relationshipKeys_foldl_detach _ _
  labels := labels_removeNode s n.key i n
  kinds := kinds_removeNode s n.key i n
  nextNodeIds := (sameNodes_foldl_detach _ _).nextNodeIds
  nextRelationshipId := (sameNodes_foldl_detach _ _).nextRelationshipId

theorem deletes_node (h : s.Invariant) (hi : s.nodeAt? i = some n) :
    s.Deletes (Change.deleteNode n.key) n (fun m => decide (m.key ≠ n.key))
      fun r => decide (¬ r.Touches .both n.key) :=
  ⟨_, run_deleteNode_eq_ok_iff.2 ⟨i, h.nodes.indexed.get?_key hi, hi, rfl⟩,
    h.retains_removeNode hi⟩

theorem deletes_relationship (h : s.Invariant) (he : s.relationshipAt? e = some r) :
    s.Deletes (Change.deleteRelationship r.id) r (fun _ => true) fun x => decide (x.id ≠ r.id) :=
  ⟨_, run_deleteRelationship_eq_ok_iff.2 ⟨e, h.relationships.indexed.get?_key he, he, rfl⟩,
    h.retains_detach he⟩

end Invariant

/-! ### Either order -/

/-- Deletions that go through whether the other one was made or not can be made in either
order. -/
theorem interchange_of_deletes {α β : Type} {c : Change α} {d : Change β} {a : α} {b : β}
    (hc : s.Deletes c a p q) (hd : s.Deletes d b p' q')
    (hcd : ∀ u, s.Retains u p' q' → u.Deletes c a p q)
    (hdc : ∀ t, s.Retains t p q → t.Deletes d b p' q') : Interchange c d s a b := by
  obtain ⟨t, hrt, ht⟩ := hc
  obtain ⟨u, hru, hu⟩ := hd
  obtain ⟨v, hrv, hv⟩ := hdc t ht
  obtain ⟨w, hrw, hw⟩ := hcd u hu
  exact ⟨t, u, v, hrt, hrv, hru, ht.unique_comm hv hu hw ▸ hrw⟩

/-- Deletions of different entities, neither of which takes the other one with it. -/
structure DeletionsInterchange (s : Store) : Prop where
  nodes : ∀ n ∈ s.nodeList, ∀ m ∈ s.nodeList, n.key ≠ m.key →
    Interchange (Change.deleteNode n.key) (Change.deleteNode m.key) s n m
  relationships : ∀ r ∈ s.relationshipList, ∀ x ∈ s.relationshipList, r.id ≠ x.id →
    Interchange (Change.deleteRelationship r.id) (Change.deleteRelationship x.id) s r x
  apart : ∀ n ∈ s.nodeList, ∀ r ∈ s.relationshipList, ¬ r.Touches .both n.key →
    Interchange (Change.deleteNode n.key) (Change.deleteRelationship r.id) s n r

theorem deletionsInterchange_of_reachable (h : s.Reachable) : s.DeletionsInterchange where
  nodes n hn m hm hne := by
    obtain ⟨i, hi⟩ := mem_nodeList_iff.1 hn
    obtain ⟨j, hj⟩ := mem_nodeList_iff.1 hm
    refine interchange_of_deletes (h.invariant.deletes_node hi) (h.invariant.deletes_node hj)
      (fun u hu => ?_) fun t ht => ?_
    · exact hu.invariant.deletes_node (hu.node_stays hi (decide_eq_true hne))
    · exact ht.invariant.deletes_node (ht.node_stays hj (decide_eq_true hne.symm))
  relationships r hr x hx hne := by
    obtain ⟨e, he⟩ := mem_relationshipList_iff.1 hr
    obtain ⟨f, hf⟩ := mem_relationshipList_iff.1 hx
    refine interchange_of_deletes (h.invariant.deletes_relationship he)
      (h.invariant.deletes_relationship hf) (fun u hu => ?_) fun t ht => ?_
    · exact hu.invariant.deletes_relationship (hu.relationship_stays he (decide_eq_true hne))
    · exact ht.invariant.deletes_relationship (ht.relationship_stays hf (decide_eq_true hne.symm))
  apart n hn r hr hapart := by
    obtain ⟨i, hi⟩ := mem_nodeList_iff.1 hn
    obtain ⟨e, he⟩ := mem_relationshipList_iff.1 hr
    refine interchange_of_deletes (h.invariant.deletes_node hi)
      (h.invariant.deletes_relationship he) (fun u hu => ?_) fun t ht => ?_
    · exact hu.invariant.deletes_node (hu.node_stays hi rfl)
    · exact ht.invariant.deletes_relationship (ht.relationship_stays he (decide_eq_true hapart))

/-- Two people who know each other, and one of whom knows itself. -/
def friends : Store := history [.createNode "Person" none ∅, .createNode "Person" none ∅,
  .createRelationship "KNOWS" ⟨"Person", 1⟩ ⟨"Person", 2⟩ ∅,
  .createRelationship "KNOWS" ⟨"Person", 2⟩ ⟨"Person", 1⟩ ∅,
  .createRelationship "KNOWS" ⟨"Person", 2⟩ ⟨"Person", 2⟩ ∅]

theorem reachable_friends : friends.Reachable := ⟨_, rfl⟩

theorem deletionsInterchange_friends : friends.DeletionsInterchange ∧
    Interchange (Change.deleteNode ⟨"Person", 1⟩) (Change.deleteNode ⟨"Person", 2⟩) friends
      ⟨⟨"Person", 1⟩, ∅⟩ ⟨⟨"Person", 2⟩, ∅⟩ :=
  have h := deletionsInterchange_of_reachable reachable_friends
  ⟨h, h.nodes ⟨⟨"Person", 1⟩, ∅⟩ (by decide) ⟨⟨"Person", 2⟩, ∅⟩ (by decide) (by decide)⟩

end Store

end PropertyGraph
