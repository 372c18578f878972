import PropertyGraph.Proofs.Store.Adjacency

/-! The invariant of the store. The identity and tag indices describe the two arenas, the
adjacency tables describe the two ends of the relationships, entities are storable, and
the counters are past every id that is in use. -/

namespace PropertyGraph.Store

open Arena

structure NodesSound (nodes : Array (Option Node)) (slots : OrderedMap NodeKey Nat)
    (labels : OrderedMap String (List Nat)) (nextIds : OrderedMap String Nat) : Prop where
  indexed : Indexed nodes Node.key slots
  tagged : Tagged nodes Node.label labels
  storable : ∀ i n, at? nodes i = some n → n.Storable
  counted : ∀ i n, at? nodes i = some n → n.key.id < (nextIds.get? n.label).getD 1
  bounded : ∀ label, (nextIds.get? label).getD 1 ≤ greatestId + 1

structure RelationshipsSound (relationships : Array (Option Relationship))
    (slots : OrderedMap Nat Nat) (kinds : OrderedMap String (List Nat)) (nextId : Nat) : Prop where
  indexed : Indexed relationships Relationship.id slots
  tagged : Tagged relationships Relationship.kind kinds
  storable : ∀ e r, at? relationships e = some r → r.Storable
  counted : ∀ e r, at? relationships e = some r → r.id < nextId
  bounded : nextId ≤ greatestId + 1

/-- What holds of a store after any history of operations. -/
structure Invariant (s : Store) : Prop where
  nodes : NodesSound s.nodes s.nodeSlots s.labels s.nextNodeIds
  relationships : RelationshipsSound s.relationships s.relationshipSlots s.kinds
    s.nextRelationshipId
  outgoing : Adjacency s.nodes s.relationships Relationship.source s.outgoing
  incoming : Adjacency s.nodes s.relationships Relationship.target s.incoming

/-! ### The node tables -/

namespace NodesSound

variable {nodes : Array (Option Node)} {slots : OrderedMap NodeKey Nat}
  {labels : OrderedMap String (List Nat)} {nextIds : OrderedMap String Nat} {i : Nat} {n m : Node}

theorem push (h : NodesSound nodes slots labels nextIds) (hn : n.Storable)
    (hnew : slots.get? n.key = none) :
    NodesSound (nodes.push (some n)) (slots.insert n.key nodes.size)
      (labels.update n.label [] (· ++ [nodes.size]))
      (nextIds.update n.label 1 (max · (n.key.id + 1))) where
  indexed := h.indexed.push hnew
  tagged := h.tagged.push n
  storable := forall_push h.storable hn
  counted := by
    refine forall_push ?_ ?_
    · intro j m hm
      have hlt := h.counted j m hm
      rw [OrderedMap.get?_update]
      split
      · next hl =>
        rw [← hl] at hlt
        rw [Option.getD_some]
        omega
      · exact hlt
    · rw [OrderedMap.get?_update, if_pos rfl, Option.getD_some]
      omega
  bounded label := by
    have hid := hn.id_le
    rw [OrderedMap.get?_update]
    split
    · have hold := h.bounded n.label
      rw [Option.getD_some]
      omega
    · exact h.bounded label

theorem replace (h : NodesSound nodes slots labels nextIds) (hi : at? nodes i = some n)
    (hm : m.Storable) (hkey : m.key = n.key) :
    NodesSound (nodes.setIfInBounds i (some m)) slots labels nextIds where
  indexed := h.indexed.replace hi hkey
  tagged := h.tagged.replace hi (congrArg NodeKey.label hkey)
  storable := by
    apply forall_set h.storable (lt_size_of_at? hi)
    intro x hx
    cases hx
    exact hm
  counted := by
    apply forall_set h.counted (lt_size_of_at? hi)
    intro x hx
    cases hx
    have hlt := h.counted i n hi
    rw [Node.label, ← hkey] at hlt
    exact hlt
  bounded := h.bounded

theorem erase (h : NodesSound nodes slots labels nextIds) (hi : at? nodes i = some n) :
    NodesSound (nodes.setIfInBounds i none) (slots.erase n.key)
      (labels.adjust n.label (List.filter fun e => decide (e ≠ i))) nextIds where
  indexed := h.indexed.erase hi
  tagged := h.tagged.erase hi
  storable := forall_set h.storable (lt_size_of_at? hi) nofun
  counted := forall_set h.counted (lt_size_of_at? hi) nofun
  bounded := h.bounded

end NodesSound

/-! ### The relationship tables -/

namespace RelationshipsSound

variable {relationships : Array (Option Relationship)} {slots : OrderedMap Nat Nat}
  {kinds : OrderedMap String (List Nat)} {nextId e : Nat} {r x : Relationship}

theorem push (h : RelationshipsSound relationships slots kinds nextId) (hr : r.Storable)
    (hnew : slots.get? r.id = none) {next : Nat} (hle : nextId ≤ next) (hlt : r.id < next)
    (hbound : next ≤ greatestId + 1) :
    RelationshipsSound (relationships.push (some r)) (slots.insert r.id relationships.size)
      (kinds.update r.kind [] (· ++ [relationships.size])) next where
  indexed := h.indexed.push hnew
  tagged := h.tagged.push r
  storable := forall_push h.storable hr
  counted := by
    refine forall_push ?_ hlt
    intro j y hy
    have hold := h.counted j y hy
    omega
  bounded := hbound

theorem replace (h : RelationshipsSound relationships slots kinds nextId)
    (he : at? relationships e = some r) (hx : x.Storable) (hid : x.id = r.id)
    (hkind : x.kind = r.kind) :
    RelationshipsSound (relationships.setIfInBounds e (some x)) slots kinds nextId where
  indexed := h.indexed.replace he hid
  tagged := h.tagged.replace he hkind
  storable := by
    apply forall_set h.storable (lt_size_of_at? he)
    intro y hy
    cases hy
    exact hx
  counted := by
    apply forall_set h.counted (lt_size_of_at? he)
    intro y hy
    cases hy
    rw [hid]
    exact h.counted e r he
  bounded := h.bounded

theorem erase (h : RelationshipsSound relationships slots kinds nextId)
    (he : at? relationships e = some r) :
    RelationshipsSound (relationships.setIfInBounds e none) (slots.erase r.id)
      (kinds.adjust r.kind (List.filter fun j => decide (j ≠ e))) nextId where
  indexed := h.indexed.erase he
  tagged := h.tagged.erase he
  storable := forall_set h.storable (lt_size_of_at? he) nofun
  counted := forall_set h.counted (lt_size_of_at? he) nofun
  bounded := h.bounded

end RelationshipsSound

/-! ### Insertion and update -/

namespace Invariant

variable {s : Store}

theorem empty : Store.empty.Invariant where
  nodes := ⟨.empty _, .empty _, nofun, nofun, fun _ => by simp [Store.empty]⟩
  relationships := ⟨.empty _, .empty _, nofun, nofun, by decide⟩
  outgoing := ⟨rfl, nofun, nofun, fun _ _ => rfl⟩
  incoming := ⟨rfl, nofun, nofun, fun _ _ => rfl⟩

theorem linked_outgoing (h : s.Invariant) :
    Linked (fun _ => False) s.nodeSlots s.relationships Relationship.source s.outgoing :=
  ((adjacency_iff h.nodes.indexed).1 h.outgoing).2

theorem linked_incoming (h : s.Invariant) :
    Linked (fun _ => False) s.nodeSlots s.relationships Relationship.target s.incoming :=
  ((adjacency_iff h.nodes.indexed).1 h.incoming).2

theorem insertNode (h : s.Invariant) {n : Node} (hn : n.Storable)
    (hnew : s.nodeSlots.get? n.key = none) : (s.insertNode n).Invariant := by
  have hnodes := h.nodes.push hn hnew
  refine ⟨hnodes, h.relationships, (adjacency_iff hnodes.indexed).2 ⟨?_, ?_⟩,
    (adjacency_iff hnodes.indexed).2 ⟨?_, ?_⟩⟩
  · simp [Store.insertNode, h.outgoing.size_eq]
  · exact h.linked_outgoing.push_node hnew _
  · simp [Store.insertNode, h.incoming.size_eq]
  · exact h.linked_incoming.push_node hnew _

/-- A relationship is inserted after the counter was moved past its id. -/
theorem insertRelationship (h : s.Invariant) {r : Relationship} {a b next : Nat}
    (hr : r.Storable) (hnew : s.relationshipSlots.get? r.id = none)
    (ha : s.nodeSlots.get? r.source = some a) (hb : s.nodeSlots.get? r.target = some b)
    (hle : s.nextRelationshipId ≤ next) (hlt : r.id < next) (hbound : next ≤ greatestId + 1) :
    ({ s with nextRelationshipId := next }.insertRelationship r a b).Invariant := by
  have ha' : a < s.outgoing.size := h.outgoing.size_eq ▸ h.nodes.indexed.lt_size ha
  have hb' : b < s.incoming.size := h.incoming.size_eq ▸ h.nodes.indexed.lt_size hb
  refine ⟨h.nodes, h.relationships.push hr hnew hle hlt hbound,
    (adjacency_iff h.nodes.indexed).2 ⟨?_, ?_⟩, (adjacency_iff h.nodes.indexed).2 ⟨?_, ?_⟩⟩
  · simp [Store.insertRelationship, h.outgoing.size_eq]
  · exact h.linked_outgoing.push_relationship ha ha'
  · simp [Store.insertRelationship, h.incoming.size_eq]
  · exact h.linked_incoming.push_relationship hb hb'

theorem replaceNode (h : s.Invariant) {i : Nat} {n m : Node} (hi : s.nodeAt? i = some n)
    (hm : m.Storable) (hkey : m.key = n.key) :
    { s with nodes := s.nodes.setIfInBounds i (some m) }.Invariant := by
  have hnodes := h.nodes.replace hi hm hkey
  refine ⟨hnodes, h.relationships, (adjacency_iff hnodes.indexed).2 ⟨?_, h.linked_outgoing⟩,
    (adjacency_iff hnodes.indexed).2 ⟨?_, h.linked_incoming⟩⟩
  · simp [h.outgoing.size_eq]
  · simp [h.incoming.size_eq]

theorem replaceRelationship (h : s.Invariant) {e : Nat} {r x : Relationship}
    (he : s.relationshipAt? e = some r) (hx : x.Storable) (hid : x.id = r.id)
    (hkind : x.kind = r.kind) (hsource : x.source = r.source) (htarget : x.target = r.target) :
    { s with relationships := s.relationships.setIfInBounds e (some x) }.Invariant :=
  ⟨h.nodes, h.relationships.replace he hx hid hkind,
    (adjacency_iff h.nodes.indexed).2 ⟨h.outgoing.size_eq, h.linked_outgoing.replace he hsource⟩,
    (adjacency_iff h.nodes.indexed).2 ⟨h.incoming.size_eq, h.linked_incoming.replace he htarget⟩⟩

end Invariant

end PropertyGraph.Store
