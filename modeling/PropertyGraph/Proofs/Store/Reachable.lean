import PropertyGraph.Document
import PropertyGraph.Proofs.Except
import PropertyGraph.Proofs.Store.Change

/-! Histories of a store. A history is a list of operations with any arguments, run one
after the other from the empty store; an operation that fails is part of the history like
any other. Every operation keeps the invariant, so it holds after every history. -/

namespace PropertyGraph

/-- The public operations that may change a store. Loading puts the store of a document in
place, if the whole document is accepted. -/
inductive Operation where
  | createNode (label : String) (id : Option Nat) (properties : Bag)
  | updateNode (key : NodeKey) (patch : Bag)
  | deleteNode (key : NodeKey)
  | createRelationship (kind : String) (source target : NodeKey) (properties : Bag)
  | updateRelationship (id : Nat) (patch : Bag)
  | deleteRelationship (id : Nat)
  | recoverNode (n : Node)
  | recoverRelationship (r : Relationship)
  | clear
  | load (d : Document)

/-- The operation as a change whose answer is not looked at. -/
def Operation.change : Operation → Change Unit
  | .createNode label id properties => Change.createNode label id properties >>= fun _ => pure ()
  | .updateNode key patch => Change.updateNode key patch
  | .deleteNode key => Change.deleteNode key >>= fun _ => pure ()
  | .createRelationship kind source target properties =>
    Change.createRelationship kind source target properties >>= fun _ => pure ()
  | .updateRelationship id patch => Change.updateRelationship id patch
  | .deleteRelationship id => Change.deleteRelationship id >>= fun _ => pure ()
  | .recoverNode n => Change.recoverNode n
  | .recoverRelationship r => Change.recoverRelationship r
  | .clear => Change.clear
  | .load d => Change.require d.toStore >>= set

namespace Store

/-- The store after a history. -/
def history (ops : List Operation) : Store := ops.foldl (fun s op => op.change.after s) .empty

def Reachable (s : Store) : Prop := ∃ ops, history ops = s

theorem history_concat (ops : List Operation) (op : Operation) :
    history (ops ++ [op]) = op.change.after (history ops) := by
  rw [history, List.foldl_append]
  rfl

/-! ### One operation -/

open Change in
theorem atomic_operation (op : Operation) : Atomic op.change := by
  cases op with
  | createNode label id properties =>
    exact (atomic_createNode label id properties).bind_goes fun _ => goes_pure _
  | updateNode key patch => exact atomic_updateNode key patch
  | deleteNode key => exact (atomic_deleteNode key).bind_goes fun _ => goes_pure _
  | createRelationship kind source target properties =>
    exact (atomic_createRelationship kind source target properties).bind_goes fun _ => goes_pure _
  | updateRelationship id patch => exact atomic_updateRelationship id patch
  | deleteRelationship id => exact (atomic_deleteRelationship id).bind_goes fun _ => goes_pure _
  | recoverNode n => exact atomic_recoverNode n
  | recoverRelationship r => exact atomic_recoverRelationship r
  | clear => exact goes_clear.atomic
  | load d => exact (keeps_require _).bind_atomic fun _ => (goes_set _).atomic

namespace Invariant

open Arena Change

variable {s t : Store}

theorem createNode (h : s.Invariant) {label : String} {id : Option Nat} {properties : Bag}
    {key : NodeKey} (hr : (Change.createNode label id properties).run s = .ok key t) :
    t.Invariant := by
  obtain ⟨hp, -, hid, hnew, rfl⟩ := run_createNode_eq_ok_iff.1 hr
  obtain ⟨hp, hno⟩ := checkNodeProperties_eq_ok_iff.1 hp
  exact h.insertNode ⟨checkId_eq_ok_iff.1 hid, hp, hno⟩ hnew

theorem recoverNode (h : s.Invariant) {n : Node} {x : Unit}
    (hr : (Change.recoverNode n).run s = .ok x t) : t.Invariant := by
  obtain ⟨hnew, hid, hp, rfl⟩ := run_recoverNode_eq_ok_iff.1 hr
  obtain ⟨hp, hno⟩ := checkNodeProperties_eq_ok_iff.1 hp
  exact h.insertNode ⟨checkId_eq_ok_iff.1 hid, hp, hno⟩ hnew

/-- The next id of a relationship is not in use. -/
theorem nextRelationshipId_new (h : s.Invariant) :
    s.relationshipSlots.get? s.nextRelationshipId = none := by
  by_contra hne
  obtain ⟨e, he⟩ := Option.ne_none_iff_exists'.1 hne
  obtain ⟨r, hr, hid⟩ := (h.relationships.indexed _ _).1 he
  have hlt := h.relationships.counted e r hr
  omega

theorem createRelationship (h : s.Invariant) {kind : String} {source target : NodeKey}
    {properties : Bag} {id : Nat}
    (hr : (Change.createRelationship kind source target properties).run s = .ok id t) :
    t.Invariant := by
  obtain ⟨a, b, ha, hb, hp, rfl, hid, rfl⟩ := run_createRelationship_eq_ok_iff.1 hr
  have hid := checkId_eq_ok_iff.1 hid
  have hp := checkProperties_eq_ok_iff.1 hp
  have hbound : s.nextRelationshipId + 1 ≤ greatestId + 1 := by omega
  exact h.insertRelationship ⟨hid, hp⟩ h.nextRelationshipId_new ha hb (Nat.le_succ _)
    (Nat.lt_succ_self _) hbound

theorem recoverRelationship (h : s.Invariant) {r : Relationship} {x : Unit}
    (hr : (Change.recoverRelationship r).run s = .ok x t) : t.Invariant := by
  obtain ⟨a, b, hnew, hid, ha, hb, hp, rfl⟩ := run_recoverRelationship_eq_ok_iff.1 hr
  have hid := checkId_eq_ok_iff.1 hid
  have hp := checkProperties_eq_ok_iff.1 hp
  have hold := h.relationships.bounded
  have hlt : r.id < max s.nextRelationshipId (r.id + 1) := by omega
  have hbound : max s.nextRelationshipId (r.id + 1) ≤ greatestId + 1 := by omega
  exact h.insertRelationship ⟨hid, hp⟩ hnew ha hb (Nat.le_max_left _ _) hlt hbound

theorem updateNode (h : s.Invariant) {key : NodeKey} {patch : Bag} {x : Unit}
    (hr : (Change.updateNode key patch).run s = .ok x t) : t.Invariant := by
  obtain ⟨i, n, -, hp, hn, rfl⟩ := run_updateNode_eq_ok_iff.1 hr
  obtain ⟨hp, hno⟩ := checkNodeProperties_eq_ok_iff.1 hp
  exact h.replaceNode hn ((h.nodes.storable i n hn).merge hp hno) rfl

theorem updateRelationship (h : s.Invariant) {id : Nat} {patch : Bag} {x : Unit}
    (hr : (Change.updateRelationship id patch).run s = .ok x t) : t.Invariant := by
  obtain ⟨e, r, -, hp, he, rfl⟩ := run_updateRelationship_eq_ok_iff.1 hr
  have hp := checkProperties_eq_ok_iff.1 hp
  exact h.replaceRelationship he ((h.relationships.storable e r he).merge hp) rfl rfl rfl rfl

theorem deleteNode (h : s.Invariant) {key : NodeKey} {n : Node}
    (hr : (Change.deleteNode key).run s = .ok n t) : t.Invariant := by
  obtain ⟨i, hi, hn, rfl⟩ := run_deleteNode_eq_ok_iff.1 hr
  have hkey : n.key = key := (h.nodes.indexed.get?_eq_iff hn).1 hi
  subst hkey
  exact h.removeNode hn

theorem deleteRelationship (h : s.Invariant) {id : Nat} {r : Relationship}
    (hr : (Change.deleteRelationship id).run s = .ok r t) : t.Invariant := by
  obtain ⟨e, -, -, rfl⟩ := run_deleteRelationship_eq_ok_iff.1 hr
  exact h.detach e

end Invariant

/-! ### Documents -/

theorem run_of_apply {c : Change Unit} {s t : Store} (h : (c.apply s).map Prod.snd = .ok t) :
    c.run s = .ok () t := by
  unfold Change.apply at h
  split at h
  · next hr =>
    cases h
    exact hr
  · cases h

theorem Invariant.addNode {s t : Store} (h : s.Invariant) {e : NodeEntry}
    (he : Document.addNode s e = .ok t) : t.Invariant := by
  obtain ⟨n, -, hn⟩ := bind_eq_ok_iff.1 he
  exact h.recoverNode (run_of_apply hn)

theorem Invariant.addRelationship {s t : Store} (h : s.Invariant) {e : RelationshipEntry}
    (he : Document.addRelationship s e = .ok t) : t.Invariant := by
  obtain ⟨r, -, hr⟩ := bind_eq_ok_iff.1 he
  exact h.recoverRelationship (run_of_apply hr)

theorem invariant_toStore {d : Document} {t : Store} (h : d.toStore = .ok t) : t.Invariant := by
  obtain ⟨s, hs, ht⟩ := bind_eq_ok_iff.1 h
  have hnodes : s.Invariant := by
    apply foldlM_keeps _ .empty hs
    intro s e t h he
    exact h.addNode he
  apply foldlM_keeps _ hnodes ht
  intro s e t h he
  exact h.addRelationship he

/-! ### Histories -/

theorem run_load {d : Document} {s t : Store} (hd : d.toStore = .ok t) :
    (Operation.load d).change.run s = .ok () t :=
  Change.run_require_bind_eq_ok_iff.2 ⟨t, hd, rfl⟩

open Change in
theorem Invariant.operation {s t : Store} (h : s.Invariant) {op : Operation} {x : Unit}
    (hr : op.change.run s = .ok x t) : t.Invariant := by
  cases op with
  | createNode label id properties =>
    obtain ⟨_, _, hr, h'⟩ := run_bind_eq_ok_iff.1 hr
    cases h'
    exact h.createNode hr
  | updateNode key patch => exact h.updateNode hr
  | deleteNode key =>
    obtain ⟨_, _, hr, h'⟩ := run_bind_eq_ok_iff.1 hr
    cases h'
    exact h.deleteNode hr
  | createRelationship kind source target properties =>
    obtain ⟨_, _, hr, h'⟩ := run_bind_eq_ok_iff.1 hr
    cases h'
    exact h.createRelationship hr
  | updateRelationship id patch => exact h.updateRelationship hr
  | deleteRelationship id =>
    obtain ⟨_, _, hr, h'⟩ := run_bind_eq_ok_iff.1 hr
    cases h'
    exact h.deleteRelationship hr
  | recoverNode n => exact h.recoverNode hr
  | recoverRelationship r => exact h.recoverRelationship hr
  | clear =>
    cases hr
    exact .empty
  | load d =>
    obtain ⟨u, hd, hset⟩ := run_require_bind_eq_ok_iff.1 hr
    cases hset
    exact invariant_toStore hd

/-- An operation leaves the invariant, whether it fails or not. -/
theorem Invariant.after {s : Store} (h : s.Invariant) (op : Operation) :
    (op.change.after s).Invariant := by
  unfold Change.after
  split
  · next x t hr => exact h.operation hr
  · next e t hr => exact atomic_operation op s e t hr ▸ h

theorem Reachable.invariant {s : Store} (h : s.Reachable) : s.Invariant := by
  obtain ⟨ops, rfl⟩ := h
  unfold history
  suffices hfold : ∀ s : Store, s.Invariant →
      (ops.foldl (fun s op => op.change.after s) s).Invariant from hfold _ .empty
  induction ops with
  | nil =>
    intro s hs
    exact hs
  | cons op rest ih =>
    intro s hs
    exact ih _ (hs.after op)

theorem Reachable.after {s : Store} (h : s.Reachable) (op : Operation) :
    (op.change.after s).Reachable := by
  obtain ⟨ops, rfl⟩ := h
  exact ⟨ops ++ [op], history_concat ops op⟩

theorem Reachable.step {s t : Store} (h : s.Reachable) {op : Operation} {x : Unit}
    (hr : op.change.run s = .ok x t) : t.Reachable := by
  have ht := h.after op
  rwa [Change.after, hr] at ht

/-- After every history the identity indices lead exactly to the live entities, no
relationship dangles, the rows of every node list exactly its relationships in ascending
order and those of a deleted node nothing, the tag indices list exactly the entities of
their tags, every stored bag could be stored again, and the counters are past all ids. -/
theorem invariant_history (ops : List Operation) : (history ops).Invariant :=
  Reachable.invariant ⟨ops, rfl⟩

end Store

end PropertyGraph
