import Mathlib.Order.Bounds.Basic
import PropertyGraph.Proofs.Store.Scan

/-! Ids over time. An era begins with the empty store, when a store is cleared, and when the
store of a document is put in its place; it knows every identity that was ever in the store
since then. Each counter is one past the greatest id of the era, whatever has been deleted
in the meantime, so the id that it assigns is a new one. -/

namespace PropertyGraph

/-- Whether the operation gives up what the store held before. -/
def Operation.restarts : Operation → Bool
  | .clear => true
  | .load d => d.toStore.isOk
  | _ => false

/-- One past the greatest of these ids, or one if there are none. -/
def IsNext (ids : Set Nat) (n : Nat) : Prop := (ids = ∅ ∧ n = 1) ∨ ∃ m, IsGreatest ids m ∧ n = m + 1

namespace IsNext

variable {ids : Set Nat} {n id : Nat}

theorem lt (h : IsNext ids n) (hid : id ∈ ids) : id < n := by
  rcases h with ⟨rfl, -⟩ | ⟨m, hm, rfl⟩
  · cases hid
  · exact Nat.lt_succ_of_le (hm.2 hid)

theorem insert (h : IsNext ids n) (id : Nat) : IsNext (insert id ids) (max n (id + 1)) := by
  rcases h with ⟨rfl, rfl⟩ | ⟨m, hm, rfl⟩
  · refine .inr ⟨id, ?_, by omega⟩
    rw [insert_empty_eq]
    exact isGreatest_singleton
  · exact .inr ⟨max id m, hm.insert id, by omega⟩

/-- The next id is past the bound exactly if the greatest one is the bound. -/
theorem bound_lt_iff (h : IsNext ids n) {bound : Nat} (hbound : 0 < bound) (hn : n ≤ bound + 1) :
    bound < n ↔ IsGreatest ids bound := by
  constructor
  · intro hlt
    rcases h with ⟨-, rfl⟩ | ⟨m, hm, rfl⟩
    · omega
    · have hm' : m = bound := by omega
      exact hm' ▸ hm
  · intro hgreatest
    exact h.lt hgreatest.1

/-- A check that fails past the greatest id fails exactly if that id was in use. -/
theorem eq_error_iff {α : Type} (h : IsNext ids n)
    (hn : n ≤ greatestId + 1) {a : α} {why : StoreError} :
    (if greatestId < n then Except.error (.invalidProperty "id" (.idTooLarge n)) else .ok a) =
        .error why ↔
      IsGreatest ids greatestId ∧ why = .invalidProperty "id" (.idTooLarge (greatestId + 1)) := by
  rw [← h.bound_lt_iff (by decide) hn]
  split
  · next hlt =>
    have hn : n = greatestId + 1 := by omega
    simp [hn, eq_comm]
  · next hle => simp [hle]

end IsNext

namespace Store

/-! ### One operation -/

/-- Nothing came in, and no counter was moved. -/
structure Quiet (s t : Store) : Prop where
  hasNode : ∀ key, t.hasNode key = true → s.hasNode key = true
  hasRelationship : ∀ id, t.hasRelationship id = true → s.hasRelationship id = true
  nextNodeIds : t.nextNodeIds = s.nextNodeIds
  nextRelationshipId : t.nextRelationshipId = s.nextRelationshipId

namespace Quiet

variable {s t u : Store}

theorem refl (s : Store) : Quiet s s := ⟨fun _ => id, fun _ => id, rfl, rfl⟩

theorem trans (h : Quiet s t) (h' : Quiet t u) : Quiet s u where
  hasNode key hk := h.hasNode key (h'.hasNode key hk)
  hasRelationship id hid := h.hasRelationship id (h'.hasRelationship id hid)
  nextNodeIds := h'.nextNodeIds.trans h.nextNodeIds
  nextRelationshipId := h'.nextRelationshipId.trans h.nextRelationshipId

end Quiet

theorem contains_of_contains_erase {α β : Type} [DecidableEq α] {m : OrderedMap α β} {k j : α}
    (h : (m.erase k).contains j = true) : m.contains j = true := by
  obtain ⟨v, hv⟩ := OrderedMap.contains_iff.1 h
  rw [OrderedMap.get?_erase] at hv
  split at hv
  · cases hv
  · exact OrderedMap.contains_iff.2 ⟨v, hv⟩

theorem quiet_detach (s : Store) (e : Nat) : Quiet s (s.detach e) := by
  have hsame := sameNodes_detach s e
  refine ⟨fun key hk => ?_, fun id hid => ?_, hsame.nextNodeIds, ?_⟩
  · rwa [hasNode, hsame.nodeSlots] at hk
  · unfold detach at hid
    split at hid
    · exact hid
    · exact contains_of_contains_erase hid
  · unfold detach
    split <;> rfl

theorem quiet_foldl_detach (slots : List Nat) (s : Store) :
    Quiet s (slots.foldl detach s) := by
  induction slots generalizing s with
  | nil => exact .refl s
  | cons e rest ih => exact (quiet_detach s e).trans (ih (s.detach e))

theorem quiet_removeNode (s : Store) (key : NodeKey) (i : Nat) (n : Node) :
    Quiet s (s.removeNode key i n) := by
  let cleared := { s with
    nodes := s.nodes.setIfInBounds i none
    outgoing := s.outgoing.setIfInBounds i []
    incoming := s.incoming.setIfInBounds i [] }
  have hcleared : Quiet s cleared := ⟨fun _ => id, fun _ => id, rfl, rfl⟩
  have hdetached := hcleared.trans (quiet_foldl_detach (s.adjacent i .both) cleared)
  refine ⟨fun k hk => ?_, hdetached.hasRelationship, hdetached.nextNodeIds,
    hdetached.nextRelationshipId⟩
  exact hdetached.hasNode k (contains_of_contains_erase hk)

/-- What an operation does to identities and counters. The counter of relationships is moved
past the id before the relationship is put in. -/
inductive Effect (s : Store) : Store → Prop where
  | quiet {t : Store} : Quiet s t → Effect s t
  | node (n : Node) : Effect s (s.insertNode n)
  | relationship (r : Relationship) (a b : Nat) : Effect s
      ({ s with nextRelationshipId := max s.nextRelationshipId (r.id + 1) }.insertRelationship
        r a b)

open Change in
/-- An operation that does not start over has one of these effects. -/
theorem effect_of_run {s t : Store} {op : Operation} {x : Unit} (hop : op.restarts = false)
    (hr : op.change.run s = .ok x t) : Effect s t := by
  cases op with
  | createNode label id properties =>
    obtain ⟨_, _, hr, h'⟩ := run_bind_eq_ok_iff.1 hr
    cases h'
    obtain ⟨-, -, -, -, rfl⟩ := run_createNode_eq_ok_iff.1 hr
    exact .node _
  | updateNode key patch =>
    obtain ⟨i, n, -, -, -, rfl⟩ := run_updateNode_eq_ok_iff.1 hr
    exact .quiet ⟨fun _ => id, fun _ => id, rfl, rfl⟩
  | deleteNode key =>
    obtain ⟨_, _, hr, h'⟩ := run_bind_eq_ok_iff.1 hr
    cases h'
    obtain ⟨i, -, -, rfl⟩ := run_deleteNode_eq_ok_iff.1 hr
    exact .quiet (quiet_removeNode s key i _)
  | createRelationship kind source target properties =>
    obtain ⟨_, _, hr, h'⟩ := run_bind_eq_ok_iff.1 hr
    cases h'
    obtain ⟨a, b, -, -, -, rfl, -, rfl⟩ := run_createRelationship_eq_ok_iff.1 hr
    have hnext :
        s.nextRelationshipId + 1 = max s.nextRelationshipId (s.nextRelationshipId + 1) := by
      omega
    rw [hnext]
    exact .relationship ⟨s.nextRelationshipId, kind, source, target, properties⟩ a b
  | updateRelationship id patch =>
    obtain ⟨e, r, -, -, -, rfl⟩ := run_updateRelationship_eq_ok_iff.1 hr
    exact .quiet ⟨fun _ h => h, fun _ h => h, rfl, rfl⟩
  | deleteRelationship id =>
    obtain ⟨_, _, hr, h'⟩ := run_bind_eq_ok_iff.1 hr
    cases h'
    obtain ⟨e, -, -, rfl⟩ := run_deleteRelationship_eq_ok_iff.1 hr
    exact .quiet (quiet_detach s e)
  | recoverNode n =>
    obtain ⟨-, -, -, rfl⟩ := run_recoverNode_eq_ok_iff.1 hr
    exact .node n
  | recoverRelationship r =>
    obtain ⟨a, b, -, -, -, -, -, rfl⟩ := run_recoverRelationship_eq_ok_iff.1 hr
    exact .relationship r a b
  | clear => cases hop
  | load d =>
    obtain ⟨u, hd, -⟩ := run_require_bind_eq_ok_iff.1 hr
    rw [Operation.restarts, hd] at hop
    cases hop

theorem effect_after {s : Store} {op : Operation} (hop : op.restarts = false) :
    Effect s (op.change.after s) := by
  unfold Change.after
  split
  · next x t hr => exact effect_of_run hop hr
  · next e t hr =>
    obtain rfl : t = s := atomic_operation op s e t hr
    exact .quiet (.refl t)

/-! ### Eras -/

/-- A store with all identities of the nodes and relationships that were in it. -/
structure Era where
  store : Store
  nodeKeys : Set NodeKey
  relationshipIds : Set Nat

namespace Era

/-- An era that begins with what a store holds. -/
def start (s : Store) : Era :=
  ⟨s, { key | s.hasNode key = true }, { id | s.hasRelationship id = true }⟩

def after (e : Era) (op : Operation) : Era :=
  let now := start (op.change.after e.store)
  if op.restarts then now
  else ⟨now.store, e.nodeKeys ∪ now.nodeKeys, e.relationshipIds ∪ now.relationshipIds⟩

/-- The era that a history ends in. -/
def ofHistory (ops : List Operation) : Era := ops.foldl after (start .empty)

/-- The ids that nodes of a label had. -/
def nodeIds (e : Era) (label : String) : Set Nat := { id | ⟨label, id⟩ ∈ e.nodeKeys }

theorem store_after (e : Era) (op : Operation) : (e.after op).store = op.change.after e.store := by
  unfold after
  split <;> rfl

theorem store_ofHistory (ops : List Operation) : (ofHistory ops).store = history ops := by
  suffices hfold : ∀ e : Era, (ops.foldl after e).store =
      ops.foldl (fun s op => op.change.after s) e.store from hfold (start .empty)
  induction ops with
  | nil => exact fun _ => rfl
  | cons op rest ih =>
    intro e
    rw [List.foldl_cons, List.foldl_cons, ih, store_after]

/-- The era knows all that is in its store, and its counters are the next ids. -/
structure Counted (e : Era) : Prop where
  node_mem : ∀ key, e.store.hasNode key = true → key ∈ e.nodeKeys
  relationship_mem : ∀ id, e.store.hasRelationship id = true → id ∈ e.relationshipIds
  nextNodeId : ∀ label, IsNext (e.nodeIds label) (e.store.nextNodeId label)
  nextRelationshipId : IsNext e.relationshipIds e.store.nextRelationshipId

end Era

theorem hasNode_insertNode (s : Store) (n : Node) (key : NodeKey) :
    (s.insertNode n).hasNode key = true ↔ s.hasNode key = true ∨ key = n.key := by
  rw [hasNode, insertNode, OrderedMap.contains, OrderedMap.get?_insert, hasNode,
    OrderedMap.contains]
  split
  · next h => simp [h]
  · next h => simp [Ne.symm h]

theorem hasRelationship_insertRelationship (s : Store) (r : Relationship) (a b id : Nat) :
    (s.insertRelationship r a b).hasRelationship id = true ↔
      s.hasRelationship id = true ∨ id = r.id := by
  rw [hasRelationship, insertRelationship, OrderedMap.contains, OrderedMap.get?_insert,
    hasRelationship, OrderedMap.contains]
  split
  · next h => simp [h]
  · next h => simp [Ne.symm h]

theorem nextNodeId_insertNode (s : Store) (n : Node) (label : String) :
    (s.insertNode n).nextNodeId label =
      if n.label = label then max (s.nextNodeId label) (n.key.id + 1) else s.nextNodeId label := by
  rw [nextNodeId, insertNode, OrderedMap.get?_update]
  split
  · next h => rw [Option.getD_some, nextNodeId, h]
  · rfl

theorem Era.nodeIds_insert {s t : Store} {keys : Set NodeKey} {ids : Set Nat} (key : NodeKey)
    (label : String) : nodeIds ⟨t, insert key keys, ids⟩ label =
      if key.label = label then insert key.id (nodeIds ⟨s, keys, ids⟩ label)
      else nodeIds ⟨s, keys, ids⟩ label := by
  obtain ⟨known, new⟩ := key
  ext id
  by_cases h : known = label
  · simp [nodeIds, h]
  · have h' : ¬ label = known := fun e => h e.symm
    simp [nodeIds, h, h']

namespace Era.Counted

variable {s t : Store} {keys : Set NodeKey} {ids : Set Nat}

theorem insertNode (h : Counted ⟨s, keys, ids⟩) (n : Node) :
    Counted ⟨s.insertNode n, insert n.key keys, ids⟩ where
  node_mem key hk := by
    rcases (hasNode_insertNode s n key).1 hk with hk | rfl
    · exact .inr (h.node_mem key hk)
    · exact .inl rfl
  relationship_mem := h.relationship_mem
  nextNodeId label := by
    have hnext := h.nextNodeId label
    rw [nodeIds_insert (s := s), nextNodeId_insertNode, Node.label]
    split
    · exact hnext.insert n.key.id
    · exact hnext
  nextRelationshipId := h.nextRelationshipId

theorem insertRelationship (h : Counted ⟨s, keys, ids⟩) (r : Relationship) (a b : Nat) :
    Counted ⟨{ s with
      nextRelationshipId := max s.nextRelationshipId (r.id + 1) }.insertRelationship r a b,
        keys, insert r.id ids⟩ where
  node_mem := h.node_mem
  relationship_mem id hid := by
    rcases (hasRelationship_insertRelationship _ r a b id).1 hid with hid | rfl
    · exact .inr (h.relationship_mem id hid)
    · exact .inl rfl
  nextNodeId := h.nextNodeId
  nextRelationshipId := h.nextRelationshipId.insert r.id

theorem quiet (h : Counted ⟨s, keys, ids⟩) (hq : Quiet s t) : Counted ⟨t, keys, ids⟩ where
  node_mem key hk := h.node_mem key (hq.hasNode key hk)
  relationship_mem id hid := h.relationship_mem id (hq.hasRelationship id hid)
  nextNodeId label := by
    have hnext := h.nextNodeId label
    rwa [Store.nextNodeId, ← hq.nextNodeIds] at hnext
  nextRelationshipId := by
    have hnext := h.nextRelationshipId
    rwa [← hq.nextRelationshipId] at hnext

/-- What was in the store is known already; what an operation brings in is added. -/
theorem effect (h : Counted ⟨s, keys, ids⟩) (ht : Effect s t) :
    Counted ⟨t, keys ∪ (start t).nodeKeys, ids ∪ (start t).relationshipIds⟩ := by
  cases ht with
  | quiet hq =>
    have hkeys : keys ∪ (start t).nodeKeys = keys :=
      Set.union_eq_left.2 fun key hk => h.node_mem key (hq.hasNode key hk)
    have hids : ids ∪ (start t).relationshipIds = ids :=
      Set.union_eq_left.2 fun id hid => h.relationship_mem id (hq.hasRelationship id hid)
    rw [hkeys, hids]
    exact h.quiet hq
  | node n =>
    have hkeys : keys ∪ (start (s.insertNode n)).nodeKeys = insert n.key keys := by
      ext key
      have hmem := h.node_mem key
      simp only [start, Set.mem_union, Set.mem_ofPred_eq, Set.mem_insert_iff, hasNode_insertNode]
      tauto
    have hids : ids ∪ (start (s.insertNode n)).relationshipIds = ids :=
      Set.union_eq_left.2 h.relationship_mem
    rw [hkeys, hids]
    exact h.insertNode n
  | relationship r a b =>
    let moved := { s with nextRelationshipId := max s.nextRelationshipId (r.id + 1) }
    have hkeys : keys ∪ (start (moved.insertRelationship r a b)).nodeKeys = keys :=
      Set.union_eq_left.2 h.node_mem
    have hids : ids ∪ (start (moved.insertRelationship r a b)).relationshipIds =
        insert r.id ids := by
      ext id
      have hmem : moved.hasRelationship id = true → id ∈ ids := h.relationship_mem id
      simp only [start, Set.mem_union, Set.mem_ofPred_eq, Set.mem_insert_iff,
        hasRelationship_insertRelationship]
      tauto
    rw [hkeys, hids]
    exact h.insertRelationship r a b

/-- What is only added to is known completely if it was before. -/
theorem start_of_effect (h : Counted (start s)) (ht : Effect s t)
    (hnodes : ∀ key, s.hasNode key = true → t.hasNode key = true)
    (hrelationships : ∀ id, s.hasRelationship id = true → t.hasRelationship id = true) :
    Counted (start t) := by
  have heffect : Counted ⟨t, (start s).nodeKeys ∪ (start t).nodeKeys,
      (start s).relationshipIds ∪ (start t).relationshipIds⟩ := h.effect ht
  have hkeys : (start s).nodeKeys ∪ (start t).nodeKeys = (start t).nodeKeys :=
    Set.union_eq_right.2 hnodes
  have hids : (start s).relationshipIds ∪ (start t).relationshipIds = (start t).relationshipIds :=
    Set.union_eq_right.2 hrelationships
  rwa [hkeys, hids] at heffect

theorem empty : Counted (start .empty) where
  node_mem _ := id
  relationship_mem _ := id
  nextNodeId _ := .inl ⟨Set.eq_empty_of_forall_notMem nofun, rfl⟩
  nextRelationshipId := .inl ⟨Set.eq_empty_of_forall_notMem nofun, rfl⟩

theorem addNode (h : Counted (start s)) {e : NodeEntry} (he : Document.addNode s e = .ok t) :
    Counted (start t) := by
  obtain ⟨n, -, hn⟩ := bind_eq_ok_iff.1 he
  obtain ⟨-, -, -, rfl⟩ := Change.run_recoverNode_eq_ok_iff.1 (run_of_apply hn)
  refine h.start_of_effect (.node n) (fun key hk => ?_) fun _ hid => hid
  exact (hasNode_insertNode s n key).2 (.inl hk)

theorem addRelationship (h : Counted (start s)) {e : RelationshipEntry}
    (he : Document.addRelationship s e = .ok t) : Counted (start t) := by
  obtain ⟨r, -, hr⟩ := bind_eq_ok_iff.1 he
  obtain ⟨a, b, -, -, -, -, -, rfl⟩ :=
    Change.run_recoverRelationship_eq_ok_iff.1 (run_of_apply hr)
  refine h.start_of_effect (.relationship r a b) (fun _ hk => hk) fun id hid => ?_
  exact (hasRelationship_insertRelationship _ r a b id).2 (.inl hid)

theorem toStore {d : Document} (hd : d.toStore = .ok t) : Counted (start t) := by
  obtain ⟨u, hu, ht⟩ := bind_eq_ok_iff.1 hd
  have hnodes : Counted (start u) :=
    foldlM_keeps (p := fun s => Counted (start s)) (fun _ _ _ h => h.addNode) .empty hu
  exact foldlM_keeps (p := fun s => Counted (start s)) (fun _ _ _ h => h.addRelationship) hnodes ht

/-- An operation that starts over leaves the empty store or the store of a document. -/
theorem restart {op : Operation} (hop : op.restarts = true) (s : Store) :
    Counted (start (op.change.after s)) := by
  cases op with
  | clear => exact .empty
  | load d =>
    cases hd : d.toStore with
    | error why =>
      rw [Operation.restarts, hd] at hop
      cases hop
    | ok u =>
      have hafter : (Operation.load d).change.after s = u := by
        rw [Change.after, run_load hd]
      rw [hafter]
      exact toStore hd
  | _ => cases hop

theorem after {e : Era} (h : e.Counted) (op : Operation) : (e.after op).Counted := by
  unfold Era.after
  split
  · next hop => exact restart hop e.store
  · next hop => exact h.effect (effect_after (Bool.eq_false_iff.2 hop))

theorem ofHistory (ops : List Operation) : (Era.ofHistory ops).Counted := by
  suffices hfold : ∀ e : Era, e.Counted → (ops.foldl Era.after e).Counted from
    hfold _ .empty
  induction ops with
  | nil => exact fun _ h => h
  | cons op rest ih => exact fun e h => ih _ (h.after op)

end Era.Counted

/-! ### Assigned ids -/

variable {s : Store}

/-- Without an id a node gets the next one of its label, which no node has, as long as ids
go that far. -/
theorem Invariant.createNode_none_eq (h : s.Invariant) (label : String) {properties : Bag}
    (hp : checkNodeProperties properties = .ok ()) :
    s.createNode label none properties =
      let key : NodeKey := ⟨label, s.nextNodeId label⟩
      if greatestId < key.id then .error (.invalidProperty "id" (.idTooLarge key.id))
      else .ok (key, s.insertNode ⟨key, properties⟩) := by
  have hnew : s.nodeSlots.get? ⟨label, s.nextNodeId label⟩ = none := by
    by_contra hne
    obtain ⟨i, hi⟩ := Option.ne_none_iff_exists'.1 hne
    obtain ⟨n, hn, hkey⟩ := (h.nodes.indexed _ _).1 hi
    have hlt := h.nodes.counted i n hn
    rw [Node.label, hkey] at hlt
    exact Nat.lt_irrefl _ hlt
  have hcheck : s.checkNewNode ⟨label, s.nextNodeId label⟩ = .ok () := checkNewNode_eq_ok_iff.2 hnew
  rw [Store.createNode, Change.apply, Change.createNode, Change.run_require_bind, hp]
  simp only [Change.run_get_bind, Change.run_require_bind, Option.getD_none, checkId]
  by_cases hid : greatestId < s.nextNodeId label
  · simp only [if_pos hid]
  · simp only [if_neg hid, Change.run_ask_bind, hcheck, Change.run_modify_bind, Change.run_pure]

theorem createRelationship_eq {a b : Nat} (kind : String) {source target : NodeKey}
    {properties : Bag} (ha : s.nodeSlots.get? source = some a)
    (hb : s.nodeSlots.get? target = some b) (hp : checkProperties properties = .ok ()) :
    s.createRelationship kind source target properties =
      let id := s.nextRelationshipId
      if greatestId < id then .error (.invalidProperty "id" (.idTooLarge id))
      else .ok (id, { s with nextRelationshipId := id + 1 }.insertRelationship
        ⟨id, kind, source, target, properties⟩ a b) := by
  have ha : s.nodeSlot source = .ok a := nodeSlot_eq_ok_iff.2 ha
  have hb : s.nodeSlot target = .ok b := nodeSlot_eq_ok_iff.2 hb
  rw [createRelationship, Change.apply, Change.createRelationship, Change.run_ask_bind, ha]
  simp only [Change.run_get_bind, Change.run_require_bind, Change.run_ask_bind, hb, hp, checkId]
  by_cases hid : greatestId < s.nextRelationshipId
  · simp only [if_pos hid]
  · simp only [if_neg hid, Change.run_modify_bind, Change.run_pure]

/-- The ids that a store assigns, told by those that were in use in its era. -/
structure Era.Assigns (e : Era) : Prop where
  relationship_lt : ∀ kind source target properties id t,
    e.store.createRelationship kind source target properties = .ok (id, t) →
    ∀ old ∈ e.relationshipIds, old < id
  relationship_eq_error_iff : ∀ kind source target properties why,
    e.store.hasNode source = true → e.store.hasNode target = true →
    checkProperties properties = .ok () →
    (e.store.createRelationship kind source target properties = .error why ↔
      IsGreatest e.relationshipIds greatestId ∧
        why = .invalidProperty "id" (.idTooLarge (greatestId + 1)))
  node_isNext : ∀ label properties key t,
    e.store.createNode label none properties = .ok (key, t) →
    key.label = label ∧ IsNext (e.nodeIds label) key.id
  node_ne_duplicate : ∀ label properties key,
    e.store.createNode label none properties ≠ .error (.duplicateNode key)
  node_eq_error_iff : ∀ label properties why, checkNodeProperties properties = .ok () →
    (e.store.createNode label none properties = .error why ↔
      IsGreatest (e.nodeIds label) greatestId ∧
        why = .invalidProperty "id" (.idTooLarge (greatestId + 1)))
  nextNodeId_le : ∀ label, e.store.nextNodeId label ≤ greatestId + 1
  nextRelationshipId_le : e.store.nextRelationshipId ≤ greatestId + 1

theorem Era.Counted.assigns {e : Era} (h : e.Counted) (hs : e.store.Invariant) : e.Assigns where
  relationship_lt kind source target properties id t hr old hold := by
    obtain ⟨_, _, _, _, _, rfl, _⟩ :=
      Change.run_createRelationship_eq_ok_iff.1 (Change.apply_eq_ok_iff.1 hr)
    exact h.nextRelationshipId.lt hold
  relationship_eq_error_iff kind source target properties why hsource htarget hp := by
    obtain ⟨a, ha⟩ := OrderedMap.contains_iff.1 hsource
    obtain ⟨b, hb⟩ := OrderedMap.contains_iff.1 htarget
    rw [createRelationship_eq kind ha hb hp]
    exact h.nextRelationshipId.eq_error_iff hs.relationships.bounded
  node_isNext label properties key t hr := by
    obtain ⟨-, rfl, -⟩ := Change.run_createNode_eq_ok_iff.1 (Change.apply_eq_ok_iff.1 hr)
    exact ⟨rfl, h.nextNodeId label⟩
  node_ne_duplicate label properties key hr := by
    cases hp : checkNodeProperties properties with
    | ok _ =>
      rw [hs.createNode_none_eq label hp] at hr
      obtain ⟨-, hwhy⟩ := ((h.nextNodeId label).eq_error_iff (hs.nodes.bounded label)).1 hr
      cases hwhy
    | error why =>
      rw [Store.createNode, Change.apply, Change.createNode, Change.run_require_bind, hp] at hr
      obtain ⟨name, objection, rfl⟩ := checkNodeProperties_eq_error hp
      cases hr
  node_eq_error_iff label properties why hp := by
    rw [hs.createNode_none_eq label hp]
    exact (h.nextNodeId label).eq_error_iff (hs.nodes.bounded label)
  nextNodeId_le := hs.nodes.bounded
  nextRelationshipId_le := hs.relationships.bounded

/-- After every history the store assigns ids past all that were in use since it last
started over, deleted and recovered ones too: a relationship comes after all relationships, a
node gets the id after the greatest one of its label. With arguments that are valid this
fails exactly if the greatest id there is was in use, and no counter goes past it by more
than one. -/
theorem assigns_history (ops : List Operation) :
    (Era.ofHistory ops).store = history ops ∧ (Era.ofHistory ops).Assigns := by
  have hstore := Era.store_ofHistory ops
  have hs : (Era.ofHistory ops).store.Invariant := hstore ▸ Reachable.invariant ⟨ops, rfl⟩
  exact ⟨hstore, (Era.Counted.ofHistory ops).assigns hs⟩

end Store

end PropertyGraph
