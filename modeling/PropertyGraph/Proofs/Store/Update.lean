import PropertyGraph.Proofs.Entity
import PropertyGraph.Proofs.OrderedMap.Merge

/-! Updates. An update merges a patch into the bag of one entity, which is found by its
identity, and leaves the rest of the store as it is; if the entity is missing or the patch is
refused, it leaves all of the store. Since merging is associative, two updates of an entity are
one update with the merged patches, and since an update looks at one identity only, updates of
different entities can be made in either order. -/

namespace PropertyGraph

/-! ### Entities by identity -/

/-- Identity of an entity. -/
inductive EntityKey where
  | node (key : NodeKey)
  | relationship (id : Nat)
deriving DecidableEq

/-- Whether a patch may be merged into the bag of such an entity. -/
def EntityKey.check : EntityKey → Bag → Except StoreError Unit
  | .node _, patch => checkNodeProperties patch
  | .relationship _, patch => checkProperties patch

def EntityKey.update : EntityKey → Bag → Change Unit
  | .node key, patch => Change.updateNode key patch
  | .relationship id, patch => Change.updateRelationship id patch

namespace Entity

def key : Entity → EntityKey
  | .node n => .node n.key
  | .relationship r => .relationship r.id

def merge : Entity → Bag → Entity
  | .node n, patch => .node (n.merge patch)
  | .relationship r, patch => .relationship (r.merge patch)

end Entity

/-- The entity of an identity. -/
def Store.entity? (s : Store) : EntityKey → Option Entity
  | .node key => (s.node? key).map .node
  | .relationship id => (s.relationship? id).map .relationship

theorem EntityKey.check_merge {k : EntityKey} {p q : Bag} (hp : k.check p = .ok ())
    (hq : k.check q = .ok ()) : k.check (p.merge q) = .ok () := by
  cases k with
  | node key =>
    obtain ⟨hp, hpid⟩ := checkNodeProperties_eq_ok_iff.1 hp
    obtain ⟨hq, hqid⟩ := checkNodeProperties_eq_ok_iff.1 hq
    refine checkNodeProperties_eq_ok_iff.2 ⟨hp.merge hq, ?_⟩
    rw [OrderedMap.get?_merge, hpid, hqid, Option.none_or]
  | relationship id =>
    exact checkProperties_eq_ok_iff.2
      ((checkProperties_eq_ok_iff.1 hp).merge (checkProperties_eq_ok_iff.1 hq))

/-! ### Amended arenas -/

namespace Arena

variable {α κ : Type} [DecidableEq κ] {arena : Array (Option α)} {i : Nat} {a : α}
  {key : α → κ} {merge : α → Bag → α} {k j : κ} {p q : Bag}

/-- Merges a patch into the bag of the entity of an identity. -/
def amend (arena : Array (Option α)) (key : α → κ) (merge : α → Bag → α) (k : κ) (patch : Bag) :
    Array (Option α) :=
  arena.map (Option.map fun a => if key a = k then merge a patch else a)

theorem at?_amend (arena : Array (Option α)) (key : α → κ) (merge : α → Bag → α) (k : κ)
    (patch : Bag) (i : Nat) : at? (amend arena key merge k patch) i =
      (at? arena i).map fun a => if key a = k then merge a patch else a := by
  rw [at?, amend, Array.getElem?_map, at?]
  cases arena[i]? <;> rfl

theorem amend_of_ne (h : ∀ a, key a ≠ k) (patch : Bag) : amend arena key merge k patch = arena := by
  refine ext_at? (Array.size_map ..) fun i => ?_
  rw [at?_amend]
  simp [h]

/-- Putting the merged entity in the slot that its identity leads to amends the arena. -/
theorem set_eq_amend {ι : Type} [DecidableEq ι] {identity : α → ι} {index : OrderedMap ι Nat}
    (h : Indexed arena identity index) {wrap : ι → κ} (hwrap : ∀ c d, wrap c = wrap d → c = d)
    {c : ι} (hc : index.get? c = some i) (ha : at? arena i = some a) (patch : Bag) :
    arena.setIfInBounds i (some (merge a patch)) =
      amend arena (fun a => wrap (identity a)) merge (wrap c) patch := by
  have hid : identity a = c := (h.get?_eq_iff ha).1 hc
  refine ext_at? (by simp [amend]) fun j => ?_
  rw [at?_set (lt_size_of_at? ha), at?_amend]
  by_cases hj : i = j
  · subst hj
    simp [ha, hid]
  · cases hb : at? arena j with
    | none => simp [hj]
    | some b =>
      have hne : wrap (identity b) ≠ wrap c := fun hk =>
        hj (h.unique ha hb (hid.trans (hwrap _ _ hk).symm)).1
      simp [hj, hne]

/-- What an index leads to in the amended arena. -/
theorem find_amend (slot : Option Nat) : slot.bind (at? (amend arena key merge k p)) =
    (slot.bind (at? arena)).map fun a => if key a = k then merge a p else a := by
  cases slot with
  | none => rfl
  | some i => exact at?_amend ..

theorem amend_amend (hkey : ∀ a p, key (merge a p) = key a)
    (hmerge : ∀ a p q, merge (merge a p) q = merge a (p.merge q)) :
    amend (amend arena key merge k p) key merge k q = amend arena key merge k (p.merge q) := by
  refine ext_at? (by simp [amend]) fun i => ?_
  rw [at?_amend, at?_amend, at?_amend, Option.map_map]
  refine congrArg (Option.map · _) (funext fun a => ?_)
  by_cases ha : key a = k <;> simp [ha, hkey, hmerge]

theorem amend_comm (hkey : ∀ a p, key (merge a p) = key a) (hne : k ≠ j) :
    amend (amend arena key merge k p) key merge j q =
      amend (amend arena key merge j q) key merge k p := by
  refine ext_at? (by simp [amend]) fun i => ?_
  rw [at?_amend, at?_amend, at?_amend, at?_amend, Option.map_map, Option.map_map]
  refine congrArg (Option.map · _) (funext fun a => ?_)
  by_cases ha : key a = k
  · have hj : key a ≠ j := fun h => hne (ha.symm.trans h)
    simp [ha, hkey, hne]
  · by_cases hj : key a = j <;> simp [ha, hj, hkey, hne.symm]

end Arena

namespace Store

open Arena Change

variable {s t : Store} {k j : EntityKey} {e : Entity} {p q : Bag}

/-- A patch is merged into the bag of the entity of an identity. -/
def amended (s : Store) (k : EntityKey) (patch : Bag) : Store :=
  { s with
    nodes := amend s.nodes (fun n => .node n.key) Node.merge k patch
    relationships :=
      amend s.relationships (fun r => .relationship r.id) Relationship.merge k patch }

theorem amended_amended (s : Store) (k : EntityKey) (p q : Bag) :
    (s.amended k p).amended k q = s.amended k (p.merge q) := by
  have hnodes : amend (amend s.nodes _ Node.merge k p) (fun n => .node n.key) Node.merge k q = _ :=
    amend_amend (fun _ _ => rfl) fun n p q =>
      congrArg (Node.mk n.key) (OrderedMap.merge_assoc n.properties p q)
  have hrelationships : amend (amend s.relationships _ Relationship.merge k p)
      (fun r => .relationship r.id) Relationship.merge k q = _ :=
    amend_amend (fun _ _ => rfl) fun r p q =>
      congrArg (Relationship.mk r.id r.kind r.source r.target)
        (OrderedMap.merge_assoc r.properties p q)
  rw [amended, amended, amended, hnodes, hrelationships]

theorem amended_comm (s : Store) (hne : k ≠ j) (p q : Bag) :
    (s.amended k p).amended j q = (s.amended j q).amended k p := by
  have hnodes : amend (amend s.nodes _ Node.merge k p) (fun n => .node n.key) Node.merge j q = _ :=
    amend_comm (fun _ _ => rfl) hne
  have hrelationships : amend (amend s.relationships _ Relationship.merge k p)
      (fun r => .relationship r.id) Relationship.merge j q = _ :=
    amend_comm (fun _ _ => rfl) hne
  rw [amended, amended, amended, amended, hnodes, hrelationships]

theorem entity?_amended_eq_map (s : Store) (k : EntityKey) (p : Bag) (j : EntityKey) :
    (s.amended k p).entity? j = (s.entity? j).map fun e => if e.key = k then e.merge p else e := by
  cases j with
  | node key =>
    have hnode : (s.amended k p).node? key = _ := find_amend (s.nodeSlots.get? key)
    rw [entity?, hnode, Option.map_map, entity?, Option.map_map]
    refine congrArg (Option.map · _) (funext fun n => ?_)
    exact apply_ite Entity.node ..
  | relationship id =>
    have hrelationship : (s.amended k p).relationship? id = _ :=
      find_amend (s.relationshipSlots.get? id)
    rw [entity?, hrelationship, Option.map_map, entity?, Option.map_map]
    refine congrArg (Option.map · _) (funext fun r => ?_)
    exact apply_ite Entity.relationship ..

/-! ### What an update does -/

namespace Invariant

theorem entity?_eq_some_iff (h : s.Invariant) : s.entity? k = some e ↔ e.Live s ∧ e.key = k := by
  cases k with
  | node key =>
    rw [entity?, Option.map_eq_some_iff]
    constructor
    · rintro ⟨n, hn, rfl⟩
      obtain ⟨hmem, hkey⟩ := h.node?_eq_some_iff.1 hn
      exact ⟨hmem, congrArg _ hkey⟩
    · rintro ⟨hlive, hkey⟩
      cases e with
      | node n => exact ⟨n, h.node?_eq_some_iff.2 ⟨hlive, EntityKey.node.inj hkey⟩, rfl⟩
      | relationship r => cases hkey
  | relationship id =>
    rw [entity?, Option.map_eq_some_iff]
    constructor
    · rintro ⟨r, hr, rfl⟩
      obtain ⟨hmem, hid⟩ := h.relationship?_eq_some_iff.1 hr
      exact ⟨hmem, congrArg _ hid⟩
    · rintro ⟨hlive, hid⟩
      cases e with
      | node n => cases hid
      | relationship r =>
        exact ⟨r, h.relationship?_eq_some_iff.2 ⟨hlive, EntityKey.relationship.inj hid⟩, rfl⟩

theorem set_node_eq_amended (h : s.Invariant) {c : NodeKey} {i : Nat} {n : Node}
    (hi : s.nodeSlots.get? c = some i) (hn : s.nodeAt? i = some n) (p : Bag) :
    { s with nodes := s.nodes.setIfInBounds i (some (n.merge p)) } = s.amended (.node c) p := by
  have hrest : amend s.relationships (fun r => EntityKey.relationship r.id) Relationship.merge
      (.node c) p = s.relationships := amend_of_ne (fun _ h => EntityKey.noConfusion h) p
  rw [amended, hrest, set_eq_amend h.nodes.indexed (fun _ _ => EntityKey.node.inj) hi hn]

theorem set_relationship_eq_amended (h : s.Invariant) {c i : Nat} {r : Relationship}
    (hi : s.relationshipSlots.get? c = some i) (hr : s.relationshipAt? i = some r) (p : Bag) :
    { s with relationships := s.relationships.setIfInBounds i (some (r.merge p)) } =
      s.amended (.relationship c) p := by
  have hrest : amend s.nodes (fun n => EntityKey.node n.key) Node.merge (.relationship c) p =
      s.nodes := amend_of_ne (fun _ h => EntityKey.noConfusion h) p
  rw [amended, hrest,
    set_eq_amend h.relationships.indexed (fun _ _ => EntityKey.relationship.inj) hi hr]

/-- An update goes through if the entity is there and the patch is admitted, and then it
amends the store. -/
theorem run_update_eq_ok_iff (h : s.Invariant) {x : Unit} : (k.update p).run s = .ok x t ↔
    (∃ e, s.entity? k = some e) ∧ k.check p = .ok () ∧ t = s.amended k p := by
  cases k with
  | node c =>
    rw [EntityKey.update, run_updateNode_eq_ok_iff]
    constructor
    · rintro ⟨i, n, hi, hp, hn, rfl⟩
      exact ⟨⟨.node n, by simp [entity?, node?, hi, hn]⟩, hp, h.set_node_eq_amended hi hn p⟩
    · rintro ⟨⟨e, he⟩, hp, rfl⟩
      obtain ⟨n, hn, -⟩ := Option.map_eq_some_iff.1 he
      obtain ⟨i, hi, hn⟩ := Option.bind_eq_some_iff.1 hn
      exact ⟨i, n, hi, hp, hn, (h.set_node_eq_amended hi hn p).symm⟩
  | relationship c =>
    rw [EntityKey.update, run_updateRelationship_eq_ok_iff]
    constructor
    · rintro ⟨i, r, hi, hp, hr, rfl⟩
      exact ⟨⟨.relationship r, by simp [entity?, relationship?, hi, hr]⟩, hp,
        h.set_relationship_eq_amended hi hr p⟩
    · rintro ⟨⟨e, he⟩, hp, rfl⟩
      obtain ⟨r, hr, -⟩ := Option.map_eq_some_iff.1 he
      obtain ⟨i, hi, hr⟩ := Option.bind_eq_some_iff.1 hr
      exact ⟨i, r, hi, hp, hr, (h.set_relationship_eq_amended hi hr p).symm⟩

/-- What an update leaves, whether it goes through or not. -/
theorem after_update (h : s.Invariant) (k : EntityKey) (p : Bag) :
    (k.update p).after s = s ∨ (k.update p).after s = s.amended k p := by
  have hatomic : Atomic (k.update p) := by
    cases k with
    | node key => exact atomic_updateNode key p
    | relationship id => exact atomic_updateRelationship id p
  unfold Change.after
  split
  · next x t hr => exact .inr (h.run_update_eq_ok_iff.1 hr).2.2
  · next why t hr => exact .inl (hatomic s why t hr)

theorem amended (h : s.Invariant) (he : s.entity? k = some e) (hp : k.check p = .ok ()) :
    (s.amended k p).Invariant := by
  have hr : (k.update p).run s = .ok () (s.amended k p) :=
    h.run_update_eq_ok_iff.2 ⟨⟨e, he⟩, hp, rfl⟩
  cases k with
  | node key => exact h.updateNode hr
  | relationship id => exact h.updateRelationship hr

/-- The entity of the identity has the merged bag, and every other entity is as it was. -/
theorem entity?_amended (h : s.Invariant) (k : EntityKey) (p : Bag) (j : EntityKey) :
    (s.amended k p).entity? j =
      if j = k then (s.entity? j).map fun e => e.merge p else s.entity? j := by
  rw [entity?_amended_eq_map]
  cases hj : s.entity? j with
  | none => split <;> rfl
  | some e =>
    rw [Option.map_some, Option.map_some, (h.entity?_eq_some_iff.1 hj).2]
    split <;> rfl

theorem interchange_update (h : s.Invariant) (hne : j ≠ k) {f : Entity} {r : Bag}
    (he : s.entity? k = some e) (hp : k.check p = .ok ()) (hf : s.entity? j = some f)
    (hr : j.check r = .ok ()) : Interchange (k.update p) (j.update r) s () () := by
  have hfk : (s.amended k p).entity? j = some f := by rw [h.entity?_amended, if_neg hne, hf]
  have hej : (s.amended j r).entity? k = some e := by rw [h.entity?_amended, if_neg hne.symm, he]
  refine ⟨s.amended k p, s.amended j r, (s.amended k p).amended j r, ?_, ?_, ?_, ?_⟩
  · exact h.run_update_eq_ok_iff.2 ⟨⟨e, he⟩, hp, rfl⟩
  · exact (h.amended he hp).run_update_eq_ok_iff.2 ⟨⟨f, hfk⟩, hr, rfl⟩
  · exact h.run_update_eq_ok_iff.2 ⟨⟨f, hf⟩, hr, rfl⟩
  · exact (h.amended hf hr).run_update_eq_ok_iff.2 ⟨⟨e, hej⟩, hp, amended_comm s hne.symm p r⟩

/-- An update writes the arenas only, and there one entity only. -/
theorem frame_update (h : s.Invariant) (k : EntityKey) (p : Bag) :
    ∃ nodes relationships, (k.update p).after s = { s with nodes, relationships } ∧
      ∀ j ≠ k, ((k.update p).after s).entity? j = s.entity? j := by
  rcases h.after_update k p with hsame | hamended
  · exact ⟨s.nodes, s.relationships, hsame, fun j _ => congrArg (·.entity? j) hsame⟩
  · refine ⟨_, _, hamended, fun j hj => ?_⟩
    rw [hamended, h.entity?_amended, if_neg hj]

end Invariant

/-- How updates of an entity go together, and with updates of others. -/
structure UpdatesCompose (s : Store) (k : EntityKey) (p q : Bag) : Prop where
  /-- The patch is merged into the bag of the entity. -/
  amends : (k.update p).run s = .ok () (s.amended k p) ∧
    ∀ e, s.entity? k = some e → (s.amended k p).entity? k = some (e.merge p)
  /-- One after the other they are one update with the merged patch. -/
  consecutive : ∃ t u, (k.update p).run s = .ok () t ∧ (k.update q).run t = .ok () u ∧
    (k.update (p.merge q)).run s = .ok () u
  /-- Made again, an update changes nothing. -/
  repeated : ∃ t, (k.update p).run s = .ok () t ∧ (k.update p).run t = .ok () t
  /-- Keys keep their places and take the values of the patch, and the new entries of the patch
  come behind them in its order. -/
  ordered : ∀ bag patch : Bag, (bag.merge patch).entries =
    bag.entries.map (fun x => (x.1, (patch.get? x.1).getD x.2)) ++
      patch.entries.filter fun x => !bag.contains x.1
  interchange : ∀ j f r, j ≠ k → s.entity? j = some f → j.check r = .ok () →
    Interchange (k.update p) (j.update r) s () ()
  /-- No update, made or refused, changes the other tables or another entity. -/
  frame : ∀ j r, ∃ nodes relationships, (j.update r).after s = { s with nodes, relationships } ∧
    ∀ i ≠ j, ((j.update r).after s).entity? i = s.entity? i

end Store

end PropertyGraph
