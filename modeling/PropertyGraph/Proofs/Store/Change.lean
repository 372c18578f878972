import PropertyGraph.Proofs.Store.Deletion
import PropertyGraph.Store.Change

/-! How changes run. A change is atomic if it leaves the store as it was whenever it fails.
Reads and checks keep the store, writes never fail, and a change that reads first and
writes afterwards is atomic; all public operations are of that form. For a change that
goes through, its answer and the store that it leaves are told by what was asked on the
way. -/

namespace PropertyGraph

namespace Store

variable {s : Store}

theorem nodeSlot_eq_ok_iff {key : NodeKey} {i : Nat} :
    s.nodeSlot key = .ok i ↔ s.nodeSlots.get? key = some i := by
  rw [nodeSlot]
  cases s.nodeSlots.get? key <;> simp

theorem relationshipSlot_eq_ok_iff {id e : Nat} :
    s.relationshipSlot id = .ok e ↔ s.relationshipSlots.get? id = some e := by
  rw [relationshipSlot]
  cases s.relationshipSlots.get? id <;> simp

theorem nodeIn_eq_ok_iff {i : Nat} {key : NodeKey} {n : Node} :
    s.nodeIn i key = .ok n ↔ s.nodeAt? i = some n := by
  rw [nodeIn]
  cases s.nodeAt? i <;> simp

theorem relationshipIn_eq_ok_iff {e id : Nat} {r : Relationship} :
    s.relationshipIn e id = .ok r ↔ s.relationshipAt? e = some r := by
  rw [relationshipIn]
  cases s.relationshipAt? e <;> simp

theorem checkNewNode_eq_ok_iff {key : NodeKey} {x : Unit} :
    s.checkNewNode key = .ok x ↔ s.nodeSlots.get? key = none := by
  rw [checkNewNode, hasNode, OrderedMap.contains]
  cases s.nodeSlots.get? key <;> simp

theorem checkNewRelationship_eq_ok_iff {id : Nat} {x : Unit} :
    s.checkNewRelationship id = .ok x ↔ s.relationshipSlots.get? id = none := by
  rw [checkNewRelationship, hasRelationship, OrderedMap.contains]
  cases s.relationshipSlots.get? id <;> simp

end Store

namespace Change

variable {α β : Type} {c : Change α} {f : α → Change β} {s t : Store}

/-! ### Atomic changes -/

/-- The change keeps the store, whether it fails or not. -/
def Keeps (c : Change α) : Prop := ∀ s, c.after s = s

/-- The change never fails. -/
def Goes (c : Change α) : Prop := ∀ s e t, c.run s ≠ .error e t

/-- The change keeps the store if it fails. -/
def Atomic (c : Change α) : Prop := ∀ s e t, c.run s = .error e t → t = s

theorem run_bind (c : Change α) (f : α → Change β) (s : Store) :
    (c >>= f).run s = match c.run s with
      | .ok a t => (f a).run t
      | .error e t => .error e t := by
  simp only [bind, EStateM.bind, EStateM.run]
  cases c s <;> rfl

theorem Keeps.eq_of_ok (h : Keeps c) {a : α} (hr : c.run s = .ok a t) : t = s := by
  have hs := h s
  rwa [after, hr] at hs

theorem Keeps.atomic (h : Keeps c) : Atomic c := by
  intro s e t hr
  have hs := h s
  rwa [after, hr] at hs

theorem Goes.atomic (h : Goes c) : Atomic c := by
  intro s e t hr
  exact absurd hr (h s e t)

theorem Keeps.bind_atomic (h : Keeps c) (hf : ∀ a, Atomic (f a)) : Atomic (c >>= f) := by
  intro s e t hr
  rw [run_bind] at hr
  split at hr
  · next a u hc =>
    have hu := h.eq_of_ok hc
    subst hu
    exact hf a u e t hr
  · next e' u hc =>
    cases hr
    exact h.atomic s e t hc

theorem Atomic.bind_goes (h : Atomic c) (hf : ∀ a, Goes (f a)) : Atomic (c >>= f) := by
  intro s e t hr
  rw [run_bind] at hr
  split at hr
  · next a u hc => exact absurd hr (hf a u e t)
  · next e' u hc =>
    cases hr
    exact h s e t hc

theorem Goes.bind (h : Goes c) (hf : ∀ a, Goes (f a)) : Goes (c >>= f) := by
  intro s e t hr
  rw [run_bind] at hr
  split at hr
  · next a u hc => exact hf a u e t hr
  · next e' u hc => exact h s e' u hc

theorem keeps_ask (x : Store → Except StoreError α) : Keeps (ask x) := by
  intro s
  unfold after EStateM.run ask
  cases x s <;> rfl

theorem keeps_require (x : Except StoreError α) : Keeps (require x) := keeps_ask _

theorem keeps_get : Keeps (get : Change Store) := fun _ => rfl

theorem goes_get : Goes (get : Change Store) := fun _ _ _ h => by cases h

theorem goes_pure (a : α) : Goes (pure a : Change α) := fun _ _ _ h => by cases h

theorem goes_modify (g : Store → Store) : Goes (modify g : Change PUnit) :=
  fun _ _ _ h => by cases h

theorem goes_set (s : Store) : Goes (set s : Change PUnit) := fun _ _ _ h => by cases h

/-! ### The public operations are atomic -/

theorem atomic_createNode (label : String) (id : Option Nat) (properties : Bag) :
    Atomic (createNode label id properties) :=
  (keeps_require _).bind_atomic fun _ => keeps_get.bind_atomic fun _ =>
    (keeps_require _).bind_atomic fun _ => (keeps_ask _).bind_atomic fun _ =>
      ((goes_modify _).bind fun _ => goes_pure _).atomic

theorem atomic_createRelationship (kind : String) (source target : NodeKey) (properties : Bag) :
    Atomic (createRelationship kind source target properties) :=
  (keeps_ask _).bind_atomic fun _ => (keeps_ask _).bind_atomic fun _ =>
    (keeps_require _).bind_atomic fun _ => keeps_get.bind_atomic fun _ =>
      (keeps_require _).bind_atomic fun _ =>
        ((goes_modify _).bind fun _ => (goes_modify _).bind fun _ => goes_pure _).atomic

theorem atomic_recoverNode (n : Node) : Atomic (recoverNode n) :=
  (keeps_ask _).bind_atomic fun _ => (keeps_require _).bind_atomic fun _ =>
    (keeps_require _).bind_atomic fun _ => (goes_modify _).atomic

theorem atomic_recoverRelationship (r : Relationship) : Atomic (recoverRelationship r) :=
  (keeps_ask _).bind_atomic fun _ => (keeps_require _).bind_atomic fun _ =>
    (keeps_ask _).bind_atomic fun _ => (keeps_ask _).bind_atomic fun _ =>
      (keeps_require _).bind_atomic fun _ =>
        ((goes_modify _).bind fun _ => goes_modify _).atomic

theorem atomic_updateNode (key : NodeKey) (patch : Bag) : Atomic (updateNode key patch) :=
  (keeps_ask _).bind_atomic fun _ => (keeps_require _).bind_atomic fun _ =>
    (keeps_ask _).bind_atomic fun _ => (goes_modify _).atomic

theorem atomic_updateRelationship (id : Nat) (patch : Bag) :
    Atomic (updateRelationship id patch) :=
  (keeps_ask _).bind_atomic fun _ => (keeps_require _).bind_atomic fun _ =>
    (keeps_ask _).bind_atomic fun _ => (goes_modify _).atomic

theorem atomic_deleteNode (key : NodeKey) : Atomic (deleteNode key) :=
  (keeps_ask _).bind_atomic fun _ => (keeps_ask _).bind_atomic fun _ =>
    ((goes_modify _).bind fun _ => goes_pure _).atomic

theorem atomic_deleteRelationship (id : Nat) : Atomic (deleteRelationship id) :=
  (keeps_ask _).bind_atomic fun _ => (keeps_ask _).bind_atomic fun _ =>
    ((goes_modify _).bind fun _ => goes_pure _).atomic

theorem goes_clear : Goes clear := goes_set _

/-! ### Runs that go through -/

theorem run_bind_eq_ok_iff {b : β} :
    (c >>= f).run s = .ok b t ↔ ∃ a u, c.run s = .ok a u ∧ (f a).run u = .ok b t := by
  rw [run_bind]
  cases c.run s <;> simp

theorem run_ask_bind (x : Store → Except StoreError α) (f : α → Change β) (s : Store) :
    (ask x >>= f).run s = match x s with
      | .ok a => (f a).run s
      | .error why => .error why s := by
  rw [run_bind]
  simp only [EStateM.run, ask]
  cases x s <;> rfl

theorem run_require_bind (x : Except StoreError α) (f : α → Change β) (s : Store) :
    (require x >>= f).run s = match x with
      | .ok a => (f a).run s
      | .error why => .error why s :=
  run_ask_bind _ f s

theorem run_ask_bind_eq_ok_iff {x : Store → Except StoreError α} {b : β} :
    (ask x >>= f).run s = .ok b t ↔ ∃ a, x s = .ok a ∧ (f a).run s = .ok b t := by
  rw [run_ask_bind]
  cases x s <;> simp

theorem run_require_bind_eq_ok_iff {x : Except StoreError α} {b : β} :
    (require x >>= f).run s = .ok b t ↔ ∃ a, x = .ok a ∧ (f a).run s = .ok b t :=
  run_ask_bind_eq_ok_iff

theorem run_get_bind (f : Store → Change β) (s : Store) : (get >>= f).run s = (f s).run s := rfl

theorem run_modify_bind (g : Store → Store) (f : PUnit → Change β) (s : Store) :
    (modify g >>= f).run s = (f ⟨⟩).run (g s) := rfl

theorem run_modify (g : Store → Store) (s : Store) :
    (modify g : Change PUnit).run s = .ok ⟨⟩ (g s) := rfl

theorem run_pure (a : α) (s : Store) : (pure a : Change α).run s = .ok a s := rfl

theorem apply_eq_ok_iff {a : α} : c.apply s = .ok (a, t) ↔ c.run s = .ok a t := by
  unfold apply
  cases c.run s <;> simp

/-! ### What the operations ask and write -/

theorem run_createNode_eq_ok_iff {label : String} {id : Option Nat} {properties : Bag}
    {key : NodeKey} : (createNode label id properties).run s = .ok key t ↔
      checkNodeProperties properties = .ok () ∧
      key = ⟨label, id.getD (s.nextNodeId label)⟩ ∧ checkId key.id = .ok () ∧
      s.nodeSlots.get? key = none ∧ t = s.insertNode ⟨key, properties⟩ := by
  simp only [createNode, run_require_bind_eq_ok_iff, run_ask_bind_eq_ok_iff, run_get_bind,
    run_modify_bind, run_pure, EStateM.Result.ok.injEq, Store.checkNewNode_eq_ok_iff]
  constructor
  · rintro ⟨_, hp, _, hid, _, hnew, rfl, rfl⟩
    exact ⟨hp, rfl, hid, hnew, rfl⟩
  · rintro ⟨hp, rfl, hid, hnew, rfl⟩
    exact ⟨⟨⟩, hp, ⟨⟩, hid, ⟨⟩, hnew, rfl, rfl⟩

theorem run_createRelationship_eq_ok_iff {kind : String} {source target : NodeKey}
    {properties : Bag} {id : Nat} :
    (createRelationship kind source target properties).run s = .ok id t ↔
      ∃ a b, s.nodeSlots.get? source = some a ∧ s.nodeSlots.get? target = some b ∧
        checkProperties properties = .ok () ∧ id = s.nextRelationshipId ∧
        checkId id = .ok () ∧
        t = { s with nextRelationshipId := id + 1 }.insertRelationship
          ⟨id, kind, source, target, properties⟩ a b := by
  simp only [createRelationship, run_require_bind_eq_ok_iff, run_ask_bind_eq_ok_iff, run_get_bind,
    run_modify_bind, run_pure, EStateM.Result.ok.injEq, Store.nodeSlot_eq_ok_iff]
  constructor
  · rintro ⟨a, ha, b, hb, _, hp, _, hid, rfl, rfl⟩
    exact ⟨a, b, ha, hb, hp, rfl, hid, rfl⟩
  · rintro ⟨a, b, ha, hb, hp, rfl, hid, rfl⟩
    exact ⟨a, ha, b, hb, ⟨⟩, hp, ⟨⟩, hid, rfl, rfl⟩

theorem run_recoverNode_eq_ok_iff {n : Node} {x : Unit} : (recoverNode n).run s = .ok x t ↔
    s.nodeSlots.get? n.key = none ∧ checkId n.key.id = .ok () ∧
    checkNodeProperties n.properties = .ok () ∧ t = s.insertNode n := by
  simp only [recoverNode, run_require_bind_eq_ok_iff, run_ask_bind_eq_ok_iff, run_modify,
    EStateM.Result.ok.injEq, true_and, Store.checkNewNode_eq_ok_iff]
  constructor
  · rintro ⟨_, hnew, _, hid, _, hp, rfl⟩
    exact ⟨hnew, hid, hp, rfl⟩
  · rintro ⟨hnew, hid, hp, rfl⟩
    exact ⟨⟨⟩, hnew, ⟨⟩, hid, ⟨⟩, hp, rfl⟩

theorem run_recoverRelationship_eq_ok_iff {r : Relationship} {x : Unit} :
    (recoverRelationship r).run s = .ok x t ↔
      ∃ a b, s.relationshipSlots.get? r.id = none ∧ checkId r.id = .ok () ∧
        s.nodeSlots.get? r.source = some a ∧ s.nodeSlots.get? r.target = some b ∧
        checkProperties r.properties = .ok () ∧
        t = { s with
          nextRelationshipId := max s.nextRelationshipId (r.id + 1) }.insertRelationship r a b := by
  simp only [recoverRelationship, run_require_bind_eq_ok_iff, run_ask_bind_eq_ok_iff,
    run_modify_bind, run_modify, EStateM.Result.ok.injEq, true_and,
    Store.checkNewRelationship_eq_ok_iff, Store.nodeSlot_eq_ok_iff]
  constructor
  · rintro ⟨_, hnew, _, hid, a, ha, b, hb, _, hp, rfl⟩
    exact ⟨a, b, hnew, hid, ha, hb, hp, rfl⟩
  · rintro ⟨a, b, hnew, hid, ha, hb, hp, rfl⟩
    exact ⟨⟨⟩, hnew, ⟨⟩, hid, a, ha, b, hb, ⟨⟩, hp, rfl⟩

theorem run_updateNode_eq_ok_iff {key : NodeKey} {patch : Bag} {x : Unit} :
    (updateNode key patch).run s = .ok x t ↔
      ∃ i n, s.nodeSlots.get? key = some i ∧ checkNodeProperties patch = .ok () ∧
        s.nodeAt? i = some n ∧
        t = { s with nodes := s.nodes.setIfInBounds i (some (n.merge patch)) } := by
  simp only [updateNode, run_require_bind_eq_ok_iff, run_ask_bind_eq_ok_iff, run_modify,
    EStateM.Result.ok.injEq, true_and, Store.nodeSlot_eq_ok_iff, Store.nodeIn_eq_ok_iff]
  constructor
  · rintro ⟨i, hi, _, hp, n, hn, rfl⟩
    exact ⟨i, n, hi, hp, hn, rfl⟩
  · rintro ⟨i, n, hi, hp, hn, rfl⟩
    exact ⟨i, hi, ⟨⟩, hp, n, hn, rfl⟩

theorem run_updateRelationship_eq_ok_iff {id : Nat} {patch : Bag} {x : Unit} :
    (updateRelationship id patch).run s = .ok x t ↔
      ∃ e r, s.relationshipSlots.get? id = some e ∧ checkProperties patch = .ok () ∧
        s.relationshipAt? e = some r ∧
        t = { s with relationships := s.relationships.setIfInBounds e (some (r.merge patch)) } := by
  simp only [updateRelationship, run_require_bind_eq_ok_iff, run_ask_bind_eq_ok_iff, run_modify,
    EStateM.Result.ok.injEq, true_and, Store.relationshipSlot_eq_ok_iff,
    Store.relationshipIn_eq_ok_iff]
  constructor
  · rintro ⟨e, he, _, hp, r, hr, rfl⟩
    exact ⟨e, r, he, hp, hr, rfl⟩
  · rintro ⟨e, r, he, hp, hr, rfl⟩
    exact ⟨e, he, ⟨⟩, hp, r, hr, rfl⟩

theorem run_deleteNode_eq_ok_iff {key : NodeKey} {n : Node} :
    (deleteNode key).run s = .ok n t ↔
      ∃ i, s.nodeSlots.get? key = some i ∧ s.nodeAt? i = some n ∧ t = s.removeNode key i n := by
  simp only [deleteNode, run_ask_bind_eq_ok_iff, run_modify_bind, run_pure,
    EStateM.Result.ok.injEq, Store.nodeSlot_eq_ok_iff, Store.nodeIn_eq_ok_iff]
  constructor
  · rintro ⟨i, hi, m, hm, rfl, rfl⟩
    exact ⟨i, hi, hm, rfl⟩
  · rintro ⟨i, hi, hn, rfl⟩
    exact ⟨i, hi, n, hn, rfl, rfl⟩

theorem run_deleteRelationship_eq_ok_iff {id : Nat} {r : Relationship} :
    (deleteRelationship id).run s = .ok r t ↔
      ∃ e, s.relationshipSlots.get? id = some e ∧ s.relationshipAt? e = some r ∧
        t = s.detach e := by
  simp only [deleteRelationship, run_ask_bind_eq_ok_iff, run_modify_bind, run_pure,
    EStateM.Result.ok.injEq, Store.relationshipSlot_eq_ok_iff, Store.relationshipIn_eq_ok_iff]
  constructor
  · rintro ⟨e, he, x, hx, rfl, rfl⟩
    exact ⟨e, he, hx, rfl⟩
  · rintro ⟨e, he, hr, rfl⟩
    exact ⟨e, he, r, hr, rfl, rfl⟩

/-! ### Changes that can be made in either order -/

/-- Two changes go through in either order, with the same answers and the same store in the
end. -/
def Interchange (c : Change α) (d : Change β) (s : Store) (a : α) (b : β) : Prop :=
  ∃ t u v, c.run s = .ok a t ∧ d.run t = .ok b v ∧ d.run s = .ok b u ∧ c.run u = .ok a v

end Change

end PropertyGraph
