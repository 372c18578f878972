import Mathlib.Tactic.Common
import PropertyGraph.Proofs.OrderedMap
import PropertyGraph.Store.Error

/-! What may be stored. A value is finite if no float inside it, at any depth of arrays,
is infinite or not a number. A bag may be stored if its names are not empty and its
values are finite; the bag of a node has no property `id` besides. The checks of the
store accept exactly these bags, and merging keeps them. -/

namespace PropertyGraph

namespace Value

/-- A value stands somewhere inside another one. -/
inductive Within : Value → Value → Prop where
  | self (v : Value) : Within v v
  | item {v w : Value} {items : List Value} : w ∈ items → Within v w → Within v (.array items)

def IsFinite (v : Value) : Prop := ∀ x : Double, Within (.float x) v → x.isFinite = true

theorem isFinite_float_iff {x : Double} : IsFinite (.float x) ↔ x.isFinite = true := by
  constructor
  · intro h
    exact h x (.self _)
  · intro h y hy
    cases hy with
    | self => exact h

/-- A float stands inside an array if it stands inside one of the items. -/
theorem forall_within_array_iff {items : List Value} {p : Double → Prop} :
    (∀ x, Within (.float x) (.array items) → p x) ↔
      ∀ v ∈ items, ∀ x, Within (.float x) v → p x := by
  constructor
  · intro h v hv x hx
    exact h x (.item hv hx)
  · intro h x hx
    cases hx with
    | item hw hx => exact h _ hw x hx

theorem isFinite_array_iff {items : List Value} :
    IsFinite (.array items) ↔ ∀ v ∈ items, IsFinite v := forall_within_array_iff

mutual

theorem nonFinite?_eq_none_iff : (v : Value) → (v.nonFinite? = none ↔ v.IsFinite)
  | .text s | .integer n | .boolean b => by
    simp only [nonFinite?, true_iff]
    intro x hx
    cases hx
  | .float x => by
    rw [isFinite_float_iff, nonFinite?]
    cases x.isFinite <;> simp
  | .array items => by
    rw [isFinite_array_iff, nonFinite?]
    exact nonFiniteItem?_eq_none_iff items

theorem nonFiniteItem?_eq_none_iff :
    (items : List Value) → (nonFiniteItem? items = none ↔ ∀ v ∈ items, IsFinite v)
  | [] => by simp [nonFiniteItem?]
  | v :: rest => by
    rw [nonFiniteItem?, Option.or_eq_none_iff, nonFinite?_eq_none_iff v,
      nonFiniteItem?_eq_none_iff rest, List.forall_mem_cons]

end

theorem objection?_eq_none_iff {v : Value} : v.objection? = none ↔ v.IsFinite := by
  rw [objection?, Option.map_eq_none_iff, nonFinite?_eq_none_iff]

end Value

/-! ### Bags -/

namespace Bag

def Storable (b : Bag) : Prop :=
  ∀ name v, OrderedMap.get? b name = some v → name ≠ "" ∧ v.IsFinite

theorem Storable.merge {b patch : Bag} (hb : Storable b) (hp : Storable patch) :
    Storable (OrderedMap.merge b patch) := by
  intro name v h
  rw [OrderedMap.get?_merge, Option.or_eq_some_iff] at h
  rcases h with h | ⟨-, h⟩
  · exact hp name v h
  · exact hb name v h

end Bag

theorem firstObjection?_eq_none_iff {l : List (String × Value)} :
    firstObjection? l = none ↔ ∀ e ∈ l, e.1 ≠ "" ∧ e.2.IsFinite := by
  induction l with
  | nil => simp [firstObjection?]
  | cons e rest ih =>
    obtain ⟨name, v⟩ := e
    rw [List.forall_mem_cons, ← ih, ← Value.objection?_eq_none_iff]
    by_cases hn : name = ""
    · simp [firstObjection?, hn]
    · cases hv : v.objection? <;> simp [firstObjection?, hn, hv]

theorem checkProperties_eq_ok_iff {b : Bag} : checkProperties b = .ok () ↔ b.Storable := by
  have hentries : firstObjection? b.entries = none ↔ b.Storable := by
    rw [firstObjection?_eq_none_iff]
    constructor
    · intro h name v hv
      exact h (name, v) (OrderedMap.get?_eq_some_iff.1 hv)
    · intro h e he
      exact h e.1 e.2 (OrderedMap.get?_eq_some_iff.2 he)
  rw [← hentries, checkProperties]
  cases firstObjection? b.entries <;> simp

theorem checkNodeProperties_eq_ok_iff {b : Bag} :
    checkNodeProperties b = .ok () ↔ b.Storable ∧ b.get? "id" = none := by
  rw [checkNodeProperties, ← checkProperties_eq_ok_iff, ← OrderedMap.contains_eq_false_iff]
  cases b.contains "id" <;> simp

/-- A bag is refused for one of its properties. -/
theorem checkNodeProperties_eq_error {b : Bag} {why : StoreError}
    (h : checkNodeProperties b = .error why) :
    ∃ name objection, why = .invalidProperty name objection := by
  unfold checkNodeProperties checkProperties at h
  split at h
  · cases h
    exact ⟨_, _, rfl⟩
  · split at h
    · cases h
      exact ⟨_, _, rfl⟩
    · cases h

theorem checkId_eq_ok_iff {id : Nat} : checkId id = .ok () ↔ id ≤ greatestId := by
  rw [checkId]
  split
  · simp [Nat.not_le.2 ‹_›]
  · simp [Nat.not_lt.1 ‹_›]

/-! ### Entities -/

structure Node.Storable (n : Node) : Prop where
  id_le : n.key.id ≤ greatestId
  properties : n.properties.Storable
  no_id : n.properties.get? "id" = none

structure Relationship.Storable (r : Relationship) : Prop where
  id_le : r.id ≤ greatestId
  properties : r.properties.Storable

theorem Node.Storable.merge {n : Node} {patch : Bag} (hn : n.Storable) (hp : patch.Storable)
    (hid : patch.get? "id" = none) : (n.merge patch).Storable where
  id_le := hn.id_le
  properties := hn.properties.merge hp
  no_id := by
    rw [Node.merge, OrderedMap.get?_merge, hid, hn.no_id, Option.none_or]

theorem Relationship.Storable.merge {r : Relationship} {patch : Bag} (hr : r.Storable)
    (hp : patch.Storable) : (r.merge patch).Storable where
  id_le := hr.id_le
  properties := hr.properties.merge hp

end PropertyGraph
