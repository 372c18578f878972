import PropertyGraph.Proofs.OrderedMap
import PropertyGraph.Proofs.Store.Ascending

/-! Arenas of slots with their indices. A slot is empty or holds an entity. An identity
index leads from the identity of every entity to its slot, and a tag index lists under
every tag the slots of the entities that carry it. Putting an entity in a new slot at
the end, emptying a slot, and putting another entity of the same identity and tag in a
slot keep both. -/

namespace PropertyGraph.Arena

variable {α κ : Type} {arena : Array (Option α)} {i : Nat} {a b : α}

/-- What a slot holds. -/
def at? (arena : Array (Option α)) (i : Nat) : Option α := arena[i]?.join

/-- What the slots hold, in order. -/
def contents (arena : Array (Option α)) : List α := arena.toList.filterMap id

theorem lt_size_of_at? (h : at? arena i = some a) : i < arena.size := by
  by_contra hi
  simp [at?, Array.getElem?_eq_none (Nat.le_of_not_lt hi)] at h

theorem at?_push (x : Option α) (j : Nat) :
    at? (arena.push x) j = if j = arena.size then x else at? arena j := by
  unfold at?
  rw [Array.getElem?_push]
  split <;> rfl

theorem at?_set (hi : i < arena.size) (x : Option α) (j : Nat) :
    at? (arena.setIfInBounds i x) j = if i = j then x else at? arena j := by
  unfold at?
  rw [Array.getElem?_setIfInBounds, if_pos hi]
  split <;> rfl

/-- What holds of every entity and of a new one holds of every entity afterwards. -/
theorem forall_push {p : α → Prop} (h : ∀ j b, at? arena j = some b → p b) (ha : p a) :
    ∀ j b, at? (arena.push (some a)) j = some b → p b := by
  intro j b hb
  rw [at?_push] at hb
  split at hb
  · cases hb
    exact ha
  · exact h j b hb

theorem forall_set {p : α → Prop} (h : ∀ j b, at? arena j = some b → p b) (hi : i < arena.size)
    {x : Option α} (hx : ∀ b, x = some b → p b) :
    ∀ j b, at? (arena.setIfInBounds i x) j = some b → p b := by
  intro j b hb
  rw [at?_set hi] at hb
  split at hb
  · exact hx b hb
  · exact h j b hb

/-! ### The order of slots -/

theorem toList_eq_map (arena : Array (Option α)) :
    arena.toList = (List.range arena.size).map (at? arena) := by
  refine List.ext_getElem (by simp) fun i h₁ h₂ => ?_
  have hi : i < arena.size := by simpa using h₁
  simp [at?, hi]

/-- An arena is told by its size and by what its slots hold. -/
theorem ext_at? {other : Array (Option α)} (hsize : arena.size = other.size)
    (h : ∀ i, at? arena i = at? other i) : arena = other := by
  apply Array.toList_inj.1
  rw [toList_eq_map, toList_eq_map, hsize, funext h]

theorem contents_eq_filterMap (arena : Array (Option α)) :
    contents arena = (List.range arena.size).filterMap (at? arena) := by
  rw [contents, toList_eq_map, List.filterMap_map]
  rfl

theorem mem_contents_iff : a ∈ contents arena ↔ ∃ i, at? arena i = some a := by
  rw [contents_eq_filterMap, List.mem_filterMap]
  constructor
  · rintro ⟨i, -, hi⟩
    exact ⟨i, hi⟩
  · rintro ⟨i, hi⟩
    exact ⟨i, List.mem_range.2 (lt_size_of_at? hi), hi⟩

theorem filterMap_filter_at? (p : α → Bool) (l : List Nat) :
    (l.filter fun i => (at? arena i).any p).filterMap (at? arena) =
      (l.filterMap (at? arena)).filter p := by
  induction l with
  | nil => rfl
  | cons i rest ih =>
    cases hi : at? arena i with
    | none => simp [hi, ih]
    | some a => cases hp : p a <;> simp [hi, hp, ih]

/-- Reading off the slots that hold an entity with a property gives the entities of the
arena that have it, in the arena's order. -/
theorem filterMap_eq_filter {p : α → Bool} {l : List Nat}
    (h : Enumerates l fun i => ∃ a, at? arena i = some a ∧ p a = true) :
    l.filterMap (at? arena) = (contents arena).filter p := by
  have hrange : Enumerates ((List.range arena.size).filter fun i => (at? arena i).any p)
      fun i => ∃ a, at? arena i = some a ∧ p a = true := by
    refine ⟨List.Pairwise.filter _ List.pairwise_lt_range, fun i => ?_⟩
    rw [List.mem_filter, List.mem_range, Option.any_eq_true_iff_get]
    constructor
    · rintro ⟨-, hi, hp⟩
      exact ⟨(at? arena i).get hi, (Option.some_get hi).symm, hp⟩
    · rintro ⟨a, ha, hp⟩
      exact ⟨lt_size_of_at? ha, by simp [ha], by simpa [ha] using hp⟩
  rw [h.eq hrange, filterMap_filter_at?, contents_eq_filterMap]

/-! ### Identity indices -/

section Indexed

variable [DecidableEq κ] {key : α → κ} {index : OrderedMap κ Nat}

/-- The index leads exactly from the identities of the entities to their slots. -/
def Indexed (arena : Array (Option α)) (key : α → κ) (index : OrderedMap κ Nat) : Prop :=
  ∀ k i, index.get? k = some i ↔ ∃ a, at? arena i = some a ∧ key a = k

namespace Indexed

theorem empty (key : α → κ) : Indexed (#[] : Array (Option α)) key ∅ := by
  intro k i
  simp [at?]

theorem get?_eq_iff (h : Indexed arena key index) (ha : at? arena i = some a) {k : κ} :
    index.get? k = some i ↔ key a = k := by
  rw [h k i]
  simp [ha]

theorem get?_key (h : Indexed arena key index) (ha : at? arena i = some a) :
    index.get? (key a) = some i :=
  (h.get?_eq_iff ha).2 rfl

/-- Only one entity has an identity. -/
theorem unique (h : Indexed arena key index) {j : Nat} (ha : at? arena i = some a)
    (hb : at? arena j = some b) (hk : key a = key b) : i = j ∧ a = b := by
  have hij : i = j := by
    have hi := h.get?_key ha
    rw [hk, h.get?_key hb] at hi
    exact (Option.some.inj hi).symm
  subst hij
  exact ⟨rfl, Option.some.inj (ha.symm.trans hb)⟩

theorem lt_size (h : Indexed arena key index) {k : κ} (hk : index.get? k = some i) :
    i < arena.size := by
  obtain ⟨a, ha, -⟩ := (h k i).1 hk
  exact lt_size_of_at? ha

/-- An identity is in the index if an entity has it. -/
theorem contains_iff (h : Indexed arena key index) {k : κ} :
    index.contains k = true ↔ ∃ a ∈ contents arena, key a = k := by
  simp only [OrderedMap.contains_iff, h k, mem_contents_iff]
  constructor
  · rintro ⟨i, a, ha, hk⟩
    exact ⟨a, ⟨i, ha⟩, hk⟩
  · rintro ⟨a, ⟨i, ha⟩, hk⟩
    exact ⟨i, a, ha, hk⟩

theorem get?_eq_none (h : Indexed arena key index) {k : κ}
    (hk : ∀ a ∈ contents arena, key a ≠ k) : index.get? k = none := by
  rw [← OrderedMap.contains_eq_false_iff, ← Bool.not_eq_true, h.contains_iff]
  rintro ⟨a, ha, hak⟩
  exact hk a ha hak

/-- Following the index gives the entity that has the identity. -/
theorem find_eq_some_iff (h : Indexed arena key index) {k : κ} :
    (index.get? k).bind (at? arena) = some a ↔ a ∈ contents arena ∧ key a = k := by
  rw [mem_contents_iff, Option.bind_eq_some_iff]
  constructor
  · rintro ⟨i, hi, ha⟩
    exact ⟨⟨i, ha⟩, (h.get?_eq_iff ha).1 hi⟩
  · rintro ⟨⟨i, ha⟩, hk⟩
    exact ⟨i, (h.get?_eq_iff ha).2 hk, ha⟩

/-- The identities of the entities are all different. -/
theorem nodup_keys (h : Indexed arena key index) : ((contents arena).map key).Nodup := by
  rw [contents_eq_filterMap, List.Nodup, List.pairwise_map, List.pairwise_filterMap]
  apply List.pairwise_lt_range.imp
  intro i j hij a ha b hb hk
  have heq := (h.unique ha hb hk).1
  omega

/-- The index has as many entries as the arena has entities. -/
theorem size_eq (h : Indexed arena key index) : index.size = (contents arena).length := by
  have hperm : index.keys.Perm ((contents arena).map key) := by
    refine (List.perm_ext_iff_of_nodup index.nodup h.nodup_keys).2 fun k => ?_
    change k ∈ index.keys ↔ _
    rw [OrderedMap.mem_keys_iff, OrderedMap.contains_iff, List.mem_map]
    constructor
    · rintro ⟨i, hi⟩
      obtain ⟨a, ha, hk⟩ := (h k i).1 hi
      exact ⟨a, mem_contents_iff.2 ⟨i, ha⟩, hk⟩
    · rintro ⟨a, ha, rfl⟩
      obtain ⟨i, hi⟩ := mem_contents_iff.1 ha
      exact ⟨i, h.get?_key hi⟩
  calc index.size = index.keys.length := (List.length_map _).symm
    _ = ((contents arena).map key).length := hperm.length_eq
    _ = (contents arena).length := List.length_map _

theorem push (h : Indexed arena key index) (hnew : index.get? (key a) = none) :
    Indexed (arena.push (some a)) key (index.insert (key a) arena.size) := by
  intro k i
  rw [OrderedMap.get?_insert, at?_push]
  by_cases hk : key a = k
  · subst hk
    by_cases hi : i = arena.size
    · simp [hi]
    · have hno : ¬ ∃ b, at? arena i = some b ∧ key b = key a := by
        rw [← h, hnew]
        simp
      have hne : ¬ arena.size = i := fun e => hi e.symm
      simp [hi, hne, hno]
  · by_cases hi : i = arena.size
    · have hno : index.get? k ≠ some arena.size := by
        intro hk
        have hlt := h.lt_size hk
        omega
      simp [hi, hk, hno]
    · simp [hi, hk, h k i]

theorem erase (h : Indexed arena key index) (ha : at? arena i = some a) :
    Indexed (arena.setIfInBounds i none) key (index.erase (key a)) := by
  intro k j
  rw [OrderedMap.get?_erase, at?_set (lt_size_of_at? ha)]
  by_cases hj : i = j
  · subst hj
    by_cases hk : key a = k
    · simp [hk]
    · have hno : ¬ ∃ b, at? arena i = some b ∧ key b = k := by
        rintro ⟨b, hb, rfl⟩
        exact hk (congrArg key (Option.some.inj (ha.symm.trans hb)))
      simp [hk, h k i, hno]
  · by_cases hk : key a = k
    · have hno : ¬ ∃ b, at? arena j = some b ∧ key b = k := by
        rintro ⟨b, hb, hbk⟩
        exact hj (h.unique ha hb (hk.trans hbk.symm)).1
      simp [hj, hk, hno]
    · simp [hj, hk, h k j]

theorem replace (h : Indexed arena key index) (ha : at? arena i = some a)
    (hk : key b = key a) : Indexed (arena.setIfInBounds i (some b)) key index := by
  intro k j
  rw [h k j, at?_set (lt_size_of_at? ha)]
  by_cases hj : i = j
  · subst hj
    simp [ha, hk]
  · simp [hj]

/-- The arena tells all of the index but the order of its keys. -/
theorem ext (h : Indexed arena key index) {other : OrderedMap κ Nat}
    (ho : Indexed arena key other) (hkeys : index.keys = other.keys) : index = other :=
  OrderedMap.ext_get? hkeys fun k _ => Option.ext fun i => (h k i).trans (ho k i).symm

end Indexed

end Indexed

/-! ### Tag indices -/

section Tagged

variable {tag : α → String} {index : OrderedMap String (List Nat)}

/-- The index lists under every tag the slots of the entities that carry it. -/
def Tagged (arena : Array (Option α)) (tag : α → String)
    (index : OrderedMap String (List Nat)) : Prop :=
  ∀ t, Enumerates ((index.get? t).getD []) fun i => ∃ a, at? arena i = some a ∧ tag a = t

namespace Tagged

theorem empty (tag : α → String) : Tagged (#[] : Array (Option α)) tag ∅ := by
  intro t
  exact .nil fun i => by simp [at?]

theorem push (h : Tagged arena tag index) (a : α) :
    Tagged (arena.push (some a)) tag (index.update (tag a) [] (· ++ [arena.size])) := by
  intro t
  have hlt : ∀ i, (∃ b, at? arena i = some b ∧ tag b = t) → i < arena.size := by
    rintro i ⟨b, hb, -⟩
    exact lt_size_of_at? hb
  rw [OrderedMap.get?_update]
  by_cases ht : tag a = t
  · subst ht
    rw [if_pos rfl, Option.getD_some]
    refine ((h (tag a)).append_last hlt).congr fun i => ?_
    rw [at?_push]
    by_cases hi : i = arena.size
    · simp [hi]
    · simp [hi]
  · rw [if_neg ht]
    refine (h t).congr fun i => ?_
    rw [at?_push]
    by_cases hi : i = arena.size
    · have hno : ¬ ∃ b, at? arena i = some b ∧ tag b = t := by
        intro hb
        have hi' := hlt i hb
        omega
      simp [hi, ht] at hno ⊢
      exact hno
    · simp [hi]

theorem erase (h : Tagged arena tag index) (ha : at? arena i = some a) :
    Tagged (arena.setIfInBounds i none) tag
      (index.adjust (tag a) (List.filter fun e => decide (e ≠ i))) := by
  intro t
  rw [OrderedMap.get?_adjust]
  by_cases ht : tag a = t
  · subst ht
    have hdrop := (h (tag a)).drop i
    have hlist : (((index.get? (tag a)).map (List.filter fun e => decide (e ≠ i))).getD []) =
        ((index.get? (tag a)).getD []).filter fun e => decide (e ≠ i) := by
      cases index.get? (tag a) <;> rfl
    rw [if_pos rfl, hlist]
    refine hdrop.congr fun j => ?_
    rw [at?_set (lt_size_of_at? ha)]
    by_cases hj : i = j
    · simp [hj]
    · simp [hj, Ne.symm hj]
  · rw [if_neg ht]
    refine (h t).congr fun j => ?_
    rw [at?_set (lt_size_of_at? ha)]
    by_cases hj : i = j
    · subst hj
      simp [ha, ht]
    · simp [hj]

theorem replace (h : Tagged arena tag index) (ha : at? arena i = some a)
    (ht : tag b = tag a) : Tagged (arena.setIfInBounds i (some b)) tag index := by
  intro t
  refine (h t).congr fun j => ?_
  rw [at?_set (lt_size_of_at? ha)]
  by_cases hj : i = j
  · subst hj
    simp [ha, ht]
  · simp [hj]

/-- The arena tells what is listed under every tag. -/
theorem ext (h : Tagged arena tag index) {other : OrderedMap String (List Nat)}
    (ho : Tagged arena tag other) (hkeys : index.keys = other.keys) : index = other := by
  refine OrderedMap.ext_get? hkeys fun t ht => ?_
  obtain ⟨l, hl⟩ := OrderedMap.contains_iff.1 (OrderedMap.mem_keys_iff.1 ht)
  obtain ⟨m, hm⟩ := OrderedMap.contains_iff.1 (OrderedMap.mem_keys_iff.1 (hkeys ▸ ht))
  have hlists := (h t).eq (ho t)
  rw [hl, hm, Option.getD_some, Option.getD_some] at hlists
  rw [hl, hm, hlists]

end Tagged

end Tagged

end PropertyGraph.Arena
