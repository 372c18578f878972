import Mathlib.Data.List.Basic
import Mathlib.Data.List.Induction
import PropertyGraph.OrderedMap

/-! Lookup laws of ordered maps. What a map holds under a key after an insertion, an
update or a removal is told by what it held before, and an entry is in the list of
entries exactly when its key leads to its value. -/

namespace PropertyGraph.OrderedMap

variable {α β : Type} [DecidableEq α]

@[simp] theorem get?_empty (k : α) : (∅ : OrderedMap α β).get? k = none := rfl

omit [DecidableEq α] in
@[simp] theorem entries_empty : (∅ : OrderedMap α β).entries = [] := rfl

theorem contains_iff {m : OrderedMap α β} {k : α} :
    m.contains k = true ↔ ∃ v, m.get? k = some v := by
  simp [contains, Option.isSome_iff_exists]

theorem contains_eq_false_iff {m : OrderedMap α β} {k : α} :
    m.contains k = false ↔ m.get? k = none := by
  simp [contains]

/-! ### Entries -/

theorem find?_eq_none_iff {k : α} {l : List (α × β)} :
    find? k l = none ↔ k ∉ l.map Prod.fst := by
  induction l with
  | nil => simp [find?]
  | cons e rest ih =>
    obtain ⟨a, b⟩ := e
    by_cases h : a = k
    · simp [find?, h]
    · have h' : ¬ k = a := fun e => h e.symm
      simp [find?, h, h', ih]

theorem find?_eq_some_iff {k : α} {v : β} {l : List (α × β)} (hl : (l.map Prod.fst).Nodup) :
    find? k l = some v ↔ (k, v) ∈ l := by
  induction l with
  | nil => simp [find?]
  | cons e rest ih =>
    obtain ⟨a, b⟩ := e
    rw [List.map_cons, List.nodup_cons] at hl
    by_cases h : a = k
    · subst h
      have hnot : (a, v) ∉ rest := fun hm => hl.1 (List.mem_map.2 ⟨(a, v), hm, rfl⟩)
      simp [find?, hnot, eq_comm]
    · have h' : ¬ k = a := fun e => h e.symm
      simp [find?, h, h', ih hl.2]

theorem get?_eq_some_iff {m : OrderedMap α β} {k : α} {v : β} :
    m.get? k = some v ↔ (k, v) ∈ m.entries :=
  find?_eq_some_iff m.nodup

theorem mem_keys_iff {m : OrderedMap α β} {k : α} : k ∈ m.keys ↔ m.contains k = true := by
  have h := find?_eq_none_iff (k := k) (l := m.entries)
  cases hf : find? k m.entries <;> simp_all [keys, contains, get?]

theorem contains_congr {m n : OrderedMap α β} (h : m.keys = n.keys) (k : α) :
    m.contains k = n.contains k := by
  rw [Bool.eq_iff_iff, ← mem_keys_iff, ← mem_keys_iff, h]

/-! ### Insertion -/

theorem find?_put (k j : α) (v : β) (l : List (α × β)) :
    find? j (put k v l) = if k = j then some v else find? j l := by
  induction l with
  | nil => simp [put, find?]
  | cons e rest ih =>
    obtain ⟨a, b⟩ := e
    by_cases h : a = k
    · subst h
      by_cases hj : a = j <;> simp [put, find?, hj]
    · by_cases hj : a = j
      · subst hj
        have h' : ¬ k = a := fun e => h e.symm
        simp [put, find?, h, h']
      · simp [put, find?, h, hj, ih]

@[simp] theorem get?_insert (m : OrderedMap α β) (k j : α) (v : β) :
    (m.insert k v).get? j = if k = j then some v else m.get? j :=
  find?_put k j v m.entries

@[simp] theorem get?_update (m : OrderedMap α β) (k j : α) (absent : β) (f : β → β) :
    (m.update k absent f).get? j =
      if k = j then some (f ((m.get? k).getD absent)) else m.get? j :=
  get?_insert m k j _

theorem contains_update_iff {m : OrderedMap α β} {k j : α} {absent : β} {f : β → β} :
    (m.update k absent f).contains j = true ↔ m.contains j = true ∨ k = j := by
  rw [contains, get?_update, contains]
  by_cases hj : k = j <;> simp [hj]

@[simp] theorem get?_adjust (m : OrderedMap α β) (k j : α) (f : β → β) :
    (m.adjust k f).get? j = if k = j then (m.get? k).map f else m.get? j := by
  unfold adjust
  cases h : m.get? k with
  | none =>
    by_cases hj : k = j
    · simp [← hj, h]
    · simp [hj]
  | some v => simp

@[simp] theorem contains_adjust (m : OrderedMap α β) (k j : α) (f : β → β) :
    (m.adjust k f).contains j = m.contains j := by
  rw [contains, get?_adjust, contains]
  split
  · next hj => rw [← hj, Option.isSome_map]
  · rfl

@[simp] theorem keys_adjust (m : OrderedMap α β) (k : α) (f : β → β) :
    (m.adjust k f).keys = m.keys := by
  unfold adjust
  split
  · rfl
  · next v hv =>
    have hk : k ∈ m.keys := mem_keys_iff.2 (contains_iff.2 ⟨v, hv⟩)
    exact (keys_put k (f v) m.entries).trans (if_pos hk)

theorem get?_insertNew (m : OrderedMap α β) (k j : α) (v : β) :
    (m.insertNew k v).get? j = (m.get? j).or (if k = j then some v else none) := by
  unfold insertNew
  by_cases hc : m.contains k = true
  · obtain ⟨w, hw⟩ := contains_iff.1 hc
    by_cases hj : k = j
    · simp [hc, ← hj, hw]
    · simp [hc, hj]
  · have hn := contains_eq_false_iff.1 (Bool.eq_false_iff.2 hc)
    by_cases hj : k = j
    · simp [hc, ← hj, hn]
    · simp [hc, hj]

theorem get?_singleton (k j : α) (v : β) :
    (ofList [(k, v)]).get? j = if k = j then some v else none := get?_insert ∅ k j v

theorem insertAll_cons (m : OrderedMap α β) (e : α × β) (l : List (α × β)) :
    m.insertAll (e :: l) = (m.insert e.1 e.2).insertAll l := rfl

theorem get?_insertAll (m : OrderedMap α β) {l : List (α × β)} (hl : (l.map Prod.fst).Nodup)
    (k : α) : (m.insertAll l).get? k = (find? k l).or (m.get? k) := by
  induction l generalizing m with
  | nil => rfl
  | cons e rest ih =>
    obtain ⟨a, b⟩ := e
    obtain ⟨ha, hrest⟩ := List.nodup_cons.1 hl
    rw [insertAll_cons, ih _ hrest, get?_insert, find?]
    split
    · next hk => rw [find?_eq_none_iff.2 (hk ▸ ha), Option.none_or, Option.some_or]
    · rfl

/-- A merged map holds what the patch holds, and else what the map held. -/
theorem get?_merge (m patch : OrderedMap α β) (k : α) :
    (m.merge patch).get? k = (patch.get? k).or (m.get? k) := get?_insertAll m patch.nodup k

theorem entries_insert_of_not_mem {m : OrderedMap α β} {k : α} (h : k ∉ m.keys) (v : β) :
    (m.insert k v).entries = m.entries ++ [(k, v)] := by
  have hput : ∀ l : List (α × β), k ∉ l.map Prod.fst → put k v l = l ++ [(k, v)] := by
    intro l
    induction l with
    | nil => exact fun _ => rfl
    | cons e rest ih =>
      intro hk
      obtain ⟨a, b⟩ := e
      rw [List.map_cons, List.mem_cons, not_or] at hk
      rw [put, if_neg (Ne.symm hk.1), ih hk.2, List.cons_append]
  exact hput m.entries h

theorem entries_insertAll {m : OrderedMap α β} {l : List (α × β)}
    (h : (m.keys ++ l.map Prod.fst).Nodup) : (m.insertAll l).entries = m.entries ++ l := by
  induction l generalizing m with
  | nil => exact (List.append_nil _).symm
  | cons e rest ih =>
    have hnew : e.1 ∉ m.keys := fun hmem => (List.nodup_append.1 h).2.2 _ hmem _ (by simp) rfl
    have hentries := entries_insert_of_not_mem hnew e.2
    have hrest : ((m.insert e.1 e.2).keys ++ rest.map Prod.fst).Nodup := by
      rw [keys, hentries, List.map_append]
      simpa [keys] using h
    rw [insertAll_cons, ih hrest, hentries, List.append_assoc]
    rfl

/-- Putting the entries of a map in one after the other makes the map again. -/
theorem ofList_entries (m : OrderedMap α β) : ofList m.entries = m :=
  ext (entries_insertAll (by simpa [keys, empty] using m.nodup))

/-! ### Collecting entries -/

theorem keys_insertNew (m : OrderedMap α β) (k : α) (v : β) :
    (m.insertNew k v).keys = if k ∈ m.keys then m.keys else m.keys ++ [k] := by
  unfold insertNew
  by_cases hk : k ∈ m.keys
  · rw [if_pos hk, if_pos (mem_keys_iff.1 hk)]
  · rw [if_neg hk, if_neg fun hc => hk (mem_keys_iff.2 hc)]
    exact (keys_put k v m.entries).trans (if_neg hk)

/-- The keys of entries that are put in unless their keys are there, in the order of
their first occurrence. -/
theorem keys_collect (l : List (α × β)) :
    (l.foldl (fun m e => m.insertNew e.1 e.2) (∅ : OrderedMap α β)).keys =
      (l.map Prod.fst).eraseDups := by
  induction l using List.reverseRecOn with
  | nil => rfl
  | append_singleton l e ih =>
    rw [List.foldl_append, List.foldl_cons, List.foldl_nil, keys_insertNew, ih, List.map_append,
      List.eraseDups_append]
    by_cases he : e.1 ∈ l.map Prod.fst
    · have hin : e.1 ∈ (l.map Prod.fst).eraseDups := List.mem_eraseDups.2 he
      simp [List.removeAll, hin, he]
    · have hout : e.1 ∉ (l.map Prod.fst).eraseDups := fun h => he (List.mem_eraseDups.1 h)
      simp [List.removeAll, hout, he, List.eraseDups_cons]

theorem find?_of_mem {k : α} {v : β} {l : List (α × β)} (h : (k, v) ∈ l) :
    ∃ w, find? k l = some w ∧ (k, w) ∈ l := by
  induction l with
  | nil => cases h
  | cons e rest ih =>
    obtain ⟨a, b⟩ := e
    by_cases hk : a = k
    · exact ⟨b, by rw [find?, if_pos hk], by rw [hk]; exact List.mem_cons_self⟩
    · have hrest : (k, v) ∈ rest := by
        rcases List.mem_cons.1 h with heq | hrest
        · exact absurd (congrArg Prod.fst heq).symm hk
        · exact hrest
      obtain ⟨w, hw, hmem⟩ := ih hrest
      exact ⟨w, by rw [find?, if_neg hk, hw], List.mem_cons_of_mem _ hmem⟩

theorem get?_foldl_insertNew (l : List (α × β)) (m : OrderedMap α β) (k : α) :
    (l.foldl (fun m e => m.insertNew e.1 e.2) m).get? k = (m.get? k).or (find? k l) := by
  induction l generalizing m with
  | nil => simp [find?]
  | cons e rest ih =>
    obtain ⟨a, b⟩ := e
    rw [List.foldl_cons, ih, get?_insertNew, Option.or_assoc, find?]
    split <;> simp

/-- If all values under a key are the same, the key leads to it. -/
theorem get?_collect {k : α} {v : β} {l : List (α × β)} (h : (k, v) ∈ l)
    (hsame : ∀ w, (k, w) ∈ l → w = v) :
    (l.foldl (fun m e => m.insertNew e.1 e.2) (∅ : OrderedMap α β)).get? k = some v := by
  obtain ⟨w, hw, hmem⟩ := find?_of_mem h
  rw [get?_foldl_insertNew, get?_empty, Option.none_or, hw, hsame w hmem]

/-- A map is told by its keys in order and what they lead to. -/
theorem ext_get? {m n : OrderedMap α β} (hkeys : m.keys = n.keys)
    (hget : ∀ k ∈ m.keys, m.get? k = n.get? k) : m = n := by
  have hentries : ∀ m : OrderedMap α β, m.entries.map some =
      m.keys.map fun k => (m.get? k).map (k, ·) := by
    intro m
    rw [keys, List.map_map]
    refine List.map_congr_left fun e he => ?_
    simp [get?_eq_some_iff.2 he]
  have hsome : m.entries.map some = n.entries.map some := by
    rw [hentries m, hentries n, ← hkeys]
    exact List.map_congr_left fun k hk => by rw [hget k hk]
  exact ext (List.map_injective_iff.2 (fun _ _ h => Option.some.inj h) hsome)

/-! ### Removal -/

theorem find?_filter_ne (k j : α) (l : List (α × β)) :
    find? j (l.filter fun e => decide (e.1 ≠ k)) = if k = j then none else find? j l := by
  induction l with
  | nil => simp [find?]
  | cons e rest ih =>
    obtain ⟨a, b⟩ := e
    by_cases h : a = k
    · subst h
      by_cases hj : a = j <;> simp_all [find?]
    · by_cases hj : a = j
      · subst hj
        have h' : ¬ k = a := fun e => h e.symm
        simp [find?, h, h']
      · simp_all [find?]

@[simp] theorem keys_erase (m : OrderedMap α β) (k : α) :
    (m.erase k).keys = m.keys.filter fun j => decide (j ≠ k) := by
  rw [keys, keys, List.filter_map]
  rfl

@[simp] theorem get?_erase (m : OrderedMap α β) (k j : α) :
    (m.erase k).get? j = if k = j then none else m.get? j :=
  find?_filter_ne k j m.entries

end PropertyGraph.OrderedMap
