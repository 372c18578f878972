import PropertyGraph.Proofs.OrderedMap

/-! Merging. A merged map lists the keys of the map first, each in its place and with the value
of the patch if the patch has one, and then the other entries of the patch in the patch's
order. It is told by its keys and by what they lead to, so merging is associative in the
order of the keys too, and merging a map with itself changes nothing. -/

namespace PropertyGraph.OrderedMap

variable {α β : Type} [DecidableEq α] {l : List (α × β)}

theorem contains_insert (m : OrderedMap α β) (k j : α) (v : β) :
    (m.insert k v).contains j = (decide (k = j) || m.contains j) := by
  rw [contains, get?_insert, contains]
  by_cases hj : k = j <;> simp [hj]

theorem put_eq (k : α) (v : β) {l : List (α × β)} (hl : (l.map Prod.fst).Nodup) : put k v l =
    l.map (fun e => (e.1, if e.1 = k then v else e.2)) ++
      if k ∈ l.map Prod.fst then [] else [(k, v)] := by
  induction l with
  | nil => rfl
  | cons e rest ih =>
    obtain ⟨a, b⟩ := e
    obtain ⟨ha, hrest⟩ := List.nodup_cons.1 hl
    by_cases hk : a = k
    · subst hk
      -- no entry behind this one has the key
      have hsame : rest.map (fun e => (e.1, if e.1 = a then v else e.2)) = rest := by
        refine (List.map_congr_left fun e he => ?_).trans (List.map_id rest)
        have hmem : e.1 ∈ rest.map Prod.fst := List.mem_map_of_mem he
        have hne : e.1 ≠ a := fun h => ha (h ▸ hmem)
        rw [if_neg hne]
        rfl
      simp [put, hsame]
    · have hmem : k ∈ ((a, b) :: rest).map Prod.fst ↔ k ∈ rest.map Prod.fst := by
        rw [List.map_cons, List.mem_cons, or_iff_right (Ne.symm hk)]
      rw [put, if_neg hk, ih hrest, List.map_cons, if_neg hk, List.cons_append]
      simp only [hmem]

theorem entries_insert (m : OrderedMap α β) (k : α) (v : β) : (m.insert k v).entries =
    m.entries.map (fun e => (e.1, if e.1 = k then v else e.2)) ++
      if m.contains k then [] else [(k, v)] := by
  have hmem : k ∈ m.entries.map Prod.fst ↔ m.contains k = true := mem_keys_iff
  refine (put_eq k v m.nodup).trans ?_
  simp only [hmem]

/-! ### Inserting all entries of a list -/

theorem entries_insertAll_eq (m : OrderedMap α β) (hl : (l.map Prod.fst).Nodup) :
    (m.insertAll l).entries = m.entries.map (fun e => (e.1, (find? e.1 l).getD e.2)) ++
      l.filter fun e => !m.contains e.1 := by
  induction l generalizing m with
  | nil => simp [insertAll, find?]
  | cons e rest ih =>
    obtain ⟨a, b⟩ := e
    obtain ⟨ha, hrest⟩ := List.nodup_cons.1 hl
    have hnone : find? a rest = none := find?_eq_none_iff.2 ha
    -- the entry that comes first is not met again
    have hold : (m.entries.map fun e => (e.1, if e.1 = a then b else e.2)).map
        (fun e => (e.1, (find? e.1 rest).getD e.2)) =
          m.entries.map fun e => (e.1, (find? e.1 ((a, b) :: rest)).getD e.2) := by
      rw [List.map_map]
      refine List.map_congr_left fun e _ => ?_
      by_cases he : e.1 = a
      · simp [find?, he, hnone]
      · simp [find?, he, Ne.symm he]
    have hnew : rest.filter (fun e => !(m.insert a b).contains e.1) =
        rest.filter fun e => !m.contains e.1 := by
      refine List.filter_congr fun e he => ?_
      have hmem : e.1 ∈ rest.map Prod.fst := List.mem_map_of_mem he
      have hne : a ≠ e.1 := fun h => ha (h ▸ hmem)
      rw [contains_insert, decide_eq_false hne, Bool.false_or]
    rw [insertAll_cons, ih _ hrest, entries_insert, List.map_append, hold, hnew,
      List.append_assoc, List.filter_cons]
    cases m.contains a <;> simp [hnone]

/-! ### Merging a patch -/

theorem contains_merge (m patch : OrderedMap α β) (k : α) :
    (m.merge patch).contains k = (m.contains k || patch.contains k) := by
  rw [contains, get?_merge, Option.isSome_or, Bool.or_comm, contains, contains]

/-- Keys keep their places and take the values of the patch; new entries come behind them in
the patch's order. -/
theorem entries_merge (m patch : OrderedMap α β) : (m.merge patch).entries =
    m.entries.map (fun e => (e.1, (patch.get? e.1).getD e.2)) ++
      patch.entries.filter fun e => !m.contains e.1 := entries_insertAll_eq m patch.nodup

theorem keys_merge (m patch : OrderedMap α β) :
    (m.merge patch).keys = m.keys ++ patch.keys.filter fun k => !m.contains k := by
  rw [keys, entries_merge, List.map_append, List.map_map, keys, keys, List.filter_map]
  rfl

theorem merge_assoc (m p q : OrderedMap α β) : (m.merge p).merge q = m.merge (p.merge q) := by
  refine ext_get? ?_ fun k _ => ?_
  · rw [keys_merge, keys_merge, keys_merge, keys_merge, List.filter_append, List.filter_filter,
      List.append_assoc]
    congr 2
    refine List.filter_congr fun k _ => ?_
    rw [contains_merge, Bool.not_or, Bool.and_comm]
  · rw [get?_merge, get?_merge, get?_merge, get?_merge, Option.or_assoc]

theorem merge_self (m : OrderedMap α β) : m.merge m = m := by
  refine ext_get? ?_ fun k _ => ?_
  · have hnone : (m.keys.filter fun k => !m.contains k) = [] := by
      refine List.filter_eq_nil_iff.2 fun k hk => ?_
      simp [mem_keys_iff.1 hk]
    rw [keys_merge, hnone, List.append_nil]
  · rw [get?_merge, Option.or_self]

end PropertyGraph.OrderedMap
