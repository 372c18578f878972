import PropertyGraph.Proofs.Store.Arena
import PropertyGraph.Proofs.Value.Storable

/-! The adjacency tables. The row of a node slot lists the relationships that the node is
one end of; the two ends have a table each, and what is said of one side here is used for
both. Ends are found by slot or, with the same meaning, through the identity index. While
the relationships of a node are detached its row is exempt: it says nothing. -/

namespace PropertyGraph.Store

open Arena

/-- The row of a slot in an adjacency table. -/
def row (lists : Array (List Nat)) (slot : Nat) : List Nat := (lists[slot]?).getD []

/-- A table lists the relationships at the nodes that are one end of theirs. -/
structure Adjacency (nodes : Array (Option Node)) (relationships : Array (Option Relationship))
    (side : Relationship → NodeKey) (lists : Array (List Nat)) : Prop where
  size_eq : lists.size = nodes.size
  /-- No relationship dangles. -/
  side_live : ∀ e r, at? relationships e = some r → ∃ i n, at? nodes i = some n ∧ n.key = side r
  of_node : ∀ i n, at? nodes i = some n →
    Enumerates (row lists i) fun e => ∃ r, at? relationships e = some r ∧ n.key = side r
  of_deleted : ∀ i, at? nodes i = none → row lists i = []

/-- A table is told by its size and its rows. -/
theorem ext_row {lists other : Array (List Nat)} (hsize : lists.size = other.size)
    (h : ∀ i, row lists i = row other i) : lists = other := by
  refine Array.ext hsize fun i hi ho => ?_
  simpa [row, hi, ho] using h i

/-- The arenas tell which relationships are listed where. -/
theorem Adjacency.ext {nodes : Array (Option Node)} {relationships : Array (Option Relationship)}
    {side : Relationship → NodeKey} {lists other : Array (List Nat)}
    (h : Adjacency nodes relationships side lists) (ho : Adjacency nodes relationships side other) :
    lists = other := by
  refine ext_row (h.size_eq.trans ho.size_eq.symm) fun i => ?_
  cases hi : at? nodes i with
  | none => rw [h.of_deleted i hi, ho.of_deleted i hi]
  | some n => exact (h.of_node i n hi).eq (ho.of_node i n hi)

/-! ### Links by index -/

section Links

variable {slots : OrderedMap NodeKey Nat} {relationships : Array (Option Relationship)}
  {side : Relationship → NodeKey} {lists : Array (List Nat)} {exempt : Nat → Prop}
  {e i : Nat} {r : Relationship}

/-- The links of one side, with ends found through the identity index. The rows of exempt
slots may list anything. -/
structure Linked (exempt : Nat → Prop) (slots : OrderedMap NodeKey Nat)
    (relationships : Array (Option Relationship)) (side : Relationship → NodeKey)
    (lists : Array (List Nat)) : Prop where
  side_live : ∀ e r, at? relationships e = some r → ∃ i, slots.get? (side r) = some i
  row_eq : ∀ i, ¬ exempt i →
    Enumerates (row lists i) fun e => ∃ r, at? relationships e = some r ∧
      slots.get? (side r) = some i

theorem adjacency_iff {nodes : Array (Option Node)} (hn : Indexed nodes Node.key slots) :
    Adjacency nodes relationships side lists ↔
      lists.size = nodes.size ∧ Linked (fun _ => False) slots relationships side lists := by
  constructor
  · intro h
    refine ⟨h.size_eq, fun e r hr => ?_, fun i _ => ?_⟩
    · obtain ⟨i, n, hi, hk⟩ := h.side_live e r hr
      exact ⟨i, (hn _ _).2 ⟨n, hi, hk⟩⟩
    · cases hi : at? nodes i with
      | none =>
        rw [h.of_deleted i hi]
        refine .nil fun e he => ?_
        obtain ⟨r, -, hr⟩ := he
        obtain ⟨n, hn', -⟩ := (hn _ _).1 hr
        rw [hi] at hn'
        cases hn'
      | some n =>
        refine (h.of_node i n hi).congr fun e => ?_
        simp only [hn.get?_eq_iff hi]
  · rintro ⟨hsize, h⟩
    refine ⟨hsize, fun e r hr => ?_, fun i n hi => ?_, fun i hi => ?_⟩
    · obtain ⟨i, hi⟩ := h.side_live e r hr
      exact ⟨i, (hn _ _).1 hi⟩
    · refine (h.row_eq i not_false).congr fun e => ?_
      simp only [hn.get?_eq_iff hi]
    · refine (h.row_eq i not_false).eq_nil fun e he => ?_
      obtain ⟨r, -, hr⟩ := he
      obtain ⟨n, hn', -⟩ := (hn _ _).1 hr
      rw [hi] at hn'
      cases hn'

/-! ### Rows -/

theorem row_push (lists : Array (List Nat)) (i : Nat) : row (lists.push []) i = row lists i := by
  unfold row
  rw [Array.getElem?_push]
  split
  · next h => simp [h]
  · rfl

theorem row_set_of_ne {j : Nat} (h : j ≠ i) (l : List Nat) :
    row (lists.setIfInBounds j l) i = row lists i := by
  simp [row, h]

theorem row_set_nil (lists : Array (List Nat)) (i : Nat) :
    row (lists.setIfInBounds i []) i = [] := by
  unfold row
  rw [Array.getElem?_setIfInBounds, if_pos rfl]
  split <;> rfl

theorem row_modify {i j : Nat} (hj : j < lists.size) (f : List Nat → List Nat) :
    row (lists.modify j f) i = if j = i then f (row lists i) else row lists i := by
  unfold row
  rw [Array.getElem?_modify]
  split
  · next h =>
    subst h
    simp [hj]
  · rfl

theorem row_modify_filter (lists : Array (List Nat)) (i j : Nat) (p : Nat → Bool) :
    row (lists.modify j (List.filter p)) i =
      if j = i then (row lists i).filter p else row lists i := by
  unfold row
  rw [Array.getElem?_modify]
  split
  · cases lists[i]? <;> rfl
  · rfl

/-! ### What the operations do -/

namespace Linked

theorem push_relationship (h : Linked exempt slots relationships side lists) {place : Nat}
    (hplace : slots.get? (side r) = some place) (hlt : place < lists.size) :
    Linked exempt slots (relationships.push (some r)) side
      (lists.modify place (· ++ [relationships.size])) := by
  constructor
  · intro e r' hr'
    rw [at?_push] at hr'
    split at hr'
    · cases hr'
      exact ⟨place, hplace⟩
    · exact h.side_live e r' hr'
  · intro i hi
    have hlast : ∀ e, (∃ r, at? relationships e = some r ∧ slots.get? (side r) = some i) →
        e < relationships.size := by
      rintro e ⟨r, hr, -⟩
      exact lt_size_of_at? hr
    rw [row_modify hlt]
    split
    · next hpi =>
      subst hpi
      refine ((h.row_eq place hi).append_last hlast).congr fun e => ?_
      rw [at?_push]
      by_cases he : e = relationships.size
      · simp [he, hplace]
      · simp [he]
    · next hpi =>
      refine (h.row_eq i hi).congr fun e => ?_
      rw [at?_push]
      by_cases he : e = relationships.size
      · have hno : ¬ ∃ r, at? relationships e = some r ∧ slots.get? (side r) = some i := by
          intro hr
          have hlt := hlast e hr
          omega
        simp only [hno, false_iff, if_pos he, Option.some.injEq, exists_eq_left', hplace]
        exact hpi
      · simp [he]

theorem detach (h : Linked exempt slots relationships side lists)
    (hr : at? relationships e = some r) {place : Nat} (hplace : slots.get? (side r) = some place) :
    Linked exempt slots (relationships.setIfInBounds e none) side
      (lists.modify place (List.filter fun j => decide (j ≠ e))) := by
  constructor
  · intro j r' hr'
    rw [at?_set (lt_size_of_at? hr)] at hr'
    split at hr'
    · cases hr'
    · exact h.side_live j r' hr'
  · intro i hi
    rw [row_modify_filter]
    split
    · next hpi =>
      subst hpi
      refine ((h.row_eq place hi).drop e).congr fun j => ?_
      rw [at?_set (lt_size_of_at? hr)]
      by_cases hj : e = j
      · simp [hj]
      · simp [hj, Ne.symm hj]
    · next hpi =>
      refine (h.row_eq i hi).congr fun j => ?_
      rw [at?_set (lt_size_of_at? hr)]
      by_cases hj : e = j
      · subst hj
        simp [hr, hplace, hpi]
      · simp [hj]

theorem replace (h : Linked exempt slots relationships side lists)
    (hr : at? relationships e = some r) {r' : Relationship} (hside : side r' = side r) :
    Linked exempt slots (relationships.setIfInBounds e (some r')) side lists := by
  constructor
  · intro j x hx
    rw [at?_set (lt_size_of_at? hr)] at hx
    split at hx
    · cases hx
      rw [hside]
      exact h.side_live e r hr
    · exact h.side_live j x hx
  · intro i hi
    refine (h.row_eq i hi).congr fun j => ?_
    rw [at?_set (lt_size_of_at? hr)]
    by_cases hj : e = j
    · subst hj
      simp [hr, hside]
    · simp [hj]

/-- A new node is no end of any relationship. -/
theorem push_node (h : Linked exempt slots relationships side lists) {key : NodeKey}
    (hnew : slots.get? key = none) (place : Nat) :
    Linked exempt (slots.insert key place) relationships side (lists.push []) := by
  have hget : ∀ e r, at? relationships e = some r →
      (slots.insert key place).get? (side r) = slots.get? (side r) := by
    intro e r hr
    obtain ⟨j, hj⟩ := h.side_live e r hr
    rw [OrderedMap.get?_insert, if_neg]
    rintro rfl
    rw [hnew] at hj
    cases hj
  constructor
  · intro e r hr
    rw [hget e r hr]
    exact h.side_live e r hr
  · intro i hi
    rw [row_push]
    refine (h.row_eq i hi).congr fun e => exists_congr fun r => and_congr_right fun hr => ?_
    rw [hget e r hr]

/-- The row of a node that is about to go says nothing any more. -/
theorem clear (h : Linked (fun _ => False) slots relationships side lists) (i : Nat) :
    Linked (· = i) slots relationships side (lists.setIfInBounds i []) where
  side_live := h.side_live
  row_eq j hj := by
    rw [row_set_of_ne (Ne.symm hj)]
    exact h.row_eq j not_false

/-- A node that is no end of any relationship may go. -/
theorem erase_node (h : Linked (· = i) slots relationships side lists) {key : NodeKey}
    (hrow : row lists i = []) (hslot : ∀ k, slots.get? k = some i → k = key)
    (hfree : ∀ e r, at? relationships e = some r → side r ≠ key) :
    Linked (fun _ => False) (slots.erase key) relationships side lists := by
  have hget : ∀ e r, at? relationships e = some r →
      (slots.erase key).get? (side r) = slots.get? (side r) := by
    intro e r hr
    rw [OrderedMap.get?_erase, if_neg (Ne.symm (hfree e r hr))]
  constructor
  · intro e r hr
    rw [hget e r hr]
    exact h.side_live e r hr
  · intro j _
    by_cases hj : j = i
    · subst hj
      rw [hrow]
      refine .nil fun e he => ?_
      obtain ⟨r, hr, hk⟩ := he
      rw [hget e r hr] at hk
      exact hfree e r hr (hslot _ hk)
    · refine (h.row_eq j hj).congr fun e => exists_congr fun r => and_congr_right fun hr => ?_
      rw [hget e r hr]

end Linked

end Links

end PropertyGraph.Store
