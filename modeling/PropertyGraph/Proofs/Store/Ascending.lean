import Mathlib.Data.List.Nodup
import Mathlib.Tactic.Common
import PropertyGraph.Store

/-! Ascending lists of slots. A strictly ascending list is determined by the numbers in
it, so an index is described by saying which slots it lists. The operations of the store
on its lists are the ones here: a new greatest slot goes to the end, one slot is
dropped, and two lists are merged. While lists are merged, what has been merged enumerates
what was passed in them; so their merge enumerates their union. -/

namespace PropertyGraph

/-- The list holds exactly the numbers with a property, in strictly ascending order. -/
structure Enumerates (l : List Nat) (p : Nat → Prop) : Prop where
  ascending : l.Pairwise (· < ·)
  mem_iff : ∀ i, i ∈ l ↔ p i

namespace Enumerates

variable {l m : List Nat} {p q : Nat → Prop}

theorem congr (h : Enumerates l p) (hpq : ∀ i, p i ↔ q i) : Enumerates l q :=
  ⟨h.ascending, fun i => (h.mem_iff i).trans (hpq i)⟩

theorem nil (h : ∀ i, ¬ p i) : Enumerates [] p :=
  ⟨.nil, fun i => by simp [h i]⟩

theorem eq_nil (h : Enumerates l p) (hp : ∀ i, ¬ p i) : l = [] := by
  rw [List.eq_nil_iff_forall_not_mem]
  intro i hi
  exact hp i ((h.mem_iff i).1 hi)

theorem eq (hl : Enumerates l p) (hm : Enumerates m p) : l = m := by
  have hperm : l.Perm m := by
    have hlnodup : l.Nodup := hl.ascending.imp fun h => Nat.ne_of_lt h
    have hmnodup : m.Nodup := hm.ascending.imp fun h => Nat.ne_of_lt h
    rw [List.perm_ext_iff_of_nodup hlnodup hmnodup]
    intro i
    rw [hl.mem_iff, hm.mem_iff]
  refine hperm.eq_of_pairwise ?_ hl.ascending hm.ascending
  intro a b _ _ hab hba
  omega

/-- A slot past all others goes to the end. -/
theorem append_last {k : Nat} (h : Enumerates l p) (hk : ∀ i, p i → i < k) :
    Enumerates (l ++ [k]) fun i => p i ∨ i = k := by
  constructor
  · refine List.pairwise_append.2 ⟨h.ascending, List.pairwise_singleton _ _, ?_⟩
    intro i hi j hj
    rw [List.mem_singleton.1 hj]
    exact hk i ((h.mem_iff i).1 hi)
  · intro i
    rw [List.mem_append, List.mem_singleton, h.mem_iff]

theorem drop (h : Enumerates l p) (k : Nat) :
    Enumerates (l.filter fun i => decide (i ≠ k)) fun i => p i ∧ i ≠ k := by
  constructor
  · exact h.ascending.filter _
  · intro i
    rw [List.mem_filter, h.mem_iff, decide_eq_true_iff]

end Enumerates

/-! ### Merging -/

namespace Merging

variable {xs ys : List Nat} {m next : Merging}

/-- What is merged are the entries passed in either list, in ascending order, and the next
entries are greater. -/
structure Passed (xs ys : List Nat) (m : Merging) : Prop where
  enumerates : Enumerates m.merged.toList fun i => i ∈ xs.take m.left ∨ i ∈ ys.take m.right
  lt_left : ∀ i ∈ m.merged.toList, ∀ x, xs[m.left]? = some x → i < x
  lt_right : ∀ i ∈ m.merged.toList, ∀ y, ys[m.right]? = some y → i < y

theorem passed_start (xs ys : List Nat) : Passed xs ys start where
  enumerates := .nil fun i => by simp [start]
  lt_left := nofun
  lt_right := nofun

theorem mem_take_succ {l : List Nat} {k a i : Nat} (h : l[k]? = some a) :
    i ∈ l.take (k + 1) ↔ i ∈ l.take k ∨ i = a := by
  rw [List.take_add_one, h, Option.toList_some, List.mem_append, List.mem_singleton]

theorem lt_of_succ {l : List Nat} (hl : l.Pairwise (· < ·)) {k a b : Nat} (ha : l[k]? = some a)
    (hb : l[k + 1]? = some b) : a < b := by
  obtain ⟨hk, rfl⟩ := List.getElem?_eq_some_iff.1 ha
  obtain ⟨hk', rfl⟩ := List.getElem?_eq_some_iff.1 hb
  exact List.pairwise_iff_getElem.1 hl k (k + 1) hk hk' (Nat.lt_succ_self k)

/-- An entry may be merged that is greater than all before it and less than the next ones at
the places that it leads to. -/
theorem Passed.push (h : Passed xs ys m) {a left right : Nat}
    (hlast : ∀ i ∈ m.merged.toList, i < a)
    (hmem : ∀ i, (i ∈ xs.take m.left ∨ i ∈ ys.take m.right) ∨ i = a ↔
      i ∈ xs.take left ∨ i ∈ ys.take right)
    (hleft : ∀ x, xs[left]? = some x → a < x) (hright : ∀ y, ys[right]? = some y → a < y) :
    Passed xs ys ⟨left, right, m.merged.push a⟩ := by
  have hle : ∀ i ∈ (m.merged.push a).toList, i ≤ a := by
    intro i hi
    rw [Array.toList_push, List.mem_append, List.mem_singleton] at hi
    rcases hi with hi | rfl
    · exact Nat.le_of_lt (hlast i hi)
    · exact Nat.le_refl i
  refine ⟨?_, fun i hi x hx => ?_, fun i hi y hy => ?_⟩
  · rw [Array.toList_push]
    refine (h.enumerates.append_last fun i hi => ?_).congr hmem
    exact hlast i ((h.enumerates.mem_iff i).2 hi)
  · exact Nat.lt_of_le_of_lt (hle i hi) (hleft x hx)
  · exact Nat.lt_of_le_of_lt (hle i hi) (hright y hy)

/-- An iteration on ascending lists keeps that. -/
theorem Passed.advance (h : Passed xs ys m) (hx : xs.Pairwise (· < ·)) (hy : ys.Pairwise (· < ·))
    (hadvance : m.advance? xs.toArray ys.toArray = some next) : Passed xs ys next := by
  have hcases := advance?_cases hadvance
  simp only [List.getElem?_toArray] at hcases
  obtain ⟨x, hxm, hlt, rfl⟩ | ⟨y, hym, hlt, rfl⟩ | ⟨x, hxm, hym, rfl⟩ := hcases
  · refine h.push (fun i hi => h.lt_left i hi x hxm) (fun i => ?_) (fun _ => lt_of_succ hx hxm) hlt
    rw [mem_take_succ hxm]
    tauto
  · refine h.push (fun i hi => h.lt_right i hi y hym) (fun i => ?_) hlt fun _ => lt_of_succ hy hym
    rw [mem_take_succ hym]
    tauto
  · refine h.push (fun i hi => h.lt_left i hi x hxm) (fun i => ?_) (fun _ => lt_of_succ hx hxm)
      fun _ => lt_of_succ hy hym
    rw [mem_take_succ hxm, mem_take_succ hym]
    tauto

/-- As long as a list has an entry left, there is one to take. -/
theorem Pending.exists_advance {xs ys : Array Nat} (h : m.Pending xs ys) :
    ∃ next, m.advance? xs ys = some next := by
  unfold advance?
  split
  · split
    · exact ⟨_, rfl⟩
    · split <;> exact ⟨_, rfl⟩
  · exact ⟨_, rfl⟩
  · exact ⟨_, rfl⟩
  · next hx hy =>
    rw [Array.getElem?_eq_none_iff] at hx hy
    unfold Pending at h
    omega

/-! ### The loop -/

/-- So many iterations lead from one state to another. -/
inductive Iterations (xs ys : Array Nat) : Nat → Merging → Merging → Prop where
  | refl (m : Merging) : Iterations xs ys 0 m m
  | step {n : Nat} {m next last : Merging} : m.Pending xs ys → m.advance? xs ys = some next →
      Iterations xs ys n next last → Iterations xs ys (n + 1) m last

theorem Iterations.remaining_le {xs ys : Array Nat} {n : Nat} (h : Iterations xs ys n m next) :
    n + next.remaining xs ys ≤ m.remaining xs ys := by
  induction h with
  | refl m => exact Nat.le_of_eq (Nat.zero_add _)
  | step _ hadvance _ ih =>
    have hlt := (advance?_counts hadvance).2
    omega

/-- The loop ends with no entry left, not by a break. -/
theorem exists_iterations (xs ys : Array Nat) (m : Merging) :
    ∃ n last, Iterations xs ys n m last ∧ ¬ last.Pending xs ys ∧ run xs ys m = last.merged := by
  fun_induction run xs ys m with
  | case1 m hpending next hadvance ih =>
    obtain ⟨n, last, hlast, hended, hrun⟩ := ih
    exact ⟨n + 1, last, .step hpending hadvance hlast, hended, hrun⟩
  | case2 m hpending hnone =>
    obtain ⟨next, hadvance⟩ := hpending.exists_advance
    cases hnone.symm.trans hadvance
  | case3 m hended => exact ⟨0, m, .refl m, hended, rfl⟩

theorem Passed.iterations {n : Nat} (h : Passed xs ys m) (hx : xs.Pairwise (· < ·))
    (hy : ys.Pairwise (· < ·)) (hm : Iterations xs.toArray ys.toArray n m next) :
    Passed xs ys next := by
  induction hm with
  | refl m => exact h
  | step _ hadvance _ ih => exact ih (h.advance hx hy hadvance)

/-- When no entry is left, all entries are merged. -/
theorem Passed.ended (h : Passed xs ys m) (hended : ¬ m.Pending xs.toArray ys.toArray) :
    Enumerates m.merged.toList fun i => i ∈ xs ∨ i ∈ ys := by
  rw [Pending, not_or, Nat.not_lt, Nat.not_lt, List.size_toArray, List.size_toArray] at hended
  have hunion := h.enumerates
  rwa [List.take_of_length_le hended.1, List.take_of_length_le hended.2] at hunion

end Merging

theorem enumerates_mergeAscending {xs ys : List Nat} (hx : xs.Pairwise (· < ·))
    (hy : ys.Pairwise (· < ·)) : Enumerates (mergeAscending xs ys) fun i => i ∈ xs ∨ i ∈ ys := by
  obtain ⟨n, last, hlast, hended, hrun⟩ :=
    Merging.exists_iterations xs.toArray ys.toArray .start
  rw [mergeAscending, hrun]
  exact ((Merging.passed_start xs ys).iterations hx hy hlast).ended hended

theorem Enumerates.merge {xs ys : List Nat} {p q : Nat → Prop} (hx : Enumerates xs p)
    (hy : Enumerates ys q) : Enumerates (mergeAscending xs ys) fun i => p i ∨ q i :=
  (enumerates_mergeAscending hx.ascending hy.ascending).congr fun i =>
    or_congr (hx.mem_iff i) (hy.mem_iff i)

/-- Merging ascending lists gives their union, ascending and with every number once, whichever
list comes first. The loop passes an entry in every iteration, so it takes at most as many as
there are entries, and in each of them there is an entry to take. -/
theorem mergeAscending_union {xs ys : List Nat} (hx : xs.Pairwise (· < ·))
    (hy : ys.Pairwise (· < ·)) :
    (Enumerates (mergeAscending xs ys) fun i => i ∈ xs ∨ i ∈ ys) ∧
    (∀ i ∈ xs, i ∈ ys → (mergeAscending xs ys).count i = 1) ∧
    mergeAscending xs ys = mergeAscending ys xs ∧
    (∃ n last, Merging.Iterations xs.toArray ys.toArray n .start last ∧
      ¬ last.Pending xs.toArray ys.toArray ∧ last.merged.toList = mergeAscending xs ys) ∧
    ∀ n m, Merging.Iterations xs.toArray ys.toArray n .start m → n ≤ xs.length + ys.length ∧
      (m.Pending xs.toArray ys.toArray → ∃ next, m.advance? xs.toArray ys.toArray = some next) := by
  have hunion := enumerates_mergeAscending hx hy
  refine ⟨hunion, fun i hxi _ => ?_, ?_, ?_, fun n m hm => ⟨?_, Merging.Pending.exists_advance⟩⟩
  · have hnodup : (mergeAscending xs ys).Nodup := hunion.ascending.imp Nat.ne_of_lt
    exact List.count_eq_one_of_mem hnodup ((hunion.mem_iff i).2 (.inl hxi))
  · exact hunion.eq ((enumerates_mergeAscending hy hx).congr fun i => or_comm)
  · obtain ⟨n, last, hlast, hended, hrun⟩ :=
      Merging.exists_iterations xs.toArray ys.toArray .start
    exact ⟨n, last, hlast, hended, by rw [mergeAscending, hrun]⟩
  · have hle := hm.remaining_le
    simp only [Merging.remaining, Merging.start, List.size_toArray] at hle
    omega

theorem mergeAscending_union_shared :
    mergeAscending [0, 2, 5] [1, 2, 6] = [0, 1, 2, 5, 6] ∧
    (mergeAscending [0, 2, 5] [1, 2, 6]).count 2 = 1 ∧
    mergeAscending [0, 2, 5] [1, 2, 6] = mergeAscending [1, 2, 6] [0, 2, 5] ∧
    ∀ n m, Merging.Iterations #[0, 2, 5] #[1, 2, 6] n .start m → n ≤ 6 := by
  have hx : [0, 2, 5].Pairwise (· < ·) := by decide
  have hy : [1, 2, 6].Pairwise (· < ·) := by decide
  obtain ⟨-, honce, hcomm, -, hloop⟩ := mergeAscending_union hx hy
  refine ⟨?_, honce 2 (by decide) (by decide), hcomm, fun n m hm => (hloop n m hm).1⟩
  decide +kernel

end PropertyGraph
