/-! The merge of two ascending lists. Two places move along the lists; an iteration takes the
lesser of the two entries there, or one from both places if they are equal. Every iteration
passes an entry that was left, so the merge ends and is no longer than both lists together. -/

namespace PropertyGraph

/-- Two lists that are being merged: the places of their next entries, and what has been
merged so far. -/
structure Merging where
  left : Nat
  right : Nat
  merged : Array Nat

namespace Merging

def start : Merging := ⟨0, 0, #[]⟩

/-- Whether one of the lists has an entry left. -/
def Pending (xs ys : Array Nat) (m : Merging) : Prop := m.left < xs.size ∨ m.right < ys.size

instance (xs ys : Array Nat) (m : Merging) : Decidable (m.Pending xs ys) :=
  inferInstanceAs (Decidable (_ ∨ _))

/-- Takes the lesser of the next two entries, and both if they are equal. None if neither
list has a next entry. -/
def advance? (xs ys : Array Nat) (m : Merging) : Option Merging :=
  match xs[m.left]?, ys[m.right]? with
  | some x, some y =>
    if x < y then some ⟨m.left + 1, m.right, m.merged.push x⟩
    else if y < x then some ⟨m.left, m.right + 1, m.merged.push y⟩
    else some ⟨m.left + 1, m.right + 1, m.merged.push x⟩
  | some x, none => some ⟨m.left + 1, m.right, m.merged.push x⟩
  | none, some y => some ⟨m.left, m.right + 1, m.merged.push y⟩
  | none, none => none

/-- The number of entries left in both lists. -/
def remaining (xs ys : Array Nat) (m : Merging) : Nat := (xs.size - m.left) + (ys.size - m.right)

/-- What an iteration can do: it takes an entry from one list, and there is no lesser or equal
one in the other, or it takes the same entry from both. -/
theorem advance?_cases {xs ys : Array Nat} {m next : Merging} (h : m.advance? xs ys = some next) :
    (∃ x, xs[m.left]? = some x ∧ (∀ y, ys[m.right]? = some y → x < y) ∧
      next = ⟨m.left + 1, m.right, m.merged.push x⟩) ∨
    (∃ y, ys[m.right]? = some y ∧ (∀ x, xs[m.left]? = some x → y < x) ∧
      next = ⟨m.left, m.right + 1, m.merged.push y⟩) ∨
    ∃ x, xs[m.left]? = some x ∧ ys[m.right]? = some x ∧
      next = ⟨m.left + 1, m.right + 1, m.merged.push x⟩ := by
  unfold advance? at h
  split at h
  · next x y hx hy =>
    split at h
    · next hlt => exact .inl ⟨x, hx, by simpa [hy] using hlt, (Option.some.inj h).symm⟩
    · split at h
      · next hgt => exact .inr (.inl ⟨y, hy, by simpa [hx] using hgt, (Option.some.inj h).symm⟩)
      · next hle hge =>
        obtain rfl : x = y := Nat.le_antisymm (Nat.le_of_not_lt hge) (Nat.le_of_not_lt hle)
        exact .inr (.inr ⟨x, hx, hy, (Option.some.inj h).symm⟩)
  · next x hx hy => exact .inl ⟨x, hx, by simp [hy], (Option.some.inj h).symm⟩
  · next y hx hy => exact .inr (.inl ⟨y, hy, by simp [hx], (Option.some.inj h).symm⟩)
  · cases h

/-- An iteration merges one entry, and that is one of those left. -/
theorem advance?_counts {xs ys : Array Nat} {m next : Merging} (h : m.advance? xs ys = some next) :
    next.merged.size = m.merged.size + 1 ∧ next.remaining xs ys < m.remaining xs ys := by
  unfold remaining
  obtain ⟨x, hx, -, rfl⟩ | ⟨y, hy, -, rfl⟩ | ⟨x, hx, hy, rfl⟩ := advance?_cases h
  · have hlt := (Array.getElem?_eq_some_iff.1 hx).1
    exact ⟨Array.size_push x, by simp only; omega⟩
  · have hlt := (Array.getElem?_eq_some_iff.1 hy).1
    exact ⟨Array.size_push y, by simp only; omega⟩
  · have hltx := (Array.getElem?_eq_some_iff.1 hx).1
    have hlty := (Array.getElem?_eq_some_iff.1 hy).1
    exact ⟨Array.size_push x, by simp only; omega⟩

def run (xs ys : Array Nat) (m : Merging) : Array Nat :=
  if m.Pending xs ys then
    match _h : m.advance? xs ys with
    | some next => run xs ys next
    | none => m.merged
  else m.merged
termination_by m.remaining xs ys
decreasing_by exact (advance?_counts _h).2

theorem size_run_le (xs ys : Array Nat) (m : Merging) :
    (run xs ys m).size ≤ m.merged.size + m.remaining xs ys := by
  fun_induction run xs ys m with
  | case1 m _ next h ih =>
    have hcounts := advance?_counts h
    omega
  | case2 m _ h => exact Nat.le_add_right _ _
  | case3 m _ => exact Nat.le_add_right _ _

end Merging

/-- The union of two ascending lists, ascending. -/
def mergeAscending (xs ys : List Nat) : List Nat :=
  (Merging.start.run xs.toArray ys.toArray).toList

theorem length_mergeAscending_le (xs ys : List Nat) :
    (mergeAscending xs ys).length ≤ xs.length + ys.length := by
  have hsize := Merging.size_run_le xs.toArray ys.toArray .start
  simpa [mergeAscending, Merging.start, Merging.remaining] using hsize

end PropertyGraph
