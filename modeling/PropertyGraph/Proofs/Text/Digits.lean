import Mathlib.Tactic.Common
import PropertyGraph.Text.Digits

/-! Digits that are read back. The digits of a natural are told apart from what follows
them as long as that is no digit, and no zero stands in front of other digits. -/

namespace PropertyGraph.Digits

variable {n : Nat} {ds rest : List Char}

theorem isDigit_of_mem_ofNat {c : Char} (h : c ∈ ofNat n) : c.isDigit = true :=
  Nat.isDigit_of_mem_toDigits (by decide) (by decide) h

theorem ofNat_eq_cons (n : Nat) : ∃ d ds, ofNat n = d :: ds ∧ d.isDigit = true := by
  cases hn : ofNat n with
  | nil => exact absurd hn Nat.toDigits_ne_nil
  | cons d ds => exact ⟨d, ds, rfl, isDigit_of_mem_ofNat (hn ▸ List.mem_cons_self)⟩

theorem ofInt_eq_cons (n : Int) :
    ∃ c cs, ofInt n = c :: cs ∧ (c = '-' ∨ c.isDigit = true) := by
  rw [ofInt]
  split
  · exact ⟨_, _, rfl, .inl rfl⟩
  · obtain ⟨d, ds, hn, hd⟩ := ofNat_eq_cons n.natAbs
    exact ⟨d, ds, hn, .inr hd⟩

/-- Only zero itself starts with a zero. -/
theorem eq_nil_of_ofNat_eq_zero_cons (h : ofNat n = '0' :: ds) : ds = [] := by
  induction n using Nat.strongRecOn generalizing ds with
  | ind n ih =>
    rw [ofNat, Nat.toDigits_eq_if (by decide)] at h
    split at h
    · exact (List.cons.inj h).2.symm
    · next hn =>
      obtain ⟨d, front, hfront, -⟩ := ofNat_eq_cons (n / 10)
      rw [← ofNat, hfront, List.cons_append] at h
      obtain ⟨rfl, -⟩ := List.cons.inj h
      have hnil := ih (n / 10) (by omega) hfront
      subst hnil
      have hzero := toNat_ofNat (n / 10)
      rw [hfront] at hzero
      have : n / 10 = 0 := hzero.symm
      omega

theorem split_append (hds : ∀ c ∈ ds, c.isDigit = true)
    (hrest : ∀ c ∈ rest.head?, c.isDigit = false) : split (ds ++ rest) = (ds, rest) := by
  have hnone : rest.takeWhile Char.isDigit = [] ∧ rest.dropWhile Char.isDigit = rest := by
    cases rest with
    | nil => exact ⟨rfl, rfl⟩
    | cons c rest => simp [hrest c rfl]
  rw [split, List.takeWhile_append_of_pos hds, List.dropWhile_append_of_pos hds, hnone.1, hnone.2,
    List.append_nil]

/-- A run of digits that is not empty. -/
def IsNumeral (ds : List Char) : Prop := ds ≠ [] ∧ ∀ c ∈ ds, c.isDigit = true

theorem isNumeral_singleton {c : Char} (h : c.isDigit = true) : IsNumeral [c] :=
  ⟨List.cons_ne_nil c [], fun _ hd => List.mem_singleton.1 hd ▸ h⟩

theorem isNumeral_ofNat (n : Nat) : IsNumeral (ofNat n) :=
  ⟨Nat.toDigits_ne_nil, fun _ => isDigit_of_mem_ofNat⟩

theorem split?_append (h : IsNumeral ds) (hrest : ∀ c ∈ rest.head?, c.isDigit = false) :
    split? (ds ++ rest) = some (ds, rest) := by
  rw [split?, split_append h.2 hrest]
  cases ds with
  | nil => exact absurd rfl h.1
  | cons d ds => rfl

end PropertyGraph.Digits
