import PropertyGraph.Proofs.Double.Quotient
import PropertyGraph.Proofs.Json.Number
import PropertyGraph.Proofs.Value.Conversion

/-! The range of number literals. A literal that stands for a number stands for an integer of
64 bits, signed or not, or for a finite double: its significand is kept to 64 bits, products
that are too large are no numbers, and quotients only go down. -/

namespace PropertyGraph

theorem Double.isFinite_ofRank {negative : Bool} {rank : Nat} (h : rank < infinityRank) :
    (ofRank negative rank).isFinite = true := by
  simp only [ofRank, isFinite, Nat.min_eq_left h.le, decide_eq_true h]

namespace Json.NumberLiteral

open Double

theorem accumulate_le {n : Nat} {ds : List Char} (h : n ≤ largestWord) :
    (accumulate n ds).1 ≤ largestWord := by
  induction ds generalizing n with
  | nil => exact h
  | cons d ds ih =>
    simp only [accumulate]
    split
    · exact h
    · next hfits => exact ih (Nat.not_lt.1 hfits)

/-- Dividing by a number that is not below `2 ^ k` takes `k` off the binary exponent, but for
what rounding adds. -/
theorem rankValue_divRank_nearestRank_le {rank k num : Nat} (hrank : rankValue rank ≤ 2 ^ 64)
    (hnum : 2 ^ k ≤ num) (hk : k ≤ 64) :
    rankValue (divRank rank (nearestRank num 1)) ≤ 2 ^ (65 - k) := by
  have hdivisor := le_rankValue_nearestRank_one hnum (by omega)
  refine rankValue_divRank_le ?_
  calc rankValue rank ≤ 2 ^ 64 := hrank
    _ < 2 ^ 65 := pow_lt_pow_right₀ one_lt_two (Nat.lt_succ_self 64)
    _ = 2 ^ (65 - k) * 2 ^ k := by rw [← pow_add, Nat.sub_add_cancel (by omega)]
    _ ≤ 2 ^ (65 - k) * rankValue (nearestRank num 1) :=
      mul_le_mul_of_nonneg_left hdivisor (by positivity)

theorem lt_infinityRank {rank k : Nat} (h : rankValue rank ≤ 2 ^ k) (hk : k < 1024) :
    rank < infinityRank := by
  refine (rankValue_le_iff.1 h).trans_lt ?_
  exact Nat.mul_lt_mul_of_pos_right (by omega : k + 1023 < 2047) (Nat.two_pow_pos 52)

/-- From a significand of 64 bits scaling leads to a finite rank. -/
theorem scaleDown_lt {fuel rank : Nat} {e : Int} {r : Nat} (hrank : rankValue rank ≤ 2 ^ 64)
    (h : scaleDown fuel rank e = some r) : r < infinityRank := by
  induction fuel generalizing rank e with
  | zero => cases h
  | succ fuel ih =>
    simp only [scaleDown] at h
    split at h
    · split at h
      · split at h
        · next hlt =>
          cases h
          exact hlt
        · cases h
      · cases h
        have hpower : 2 ^ 0 ≤ Nat.pow 10 e.natAbs := Nat.one_le_pow _ _ (by decide)
        exact lt_infinityRank (rankValue_divRank_nearestRank_le hrank hpower (by decide))
          (by decide)
    · split at h
      · cases h
        decide
      · split at h
        · cases h
        · have hpower : ∀ {e : Nat}, e ≠ 0 → 2 ^ 1 ≤ Nat.pow 10 e := fun he =>
            Nat.le_trans (by decide) (Nat.le_self_pow he 10)
          exact ih (rankValue_divRank_nearestRank_le hrank (hpower (by decide)) (by decide)) h

theorem scaled_lt {significand : Nat} {e : Int} {rank : Nat} (hfits : significand ≤ largestWord)
    (h : scaled significand e = some rank) : rank < infinityRank := by
  have hlt : (significand : ℚ) < 2 ^ 64 * (1 : ℕ) := by
    rw [Nat.cast_one, mul_one]
    exact_mod_cast Nat.lt_of_le_of_lt hfits (by decide)
  exact scaleDown_lt (rankValue_le_iff.2 (nearestRank_le one_ne_zero hlt)) h

theorem fits_of_float? {negative : Bool} {significand : Nat} {shift : Int}
    {exponent : Option (Bool × List Char)} {n : JsonNumber} (hfits : significand ≤ largestWord)
    (h : float? negative significand shift exponent = some n) : n.Fits := by
  have hscaled : ∀ {e : Int}, (scaled significand e).map
      (fun rank => JsonNumber.float (.ofRank negative rank)) = some n → n.Fits := by
    intro e h
    obtain ⟨rank, hrank, rfl⟩ := Option.map_eq_some_iff.1 h
    exact isFinite_ofRank (scaled_lt hfits hrank)
  cases exponent with
  | none => exact hscaled h
  | some x =>
    simp only [float?] at h
    split at h
    · split at h
      · cases h
        exact isFinite_ofRank (by decide)
      · cases h
    · exact hscaled h

theorem fits_integer {negative : Bool} {n : Nat} (h : n ≤ largestWord) :
    (integer negative n).Fits := by
  have hword : n < 2 ^ 64 := Nat.lt_of_le_of_lt h (by decide)
  rw [integer]
  split
  · split
    · exact isFinite_ofRank (nearestRank_one_lt hword)
    · constructor <;> omega
  · constructor <;> omega

/-- What a literal stands for fits. -/
theorem fits_of_value? {l : NumberLiteral} {n : JsonNumber} (h : l.value? = some n) : n.Fits := by
  have hwhole : (accumulate 0 l.whole).1 ≤ largestWord := accumulate_le (Nat.zero_le _)
  simp only [value?] at h
  split at h
  · split at h
    · cases h
      exact fits_integer hwhole
    · exact fits_of_float? hwhole h
  · exact fits_of_float? (accumulate_le hwhole) h

end Json.NumberLiteral

end PropertyGraph
