import PropertyGraph.Proofs.Double.Quotient

/-! Products of doubles. A ratio that is not below a power of two is not rounded to less than
that power, so a product lies between the powers of two around its factors. It overflows if the
powers below the factors reach the range together, and not if the ones above them stay away
from it. -/

namespace PropertyGraph.Double

variable {num den a b i j : Nat}

theorem le_roundScaled (hden : den ≠ 0) {e : Int} (h : (2 : ℚ) ^ (e + 52) * den ≤ num) :
    2 ^ 52 ≤ roundScaled num den e := by
  have hround : ∀ {n d : Nat}, d ≠ 0 → 2 ^ 52 * d ≤ n → 2 ^ 52 ≤ roundHalfEven n d := by
    intro n d hd hle
    exact ((Nat.le_div_iff_mul_le (Nat.pos_of_ne_zero hd)).2 hle).trans (le_roundHalfEven n d)
  rw [zpow_add₀ two_ne_zero] at h
  cases e with
  | ofNat e =>
    rw [roundScaled_ofNat]
    refine hround (by positivity) ?_
    rw [Int.ofNat_eq_natCast, zpow_natCast] at h
    have hle : (2 : ℚ) ^ 52 * (den * 2 ^ e) ≤ num := by
      refine le_trans (le_of_eq ?_) h
      rw [show (2 : ℚ) ^ (52 : Int) = 2 ^ 52 from rfl]
      ring
    exact_mod_cast hle
  | negSucc e =>
    rw [roundScaled_negSucc]
    refine hround hden ?_
    have hle : (2 : ℚ) ^ 52 * den ≤ num * 2 ^ (e + 1) := by
      rw [zpow_negSucc, mul_assoc, inv_mul_le_iff₀ (by positivity), mul_comm (_ ^ (e + 1))] at h
      exact h
    exact_mod_cast hle

/-- What is not below a power of two is not rounded to less. -/
theorem le_nearestRank (hden : den ≠ 0) {k : Nat} (hk : k ≤ 1024) (h : (2 : ℚ) ^ k * den ≤ num) :
    (k + 1023) * 2 ^ 52 ≤ nearestRank num den := by
  have hnum : num ≠ 0 := by
    rintro rfl
    have hpos : (0 : ℚ) < 2 ^ k * den := by positivity
    exact absurd (hpos.trans_le h) (by simp)
  obtain ⟨hlow, hhigh⟩ := binaryExponent_spec hnum hden
  have hexponent : (k : Int) < binaryExponent num den + 1 := by
    have hpower : (2 : ℚ) ^ (k : Int) < 2 ^ (binaryExponent num den + 1) := by
      rw [zpow_natCast]
      exact lt_of_mul_lt_mul_right (h.trans_lt hhigh) (by positivity)
    exact (zpow_lt_zpow_iff_right₀ one_lt_two).1 hpower
  obtain ⟨unit, hunit⟩ : ∃ unit, unit = max (binaryExponent num den - 52) (-1074) := ⟨_, rfl⟩
  have hround : 2 ^ 52 ≤ roundScaled num den unit := by
    refine le_roundScaled hden ?_
    rwa [show unit + 52 = binaryExponent num den by omega]
  have hbinade : k + 1022 ≤ (unit + 1074).toNat := by omega
  have hinfinity : (k + 1023) * 2 ^ 52 ≤ infinityRank :=
    Nat.mul_le_mul_right (2 ^ 52) (by omega : k + 1023 ≤ 2047)
  rw [nearestRank_eq hnum hunit]
  refine Nat.le_min.2 ⟨?_, hinfinity⟩
  calc (k + 1023) * 2 ^ 52 = (k + 1022) * 2 ^ 52 + 2 ^ 52 := Nat.succ_mul (k + 1022) _
    _ ≤ (unit + 1074).toNat * 2 ^ 52 + roundScaled num den unit :=
        Nat.add_le_add (Nat.mul_le_mul_right _ hbinade) hround

/-! ### Multiplication -/

theorem cast_ratio_fst (rank : Nat) : ((ratio rank).1 : ℚ) = rankValue rank * (ratio rank).2 := by
  have hden : ((ratio rank).2 : ℚ) ≠ 0 := by exact_mod_cast (ratio_snd_pos rank).ne'
  rw [rankValue, div_mul_cancel₀ _ hden]

theorem rankValue_nonneg (rank : Nat) : 0 ≤ rankValue rank := by
  rw [rankValue]
  positivity

/-- A product is below the power of two after the ones that its factors do not exceed. -/
theorem mulRank_le (ha : rankValue a ≤ 2 ^ i) (hb : rankValue b ≤ 2 ^ j) :
    mulRank a b ≤ (i + j + 1 + 1023) * 2 ^ 52 := by
  have hden : (ratio a).2 * (ratio b).2 ≠ 0 :=
    Nat.mul_ne_zero (ratio_snd_pos a).ne' (ratio_snd_pos b).ne'
  have hpos : (0 : ℚ) < ((ratio a).2 * (ratio b).2 : Nat) := by
    exact_mod_cast Nat.pos_of_ne_zero hden
  refine nearestRank_le hden ?_
  calc (((ratio a).1 * (ratio b).1 : Nat) : ℚ)
      = rankValue a * rankValue b * ((ratio a).2 * (ratio b).2 : Nat) := by
        push_cast
        rw [cast_ratio_fst a, cast_ratio_fst b]
        ring
    _ ≤ 2 ^ i * 2 ^ j * ((ratio a).2 * (ratio b).2 : Nat) :=
        mul_le_mul_of_nonneg_right (mul_le_mul ha hb (rankValue_nonneg b) (by positivity)) hpos.le
    _ < 2 ^ (i + j + 1) * ((ratio a).2 * (ratio b).2 : Nat) := by
        rw [← pow_add]
        exact mul_lt_mul_of_pos_right (pow_lt_pow_right₀ one_lt_two (Nat.lt_succ_self _)) hpos

/-- A product is not below the powers of two below its factors. -/
theorem le_mulRank (ha : 2 ^ i ≤ rankValue a) (hb : 2 ^ j ≤ rankValue b) (h : i + j ≤ 1024) :
    (i + j + 1023) * 2 ^ 52 ≤ mulRank a b := by
  have hden : (ratio a).2 * (ratio b).2 ≠ 0 :=
    Nat.mul_ne_zero (ratio_snd_pos a).ne' (ratio_snd_pos b).ne'
  refine le_nearestRank hden h ?_
  calc (2 : ℚ) ^ (i + j) * ((ratio a).2 * (ratio b).2 : Nat)
      ≤ rankValue a * rankValue b * ((ratio a).2 * (ratio b).2 : Nat) := by
        rw [pow_add]
        exact mul_le_mul_of_nonneg_right
          (mul_le_mul ha hb (by positivity) (rankValue_nonneg a)) (by positivity)
    _ = ((ratio a).1 * (ratio b).1 : Nat) := by
        push_cast
        rw [cast_ratio_fst a, cast_ratio_fst b]
        ring

end PropertyGraph.Double
