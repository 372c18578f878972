import Mathlib.Algebra.Order.Field.Power
import PropertyGraph.Proofs.Double.Exact

/-! Quotients of doubles. A ratio below a power of two is rounded to a double that is at most
that power, so dividing by a double that is not below one leaves the range of the doubles
nowhere. -/

namespace PropertyGraph.Double

variable {num den : Nat}

/-! ### Ratios between powers of two -/

theorem reachesPower_iff (e : Int) :
    reachesPower num den e = true ↔ (2 : ℚ) ^ e * den ≤ num := by
  cases e with
  | ofNat e =>
    rw [reachesPower_ofNat, decide_eq_true_eq, Int.ofNat_eq_natCast, zpow_natCast, mul_comm]
    exact_mod_cast Iff.rfl
  | negSucc e =>
    rw [reachesPower_negSucc, decide_eq_true_eq, zpow_negSucc, inv_mul_le_iff₀ (by positivity), mul_comm]
    exact_mod_cast Iff.rfl

theorem le_two_zpow_log2 (h : num ≠ 0) : (2 : ℚ) ^ (num.log2 : Int) ≤ num := by
  rw [zpow_natCast]
  exact_mod_cast Nat.log2_self_le h

theorem lt_two_zpow_log2 (num : Nat) : (num : ℚ) < 2 ^ ((num.log2 : Int) + 1) := by
  have hlt : num < 2 ^ (num.log2 + 1) := Nat.lt_log2_self
  exact_mod_cast hlt

/-- The binary exponent is that of the power of two below the ratio. -/
theorem binaryExponent_spec (hnum : num ≠ 0) (hden : den ≠ 0) :
    (2 : ℚ) ^ binaryExponent num den * den ≤ num ∧
      (num : ℚ) < 2 ^ (binaryExponent num den + 1) * den := by
  obtain ⟨e, he⟩ : ∃ e : Int, e = num.log2 - den.log2 := ⟨_, rfl⟩
  have hexponent : binaryExponent num den = if reachesPower num den e then e else e - 1 := by
    rw [he]
    rfl
  have hlow := le_two_zpow_log2 hnum
  have hhigh := lt_two_zpow_log2 num
  have hlow' := le_two_zpow_log2 hden
  have hhigh' := lt_two_zpow_log2 den
  rw [hexponent]
  by_cases hreach : reachesPower num den e = true
  · rw [if_pos hreach]
    refine ⟨(reachesPower_iff e).1 hreach, hhigh.trans_le ?_⟩
    calc (2 : ℚ) ^ ((num.log2 : Int) + 1) = 2 ^ (e + 1) * 2 ^ (den.log2 : Int) := by
          rw [← zpow_add₀ two_ne_zero, he]
          congr 1
          omega
      _ ≤ 2 ^ (e + 1) * den := mul_le_mul_of_nonneg_left hlow' (by positivity)
  · rw [if_neg hreach, Int.sub_add_cancel]
    refine ⟨le_trans ?_ hlow, not_le.1 fun hle => hreach ((reachesPower_iff e).2 hle)⟩
    calc (2 : ℚ) ^ (e - 1) * den ≤ 2 ^ (e - 1) * 2 ^ ((den.log2 : Int) + 1) :=
          mul_le_mul_of_nonneg_left hhigh'.le (by positivity)
      _ = 2 ^ (num.log2 : Int) := by
          rw [← zpow_add₀ two_ne_zero, he]
          congr 1
          omega

/-- A ratio below `2 ^ 53` units is rounded to at most so many. -/
theorem roundScaled_le (hden : den ≠ 0) {e : Int} (h : (num : ℚ) < 2 ^ (e + 53) * den) :
    roundScaled num den e ≤ 2 ^ 53 := by
  have hround : ∀ {n d : Nat}, d ≠ 0 → n < 2 ^ 53 * d → roundHalfEven n d ≤ 2 ^ 53 := by
    intro n d hd hlt
    have hquotient := (Nat.div_lt_iff_lt_mul (Nat.pos_of_ne_zero hd)).2 hlt
    have hle := roundHalfEven_le n d
    omega
  rw [zpow_add₀ two_ne_zero] at h
  cases e with
  | ofNat e =>
    rw [roundScaled_ofNat]
    refine hround (by positivity) ?_
    rw [Int.ofNat_eq_natCast, zpow_natCast] at h
    have hlt : (num : ℚ) < 2 ^ 53 * (den * 2 ^ e) := by
      refine h.trans_eq ?_
      rw [show (2 : ℚ) ^ (53 : Int) = 2 ^ 53 from rfl]
      ring
    exact_mod_cast hlt
  | negSucc e =>
    rw [roundScaled_negSucc]
    refine hround hden ?_
    have hlt : (num : ℚ) * 2 ^ (e + 1) < 2 ^ 53 * den := by
      rw [zpow_negSucc, mul_assoc, lt_inv_mul_iff₀ (by positivity), mul_comm] at h
      exact h
    exact_mod_cast hlt

/-- What is below a power of two is rounded to at most that power. -/
theorem nearestRank_le (hden : den ≠ 0) {k : Nat} (h : (num : ℚ) < 2 ^ k * den) :
    nearestRank num den ≤ (k + 1023) * 2 ^ 52 := by
  by_cases hnum : num = 0
  · rw [nearestRank, if_pos hnum]
    exact Nat.zero_le _
  obtain ⟨hlow, hhigh⟩ := binaryExponent_spec hnum hden
  have hexponent : binaryExponent num den < k := by
    have hpower : (2 : ℚ) ^ binaryExponent num den < 2 ^ (k : Int) := by
      rw [zpow_natCast]
      exact lt_of_mul_lt_mul_right (hlow.trans_lt h) (by positivity)
    exact (zpow_lt_zpow_iff_right₀ one_lt_two).1 hpower
  obtain ⟨unit, hunit⟩ : ∃ unit, unit = max (binaryExponent num den - 52) (-1074) := ⟨_, rfl⟩
  have hround : roundScaled num den unit ≤ 2 ^ 53 := by
    refine roundScaled_le hden (hhigh.trans_le ?_)
    exact mul_le_mul_of_nonneg_right (zpow_le_zpow_right₀ one_le_two (by omega)) (by positivity)
  have hbinade : (unit + 1074).toNat ≤ k + 1021 := by omega
  have hrank := nearestRank_eq hnum hunit
  omega

/-! ### Division -/

theorem ratio_snd_pos (rank : Nat) : 0 < (ratio rank).2 := by
  rw [ratio_eq]
  split
  · exact Nat.one_pos
  · exact Nat.two_pow_pos _

theorem strictMono_rankValue : StrictMono rankValue := by
  intro m n hmn
  rw [rankValue_eq, rankValue_eq]
  exact div_lt_div_of_pos_right (by exact_mod_cast strictMono_units hmn) (by positivity)

/-- The ranks of the powers of two. -/
theorem rankValue_two_pow (k : Nat) : rankValue ((k + 1023) * 2 ^ 52) = 2 ^ k := by
  obtain ⟨j, hj⟩ : ∃ j, k + 1023 = j + 1 := ⟨k + 1022, rfl⟩
  have hunits : units ((k + 1023) * 2 ^ 52) = 2 ^ k * 2 ^ depth := by
    have hnormal : 2 ^ 52 ≤ 2 ^ 53 := Nat.pow_le_pow_right Nat.two_pos (Nat.le_succ 52)
    have hdepth : 52 + j = k + 1074 := by omega
    rw [hj, Nat.succ_mul, units_add hnormal (.inl le_rfl), two_pow_mul_depth hdepth]
  rw [rankValue_eq, hunits]
  push_cast
  field_simp

theorem rankValue_le_iff {rank k : Nat} : rankValue rank ≤ 2 ^ k ↔ rank ≤ (k + 1023) * 2 ^ 52 := by
  rw [← rankValue_two_pow, strictMono_rankValue.le_iff_le]

theorem le_rankValue_iff {rank k : Nat} : 2 ^ k ≤ rankValue rank ↔ (k + 1023) * 2 ^ 52 ≤ rank := by
  rw [← rankValue_two_pow, strictMono_rankValue.le_iff_le]

/-- An integer is not rounded to less than a power of two below it. -/
theorem le_rankValue_nearestRank_one {num k : Nat} (h : 2 ^ k ≤ num) (hk : k < 1024) :
    2 ^ k ≤ rankValue (nearestRank num 1) := by
  have hinfinity : (k + 1023) * 2 ^ 52 ≤ infinityRank :=
    Nat.mul_le_mul_right (2 ^ 52) (by omega : k + 1023 ≤ 2047)
  have hnum : num ≠ 0 := Nat.ne_of_gt (Nat.lt_of_lt_of_le (Nat.two_pow_pos k) h)
  have hbinade : (k + 1023) * 2 ^ 52 ≤ (num.log2 + 1022) * 2 ^ 52 + 2 ^ 52 := by
    have hlog : k ≤ num.log2 := (Nat.le_log2 hnum).2 h
    rw [← Nat.succ_mul]
    exact Nat.mul_le_mul_right _ (Nat.add_le_add_right hlog 1023)
  obtain ⟨hnormal, -⟩ := roundScaled_one_near hnum rfl rfl
  rw [le_rankValue_iff, nearestRank_one hnum]
  exact Nat.le_min.2 ⟨hbinade.trans (Nat.add_le_add_left hnormal _), hinfinity⟩

/-- A quotient below a power of two is rounded to at most that power. -/
theorem rankValue_divRank_le {a b k : Nat} (h : rankValue a < 2 ^ k * rankValue b) :
    rankValue (divRank a b) ≤ 2 ^ k := by
  have ha : (0 : ℚ) < (ratio a).2 := by exact_mod_cast ratio_snd_pos a
  have hb : (0 : ℚ) < (ratio b).2 := by exact_mod_cast ratio_snd_pos b
  have hden : (ratio b).1 ≠ 0 := by
    intro hzero
    have hvalue : 0 ≤ rankValue a := by
      rw [rankValue]
      positivity
    rw [rankValue.eq_def b, hzero, Nat.cast_zero, zero_div, mul_zero] at h
    exact absurd h hvalue.not_gt
  refine rankValue_le_iff.2 (nearestRank_le (Nat.mul_ne_zero (ratio_snd_pos a).ne' hden) ?_)
  rw [rankValue, rankValue, mul_div_assoc', div_lt_div_iff₀ ha hb] at h
  push_cast
  calc ((ratio a).1 : ℚ) * (ratio b).2 < 2 ^ k * (ratio b).1 * (ratio a).2 := h
    _ = 2 ^ k * ((ratio a).2 * (ratio b).1) := by ring

end PropertyGraph.Double
