import Mathlib.Algebra.Group.Nat.Defs
import Mathlib.Tactic.Common
import PropertyGraph.Double

/-! Rounding to doubles. An integer of 64 bits is far inside the doubles: it is rounded in
units of the last of 53 binary places, so its rank is at most the one that its binade
begins with and `2 ^ 53` more. -/

namespace PropertyGraph.Double

/-! ### Powers of two -/

theorem infinityRank_eq : infinityRank = 2047 * 2 ^ 52 := rfl

theorem significand_eq (rank : Nat) :
    significand rank = if rank < 2 ^ 52 then rank else 2 ^ 52 + rank % 2 ^ 52 := rfl

theorem exponent_eq (rank : Nat) : exponent rank =
    (if rank < 2 ^ 52 then -1074 else (rank / 2 ^ 52 : Nat) - 1075 : Int) := rfl

theorem ratio_eq (rank : Nat) : ratio rank = match exponent rank with
    | .ofNat e => (significand rank * 2 ^ e, 1)
    | .negSucc e => (significand rank, 2 ^ (e + 1)) := by
  rw [ratio]
  cases exponent rank with
  | ofNat e => exact congrArg (·, 1) (Nat.shiftLeft_eq ..)
  | negSucc e => exact congrArg (significand rank, ·) (Nat.one_shiftLeft _)

section

variable (num den e : Nat)

theorem roundScaled_ofNat :
    roundScaled num den (.ofNat e) = roundHalfEven num (den * 2 ^ e) := by
  rw [roundScaled, Nat.shiftLeft_eq]

theorem roundScaled_negSucc :
    roundScaled num den (.negSucc e) = roundHalfEven (num * 2 ^ (e + 1)) den := by
  rw [roundScaled, Nat.shiftLeft_eq]

theorem reachesPower_ofNat : reachesPower num den (.ofNat e) = decide (den * 2 ^ e ≤ num) := by
  rw [reachesPower, Nat.shiftLeft_eq]

theorem reachesPower_negSucc :
    reachesPower num den (.negSucc e) = decide (den ≤ num * 2 ^ (e + 1)) := by
  rw [reachesPower, Nat.shiftLeft_eq]

end

/-- The rank nearest to a ratio, if its unit in the last place is known. -/
theorem nearestRank_eq {num den : Nat} (h : num ≠ 0) {unit : Int}
    (hunit : unit = max (binaryExponent num den - 52) (-1074)) : nearestRank num den =
      min ((unit + 1074).toNat * 2 ^ 52 + roundScaled num den unit) infinityRank := by
  rw [nearestRank, if_neg h, hunit]
  rfl

/-! ### Integers of 64 bits -/

theorem roundHalfEven_le (num den : Nat) : roundHalfEven num den ≤ num / den + 1 := by
  unfold roundHalfEven
  dsimp only
  split
  · omega
  · split
    · omega
    · omega

theorem roundHalfEven_one (num : Nat) : roundHalfEven num 1 = num := by
  simp [roundHalfEven, Nat.mod_one]

/-- The binary exponent of an integer is that of its leading digit. -/
theorem binaryExponent_one {num : Nat} (h : num ≠ 0) : binaryExponent num 1 = num.log2 := by
  have hreach : reachesPower num 1 num.log2 = true := by
    rw [← Int.ofNat_eq_natCast, reachesPower_ofNat, Nat.one_mul, decide_eq_true_eq]
    exact Nat.log2_self_le h
  have hone : (Nat.log2 1 : Int) = 0 := rfl
  rw [binaryExponent, hone, Int.sub_zero, hreach]
  rfl

/-- An integer is less than `2 ^ 53` units of its last place. -/
theorem roundScaled_one_le (num : Nat) :
    roundScaled num 1 ((num.log2 : Int) - 52) ≤ 2 ^ 53 := by
  have hlt : num < 2 ^ (num.log2 + 1) := Nat.lt_log2_self
  rcases Nat.lt_or_ge num.log2 52 with hsmall | hlarge
  · obtain ⟨k, hk⟩ : ∃ k, num.log2 + (k + 1) = 52 := ⟨51 - num.log2, by omega⟩
    have hunit : (num.log2 : Int) - 52 = .negSucc k := by omega
    rw [hunit, roundScaled_negSucc, roundHalfEven_one]
    have hmul : num * 2 ^ (k + 1) < 2 ^ (num.log2 + 1) * 2 ^ (k + 1) :=
      Nat.mul_lt_mul_of_pos_right hlt (Nat.two_pow_pos _)
    rw [← Nat.pow_add, show num.log2 + 1 + (k + 1) = 53 by omega] at hmul
    exact Nat.le_of_lt hmul
  · obtain ⟨k, hk⟩ : ∃ k, num.log2 = 52 + k := ⟨num.log2 - 52, by omega⟩
    have hunit : (num.log2 : Int) - 52 = .ofNat k := by
      rw [hk, Int.ofNat_eq_natCast]
      omega
    rw [hunit, roundScaled_ofNat, Nat.one_mul]
    have hdiv : num / 2 ^ k < 2 ^ 53 := by
      rw [Nat.div_lt_iff_lt_mul (Nat.two_pow_pos _), ← Nat.pow_add]
      rwa [hk, show 52 + k + 1 = 53 + k by omega] at hlt
    have hround := roundHalfEven_le num (2 ^ k)
    omega

theorem nearestRank_one {num : Nat} (h : num ≠ 0) :
    nearestRank num 1 = min ((num.log2 + 1022) * 2 ^ 52 +
      roundScaled num 1 ((num.log2 : Int) - 52)) infinityRank := by
  have hunit : (num.log2 : Int) - 52 = max (binaryExponent num 1 - 52) (-1074) := by
    rw [binaryExponent_one h]
    omega
  have hbinade : ((num.log2 : Int) - 52 + 1074).toNat = num.log2 + 1022 := by omega
  rw [nearestRank_eq h hunit, hbinade]

theorem nearestRank_one_lt {num : Nat} (h : num < 2 ^ 64) : nearestRank num 1 < infinityRank := by
  by_cases hzero : num = 0
  · rw [nearestRank, if_pos hzero]
    decide
  · have hlog : num.log2 < 64 := (Nat.log2_lt hzero).2 h
    have hround := roundScaled_one_le num
    have hinfinity := infinityRank_eq
    have hrank := nearestRank_one hzero
    omega

/-- An integer of 64 bits, signed or not, has a finite double. -/
theorem isFinite_ofInt {n : Int} (h : n.natAbs < 2 ^ 64) : (ofInt n).isFinite = true := by
  have hlt := nearestRank_one_lt h
  simp only [ofInt, ofRatio, ofRank, isFinite, decide_eq_true_eq]
  omega

end PropertyGraph.Double
