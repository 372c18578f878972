import Mathlib.Data.Int.ConditionallyCompleteOrder
import Mathlib.Tactic.FieldSimp
import Mathlib.Tactic.Positivity
import Mathlib.Tactic.Ring
import PropertyGraph.Proofs.Double.Rounding

/-! Exact values of doubles. Every finite double is a multiple of the least positive one,
`2 ^ -1074`, and its rank orders it by that multiple. The double nearest to an integer passes
no other double: whatever lies below it lies below the integer, and whatever lies above it
above the integer. An integer of 53 bits is a double itself. -/

namespace PropertyGraph.Double

/-! ### Multiples of the least double -/

/-- The value of a finite rank in units of `2 ^ -1074`. -/
def units (rank : Nat) : Nat := significand rank * 2 ^ (exponent rank + 1074).toNat

/-- The units of a rank whose binade is unit `2 ^ k` and has `m` units in it. The carry into
the next binade is one of these. -/
theorem units_add {k m : Nat} (hm : m ≤ 2 ^ 53) (hk : 2 ^ 52 ≤ m ∨ k = 0) :
    units (k * 2 ^ 52 + m) = m * 2 ^ k := by
  rcases Nat.lt_or_ge m (2 ^ 52) with hsub | hnormal
  · obtain rfl : k = 0 := by omega
    rw [units, significand_eq, exponent_eq, if_pos (by omega), if_pos (by omega)]
    simp
  · rw [units, significand_eq, exponent_eq, if_neg (by omega), if_neg (by omega)]
    rcases Nat.lt_or_eq_of_le hm with hlt | rfl
    · have hdiv : (k * 2 ^ 52 + m) / 2 ^ 52 = k + 1 := by omega
      have hmod : 2 ^ 52 + (k * 2 ^ 52 + m) % 2 ^ 52 = m := by omega
      have hexp : (((k + 1 : Nat) : Int) - 1075 + 1074).toNat = k := by omega
      rw [hdiv, hmod, hexp]
    · have hdiv : (k * 2 ^ 52 + 2 ^ 53) / 2 ^ 52 = k + 2 := by omega
      have hmod : 2 ^ 52 + (k * 2 ^ 52 + 2 ^ 53) % 2 ^ 52 = 2 ^ 52 := by omega
      have hexp : (((k + 2 : Nat) : Int) - 1075 + 1074).toNat = k + 1 := by omega
      rw [hdiv, hmod, hexp, Nat.pow_succ]
      omega

theorem exists_binade (rank : Nat) :
    ∃ k m, rank = k * 2 ^ 52 + m ∧ m < 2 ^ 53 ∧ (2 ^ 52 ≤ m ∨ k = 0) := by
  rcases Nat.lt_or_ge rank (2 ^ 52) with hsub | hnormal
  · exact ⟨0, rank, by omega, by omega, .inr rfl⟩
  · exact ⟨rank / 2 ^ 52 - 1, 2 ^ 52 + rank % 2 ^ 52, by omega, by omega, .inl (by omega)⟩

theorem strictMono_units : StrictMono units := by
  refine strictMono_nat_of_lt_succ fun rank => ?_
  obtain ⟨k, m, rfl, hm, hk⟩ := exists_binade rank
  rw [Nat.add_assoc, units_add (by omega) hk, units_add (by omega) (by omega)]
  exact Nat.mul_lt_mul_of_pos_right (Nat.lt_succ_self m) (Nat.two_pow_pos k)

theorem units_zero : units 0 = 0 := rfl

/-! ### The double nearest to an integer -/

theorem le_roundHalfEven (num den : Nat) : num / den ≤ roundHalfEven num den := by
  unfold roundHalfEven
  dsimp only
  split
  · exact Nat.le_refl _
  · split
    · exact Nat.le_succ _
    · exact Nat.le_add_right _ _

/-- Rounding moves by at most one half. -/
theorem roundHalfEven_near {num den : Nat} (hden : 0 < den) :
    2 * (roundHalfEven num den * den) ≤ 2 * num + den ∧
      2 * num ≤ 2 * (roundHalfEven num den * den) + den := by
  have hnum : num / den * den + num % den = num := by
    rw [Nat.mul_comm]
    exact Nat.div_add_mod num den
  have hrest := Nat.mod_lt num hden
  unfold roundHalfEven
  dsimp only
  generalize num / den = quotient at *
  generalize num % den = rest at *
  split
  · omega
  · split
    · rw [Nat.add_mul]
      omega
    · rcases Nat.mod_two_eq_zero_or_one quotient with h | h <;> rw [h, Nat.add_mul] <;> omega

/-- The least positive double is `2 ^ -1074`. -/
@[irreducible] def depth : Nat := 1074

theorem two_pow_mul_depth {a b e : Nat} (h : a + b = e + 1074) :
    2 ^ a * 2 ^ b = 2 ^ e * 2 ^ depth := by
  rw [← Nat.pow_add, ← Nat.pow_add, h, depth]

/-- What the rounding of an integer to 53 places comes to, in units. -/
theorem roundScaled_one_near {num m k : Nat} (h : num ≠ 0)
    (hm : m = roundScaled num 1 ((num.log2 : Int) - 52)) (hk : k = num.log2 + 1022) :
    2 ^ 52 ≤ m ∧ 2 * (m * 2 ^ k) ≤ 2 * (num * 2 ^ depth) + 2 ^ k ∧
      2 * (num * 2 ^ depth) ≤ 2 * (m * 2 ^ k) + 2 ^ k := by
  have hlow : 2 ^ num.log2 ≤ num := Nat.log2_self_le h
  rcases Nat.lt_or_ge num.log2 52 with hsmall | hlarge
  · obtain ⟨e, he⟩ : ∃ e, num.log2 + (e + 1) = 52 := ⟨51 - num.log2, by omega⟩
    have hunit : (num.log2 : Int) - 52 = .negSucc e := by omega
    have hexact : m = num * 2 ^ (e + 1) := by
      rw [hm, hunit, roundScaled_negSucc, roundHalfEven_one]
    have hunits : m * 2 ^ k = num * 2 ^ depth := by
      have hexponent : e + 1 + k = depth := by
        rw [depth]
        omega
      rw [hexact, Nat.mul_assoc, ← Nat.pow_add, hexponent]
    have hnormal : 2 ^ 52 ≤ m := by
      calc 2 ^ 52 = 2 ^ num.log2 * 2 ^ (e + 1) := by rw [← Nat.pow_add, he]
        _ ≤ num * 2 ^ (e + 1) := Nat.mul_le_mul_right _ hlow
        _ = m := hexact.symm
    rw [hunits]
    exact ⟨hnormal, Nat.le_add_right _ _, Nat.le_add_right _ _⟩
  · obtain ⟨e, he⟩ : ∃ e, num.log2 = 52 + e := ⟨num.log2 - 52, by omega⟩
    have hunit : (num.log2 : Int) - 52 = .ofNat e := by
      rw [he, Int.ofNat_eq_natCast]
      omega
    have hpow : 2 ^ k = 2 ^ e * 2 ^ depth := by
      rw [← two_pow_mul_depth (a := 0) (b := k) (by omega), Nat.pow_zero, Nat.one_mul]
    have hround : m = roundHalfEven num (2 ^ e) := by
      rw [hm, hunit, roundScaled_ofNat, Nat.one_mul]
    have hnormal : 2 ^ 52 ≤ num / 2 ^ e := by
      rw [he, Nat.pow_add] at hlow
      exact (Nat.le_div_iff_mul_le (Nat.two_pow_pos e)).2 hlow
    obtain ⟨hle, hge⟩ := @roundHalfEven_near num _ (Nat.two_pow_pos e)
    rw [← hround] at hle hge
    refine ⟨hround ▸ hnormal.trans (le_roundHalfEven num _), ?_, ?_⟩
    · calc 2 * (m * 2 ^ k) = 2 * (m * 2 ^ e) * 2 ^ depth := by rw [hpow]; ring
        _ ≤ (2 * num + 2 ^ e) * 2 ^ depth := Nat.mul_le_mul_right _ hle
        _ = 2 * (num * 2 ^ depth) + 2 ^ k := by rw [hpow]; ring
    · calc 2 * (num * 2 ^ depth) = 2 * num * 2 ^ depth := by ring
        _ ≤ (2 * (m * 2 ^ e) + 2 ^ e) * 2 ^ depth := Nat.mul_le_mul_right _ hge
        _ = 2 * (m * 2 ^ k) + 2 ^ k := by rw [hpow]; ring

/-- A double below the one nearest to an integer is below the integer, and a double above it
above. -/
theorem units_nearestRank_one {num : Nat} (h : num < 2 ^ 64) (rank : Nat) :
    (rank < nearestRank num 1 → units rank < num * 2 ^ depth) ∧
      (nearestRank num 1 < rank → num * 2 ^ depth < units rank) := by
  by_cases hzero : num = 0
  · subst hzero
    rw [show nearestRank 0 1 = 0 from rfl, Nat.zero_mul]
    exact ⟨fun hlt => absurd hlt (Nat.not_lt_zero rank), fun hlt => strictMono_units hlt⟩
  obtain ⟨k, hk⟩ : ∃ k, k = num.log2 + 1022 := ⟨_, rfl⟩
  obtain ⟨m, hm⟩ : ∃ m, m = roundScaled num 1 ((num.log2 : Int) - 52) := ⟨_, rfl⟩
  obtain ⟨hnormal, hle, hge⟩ := roundScaled_one_near hzero hm hk
  have hcarry : m ≤ 2 ^ 53 := hm ▸ roundScaled_one_le num
  have hrank : nearestRank num 1 = k * 2 ^ 52 + m := by
    have hlt := nearestRank_one_lt h
    rw [nearestRank_one hzero, ← hk, ← hm] at hlt ⊢
    omega
  have hunits := units_add hcarry (.inl hnormal : 2 ^ 52 ≤ m ∨ k = 0)
  have hplace := Nat.two_pow_pos k
  rw [hrank]
  constructor
  · intro hlt
    rcases Nat.eq_or_lt_of_le hnormal with heq | hgt
    · -- the least double of the binade is not above the integer
      have hbinade : m * 2 ^ k ≤ num * 2 ^ depth := by
        rw [← heq, two_pow_mul_depth (e := num.log2) (by omega)]
        exact Nat.mul_le_mul_right _ (Nat.log2_self_le hzero)
      have hbelow := strictMono_units hlt
      rw [hunits] at hbelow
      exact hbelow.trans_le hbinade
    · have hbelow : units rank ≤ units (k * 2 ^ 52 + (m - 1)) :=
        strictMono_units.monotone (by omega)
      rw [units_add (by omega) (.inl (by omega))] at hbelow
      have hstep : (m - 1) * 2 ^ k + 2 ^ k = m * 2 ^ k := by
        rw [← Nat.succ_mul, Nat.succ_eq_add_one, Nat.sub_add_cancel (by omega)]
      omega
  · intro hlt
    rcases Nat.eq_or_lt_of_le hcarry with heq | hlt'
    · -- the first double of the next binade is above the integer
      have hbinade : num * 2 ^ depth < m * 2 ^ k := by
        rw [heq, two_pow_mul_depth (e := num.log2 + 1) (by omega)]
        exact Nat.mul_lt_mul_of_pos_right Nat.lt_log2_self (Nat.two_pow_pos depth)
      have habove := strictMono_units hlt
      rw [hunits] at habove
      exact hbinade.trans habove
    · have habove : units (k * 2 ^ 52 + (m + 1)) ≤ units rank :=
        strictMono_units.monotone (by omega)
      rw [units_add (by omega) (.inl (by omega)), Nat.add_mul] at habove
      omega

/-! ### Values -/

/-- The value of a finite rank. -/
def rankValue (rank : Nat) : ℚ := (ratio rank).1 / (ratio rank).2

/-- The exact value of a finite double. -/
def rational? : Double → Option ℚ
  | .nan => none
  | .number negative rank =>
    if rank.val < infinityRank then some (if negative then -rankValue rank else rankValue rank)
    else none

theorem rankValue_eq (rank : Nat) : rankValue rank = units rank / 2 ^ depth := by
  have hleast : -1074 ≤ exponent rank := by
    rw [exponent_eq]
    split <;> omega
  rw [rankValue, units, ratio_eq]
  cases hexp : exponent rank with
  | ofNat e =>
    have hshift : (Int.ofNat e + 1074).toNat = e + depth := by
      rw [depth, Int.ofNat_eq_natCast]
      omega
    have hpos : (2 : ℚ) ^ depth ≠ 0 := by positivity
    rw [hshift, pow_add]
    push_cast
    field_simp
  | negSucc e =>
    have hshift : depth = (Int.negSucc e + 1074).toNat + (e + 1) := by
      rw [depth]
      omega
    rw [hshift, pow_add]
    push_cast
    field_simp

/-- The units of a signed rank. -/
def signedUnits (key : Int) : Int := if key < 0 then -units key.natAbs else units key.natAbs

@[simp] theorem signedUnits_natCast (n : Nat) : signedUnits n = units n := by
  rw [signedUnits, if_neg (by omega), Int.natAbs_natCast]

@[simp] theorem signedUnits_neg (key : Int) : signedUnits (-key) = -signedUnits key := by
  rw [signedUnits, signedUnits, Int.natAbs_neg]
  rcases Int.lt_trichotomy key 0 with hlt | rfl | hgt
  · rw [if_neg (by omega), if_pos hlt, Int.neg_neg]
  · rfl
  · rw [if_pos (by omega), if_neg (by omega)]

theorem strictMono_signedUnits : StrictMono signedUnits := by
  intro m n hmn
  have hlt := @strictMono_units
  rw [signedUnits, signedUnits]
  split
  · split
    · have := hlt (show n.natAbs < m.natAbs by omega)
      omega
    · have := hlt (show 0 < m.natAbs by omega)
      omega
  · rw [if_neg (by omega)]
    have := hlt (show m.natAbs < n.natAbs by omega)
    omega

/-- The value of a signed rank. -/
def keyValue (key : Int) : ℚ := signedUnits key / 2 ^ depth

theorem strictMono_keyValue : StrictMono keyValue := fun _ _ hmn =>
  div_lt_div_of_pos_right (Int.cast_lt.2 (strictMono_signedUnits hmn)) (by positivity)

theorem rational?_eq_some_iff {x : Double} {q : ℚ} : x.rational? = some q ↔
    ∃ key, x.key? = some key ∧ key.natAbs < infinityRank ∧ q = keyValue key := by
  cases x with
  | nan => simp [rational?, key?]
  | number negative rank =>
    have habs : (if negative then -(rank.val : Int) else rank.val).natAbs = rank.val := by
      cases negative <;> simp
    have hvalue : keyValue (if negative then -(rank.val : Int) else rank.val) =
        if negative then -rankValue rank else rankValue rank := by
      rw [rankValue_eq, keyValue]
      cases negative <;> simp [neg_div]
    simp only [rational?, key?, Option.some.injEq, exists_eq_left', habs, hvalue]
    split
    · next hlt => simp [hlt, eq_comm]
    · next hge => simp [hge]

/-- Finite doubles are in the order of their exact values. -/
theorem compare?_eq_of_rational? {x y : Double} {q r : ℚ} (hx : x.rational? = some q)
    (hy : y.rational? = some r) : x.compare? y = some (compare q r) := by
  obtain ⟨m, hm, -, rfl⟩ := rational?_eq_some_iff.1 hx
  obtain ⟨n, hn, -, rfl⟩ := rational?_eq_some_iff.1 hy
  have hcompare : compare (keyValue m) (keyValue n) = compare m n := by
    rw [← cmp_eq_compare, ← cmp_eq_compare, strictMono_keyValue.cmp_map_eq]
  simp [compare?, hm, hn, hcompare]

/-- What is below the nearest double of a natural is below the natural, and what is above it
above. -/
theorem signedUnits_nearestRank_one {num : Nat} (h : num < 2 ^ 64) (key : Int) :
    (key < nearestRank num 1 → signedUnits key < num * 2 ^ depth) ∧
      (nearestRank num 1 < key → num * 2 ^ depth < signedUnits key) := by
  rcases lt_or_ge key 0 with hneg | hnonneg
  · have hunits : signedUnits key < 0 := strictMono_signedUnits hneg
    have hnum : (0 : Int) ≤ num * 2 ^ depth := by positivity
    exact ⟨fun _ => hunits.trans_le hnum, fun hlt => by omega⟩
  · obtain ⟨rank, rfl⟩ := Int.eq_ofNat_of_zero_le hnonneg
    obtain ⟨hbelow, habove⟩ := units_nearestRank_one h rank
    rw [signedUnits_natCast]
    exact ⟨fun hlt => by exact_mod_cast hbelow (by omega),
      fun hlt => by exact_mod_cast habove (by omega)⟩

/-- The signed rank of the double nearest to an integer. -/
def intKey (n : Int) : Int :=
  if n < 0 then -nearestRank n.natAbs 1 else nearestRank n.natAbs 1

theorem key?_ofInt {n : Int} (h : n.natAbs < 2 ^ 64) : (ofInt n).key? = some (intKey n) := by
  have hmin : min (nearestRank n.natAbs 1) infinityRank = nearestRank n.natAbs 1 :=
    Nat.min_eq_left (nearestRank_one_lt h).le
  simp [ofInt, ofRatio, ofRank, key?, intKey, hmin]

theorem keyValue_lt_iff {key n : Int} : keyValue key < n ↔ signedUnits key < n * 2 ^ depth := by
  rw [keyValue, div_lt_iff₀ (by positivity)]
  exact_mod_cast Iff.rfl

theorem lt_keyValue_iff {key n : Int} : n < keyValue key ↔ n * 2 ^ depth < signedUnits key := by
  rw [keyValue, lt_div_iff₀ (by positivity)]
  exact_mod_cast Iff.rfl

/-- The double nearest to an integer passes no double. -/
theorem keyValue_intKey {n : Int} (h : n.natAbs < 2 ^ 64) (key : Int) :
    (key < intKey n → keyValue key < n) ∧ (intKey n < key → n < keyValue key) := by
  rw [keyValue_lt_iff, lt_keyValue_iff, intKey]
  split
  · next hneg =>
    obtain ⟨hbelow, habove⟩ := signedUnits_nearestRank_one h (-key)
    have hnum : (n.natAbs : Int) * 2 ^ depth = -(n * 2 ^ depth) := by
      rw [show (n.natAbs : Int) = -n by omega, Int.neg_mul]
    rw [signedUnits_neg, hnum] at hbelow habove
    exact ⟨fun hlt => Int.neg_lt_neg_iff.1 (habove (by omega)),
      fun hlt => Int.neg_lt_neg_iff.1 (hbelow (by omega))⟩
  · next hnonneg =>
    have hnum : (n.natAbs : Int) = n := by omega
    have hnear := signedUnits_nearestRank_one h key
    rw [hnum] at hnear
    exact hnear

/-! ### Integers and doubles -/

/-- The double is the one nearest to the integer, and it is another number. -/
def Blurs (x : Double) (n : Int) : Prop := x.sameNumber (ofInt n) = true ∧ x.rational? ≠ some (n : ℚ)

theorem sameNumber_ofInt_iff {n : Int} {x : Double} (hn : n.natAbs < 2 ^ 64) :
    x.sameNumber (ofInt n) = true ↔ x.key? = some (intKey n) := by
  cases hkey : x.key? <;> simp [sameNumber, compare?, key?_ofInt hn, hkey]

/-- The order of an integer and a double is that of the numbers they are, unless the double
stands for the integer. -/
theorem compare?_ofInt_eq_iff {n : Int} {x : Double} {r : ℚ} (hn : n.natAbs < 2 ^ 64)
    (hx : x.rational? = some r) :
    (ofInt n).compare? x = some (compare (n : ℚ) r) ↔ ¬ x.Blurs n := by
  obtain ⟨key, hkey, -, rfl⟩ := rational?_eq_some_iff.1 hx
  obtain ⟨hbelow, habove⟩ := keyValue_intKey hn key
  have hcompare : (ofInt n).compare? x = some (compare (intKey n) key) := by
    simp [compare?, key?_ofInt hn, hkey]
  rw [hcompare, Option.some.injEq, Blurs, sameNumber_ofInt_iff hn, hkey, hx, Option.some.injEq]
  rcases lt_trichotomy key (intKey n) with hlt | heq | hgt
  · rw [compare_gt_iff_gt.2 hlt, compare_gt_iff_gt.2 (hbelow hlt)]
    exact iff_of_true rfl fun h => hlt.ne h.1
  · rw [compare_eq_iff_eq.2 heq.symm, eq_comm, compare_eq_iff_eq]
    simp [heq, eq_comm]
  · rw [compare_lt_iff_lt.2 hgt, compare_lt_iff_lt.2 (habove hgt)]
    exact iff_of_true rfl fun h => hgt.ne' h.1

/-- An integer of up to 53 bits is a double. -/
theorem exists_units_eq {num : Nat} (h : num ≤ 2 ^ 53) :
    ∃ rank, units rank = num * 2 ^ depth := by
  by_cases hzero : num = 0
  · exact ⟨0, by rw [hzero, units_zero, Nat.zero_mul]⟩
  obtain ⟨e, he⟩ : ∃ e, e = 52 - num.log2 := ⟨_, rfl⟩
  have hexponent : e + (1074 - e) = depth := by
    rw [depth]
    omega
  have hlow : 2 ^ num.log2 ≤ num := Nat.log2_self_le hzero
  have hhigh : num < 2 ^ (num.log2 + 1) := Nat.lt_log2_self
  have hnormal : 2 ^ 52 ≤ num * 2 ^ e := by
    calc 2 ^ 52 ≤ 2 ^ (num.log2 + e) := Nat.pow_le_pow_right (by decide) (by omega)
      _ = 2 ^ num.log2 * 2 ^ e := Nat.pow_add ..
      _ ≤ num * 2 ^ e := Nat.mul_le_mul_right _ hlow
  have hcarry : num * 2 ^ e ≤ 2 ^ 53 := by
    rcases Nat.lt_or_ge num.log2 52 with hsmall | hlarge
    · calc num * 2 ^ e ≤ 2 ^ (num.log2 + 1) * 2 ^ e := Nat.mul_le_mul_right _ hhigh.le
        _ = 2 ^ (num.log2 + 1 + e) := (Nat.pow_add ..).symm
        _ = 2 ^ 53 := congrArg (2 ^ ·) (by omega)
    · obtain rfl : e = 0 := by omega
      rwa [Nat.pow_zero, Nat.mul_one]
  exact ⟨(1074 - e) * 2 ^ 52 + num * 2 ^ e, by
    rw [units_add hcarry (.inl hnormal), Nat.mul_assoc, ← Nat.pow_add, hexponent]⟩

theorem keyValue_intKey_eq {n : Int} (h : n.natAbs ≤ 2 ^ 53) : keyValue (intKey n) = n := by
  obtain ⟨rank, hrank⟩ := exists_units_eq h
  obtain ⟨key, hkey⟩ : ∃ key, signedUnits key = n * 2 ^ depth := by
    rcases Int.natAbs_eq n with hn | hn
    · refine ⟨rank, ?_⟩
      rw [hn, signedUnits_natCast, hrank]
      push_cast
      rfl
    · refine ⟨-rank, ?_⟩
      rw [hn, signedUnits_neg, signedUnits_natCast, hrank, Int.neg_mul]
      push_cast
      rfl
  have hvalue : keyValue key = n := by
    rw [keyValue, hkey]
    push_cast
    field_simp
  obtain ⟨hbelow, habove⟩ := keyValue_intKey (n := n) (by omega) key
  rcases lt_trichotomy key (intKey n) with hlt | heq | hgt
  · exact absurd hvalue (hbelow hlt).ne
  · rw [← heq, hvalue]
  · exact absurd hvalue (habove hgt).ne'

theorem not_blurs {n : Int} (h : n.natAbs ≤ 2 ^ 53) (x : Double) : ¬ x.Blurs n := by
  rintro ⟨hsame, hother⟩
  have hn : n.natAbs < 2 ^ 64 := by omega
  refine hother (rational?_eq_some_iff.2
    ⟨intKey n, (sameNumber_ofInt_iff hn).1 hsame, ?_, (keyValue_intKey_eq h).symm⟩)
  have hfinite := nearestRank_one_lt hn
  rw [intKey]
  split <;> omega

end PropertyGraph.Double
