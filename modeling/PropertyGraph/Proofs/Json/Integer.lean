import PropertyGraph.Proofs.Command.Lexeme
import PropertyGraph.Proofs.Double.Product
import PropertyGraph.Proofs.Json.Range

/-! Integer literals of any length in JSON texts. As long as the digits fit 64 bits the literal
stands for the integer, or, if that is negative zero or out of the signed range, for a double.
From then on the leading digits are scaled by the power of ten of those left over. Up to 307
digits the product is a double, and from 310 digits on the literal stands for no number. -/

namespace PropertyGraph.Json.NumberLiteral

open Digits Double

variable {l : NumberLiteral} {n : Nat} {ds : List Char}

/-- A literal with neither a fraction nor an exponent. -/
structure IsInteger (l : NumberLiteral) : Prop extends l.WellFormed where
  no_fraction : l.fraction = []
  no_exponent : l.exponent = none

/-- The integer that is written. -/
def toInt (l : NumberLiteral) : Int :=
  if l.negative then -(Digits.toNat l.whole : Int) else Digits.toNat l.whole

/-- The integer is one of the signed 64 bits. -/
def IsSigned (l : NumberLiteral) : Prop := -2 ^ 63 ≤ l.toInt ∧ l.toInt < 2 ^ 63

instance (l : NumberLiteral) : Decidable l.IsSigned := inferInstanceAs (Decidable (_ ∧ _))

/-- Zero with a minus sign. -/
def IsNegativeZero (l : NumberLiteral) : Prop := l.negative = true ∧ l.toInt = 0

instance (l : NumberLiteral) : Decidable l.IsNegativeZero := inferInstanceAs (Decidable (_ ∧ _))

theorem natAbs_toInt (l : NumberLiteral) : l.toInt.natAbs = Digits.toNat l.whole := by
  rw [toInt]
  split <;> simp

/-- The characters of an integer are its digits behind its sign. -/
theorem IsInteger.chars_eq (h : l.IsInteger) :
    l.chars = if l.negative then '-' :: l.whole else l.whole := by
  simp only [chars, h.no_fraction, h.no_exponent, fractionChars, exponentChars, List.append_nil]
  split <;> rfl

theorem isInteger_ofInt (n : Int) : (ofInt n).IsInteger where
  toWellFormed := wellFormed_ofInt n
  no_fraction := rfl
  no_exponent := rfl

theorem toInt_ofInt (n : Int) : (ofInt n).toInt = n := by
  simp only [toInt, ofInt, Digits.toNat_ofNat, decide_eq_true_eq]
  split <;> omega

/-! ### Significant digits -/

theorem digit_le_nine {c : Char} (h : c.isDigit = true) : c.toNat - '0'.toNat ≤ 9 := by
  have hzero : '0'.toNat = 48 := rfl
  have hrange := Token.isDigit_iff.1 h
  omega

/-- Digits behind a number multiply it by a power of ten and add less than that. -/
theorem ofDigitChars_bounds (hds : ∀ c ∈ ds, c.isDigit = true) :
    n * 10 ^ ds.length ≤ Nat.ofDigitChars 10 ds n ∧
      Nat.ofDigitChars 10 ds n < (n + 1) * 10 ^ ds.length := by
  induction ds generalizing n with
  | nil => simp
  | cons d ds ih =>
    obtain ⟨hd, hds⟩ := List.forall_mem_cons.1 hds
    have hdigit := digit_le_nine hd
    rw [Nat.ofDigitChars_cons, List.length_cons, Nat.pow_succ']
    obtain ⟨hlow, hhigh⟩ := ih (n := 10 * n + (d.toNat - '0'.toNat)) hds
    constructor
    · calc n * (10 * 10 ^ ds.length) = 10 * n * 10 ^ ds.length := by ring
        _ ≤ (10 * n + (d.toNat - '0'.toNat)) * 10 ^ ds.length :=
          Nat.mul_le_mul_right _ (Nat.le_add_right _ _)
        _ ≤ _ := hlow
    · calc _ < (10 * n + (d.toNat - '0'.toNat) + 1) * 10 ^ ds.length := hhigh
        _ ≤ (10 * n + 10) * 10 ^ ds.length := Nat.mul_le_mul_right _ (by omega)
        _ = (n + 1) * (10 * 10 ^ ds.length) := by ring

/-- The significand with zeros for the digits left over is the number, up to one in its last
place. -/
theorem accumulate_bounds (hds : ∀ c ∈ ds, c.isDigit = true) :
    (accumulate n ds).1 * 10 ^ (accumulate n ds).2 ≤ Nat.ofDigitChars 10 ds n ∧
      Nat.ofDigitChars 10 ds n < ((accumulate n ds).1 + 1) * 10 ^ (accumulate n ds).2 := by
  induction ds generalizing n with
  | nil => simp [accumulate]
  | cons d ds ih =>
    simp only [accumulate]
    split
    · exact ofDigitChars_bounds hds
    · rw [Nat.ofDigitChars_cons, Nat.mul_comm 10 n]
      exact ih (List.forall_mem_cons.1 hds).2

/-- If digits are left over, the significand has almost 64 bits. -/
theorem le_significand (hds : ∀ c ∈ ds, c.isDigit = true) (h : (accumulate n ds).2 ≠ 0) :
    2 ^ 60 ≤ (accumulate n ds).1 := by
  induction ds generalizing n with
  | nil => exact absurd rfl h
  | cons d ds ih =>
    obtain ⟨hd, hds⟩ := List.forall_mem_cons.1 hds
    have hdigit := digit_le_nine hd
    simp only [accumulate] at h ⊢
    split at h
    · next hlarge =>
      rw [if_pos hlarge]
      rw [largestWord] at hlarge
      omega
    · next hfits =>
      rw [if_neg hfits]
      exact ih hds h

/-- Digits are left over exactly if the number has more than 64 bits. -/
theorem dropped_ne_zero (hds : ∀ c ∈ ds, c.isDigit = true)
    (h : largestWord < Nat.ofDigitChars 10 ds 0) : (accumulate 0 ds).2 ≠ 0 := by
  intro hnone
  obtain ⟨-, hhigh⟩ := accumulate_bounds (n := 0) hds
  have hword : (accumulate 0 ds).1 ≤ largestWord := accumulate_le (Nat.zero_le _)
  rw [hnone, Nat.pow_zero, Nat.mul_one] at hhigh
  omega

/-! ### Values -/

theorem value?_of_le (h : l.IsInteger) (hword : Digits.toNat l.whole ≤ largestWord) :
    l.value? = some (integer l.negative (Digits.toNat l.whole)) := by
  rw [value?, accumulate_eq hword, h.no_fraction, h.no_exponent]
  rfl

theorem value?_of_lt (h : l.IsInteger) (hlong : largestWord < Digits.toNat l.whole) :
    l.value? = (scaled (accumulate 0 l.whole).1 (accumulate 0 l.whole).2).map fun rank =>
      .float (.ofRank l.negative rank) := by
  simp only [value?, h.no_fraction, h.no_exponent, if_neg (dropped_ne_zero h.whole.2 hlong), float?]

/-- The value that a number of a document is taken over as. -/
def taken? (l : NumberLiteral) : Option Value := l.value?.map .ofNumber

theorem taken?_eq_none_iff : l.taken? = none ↔ l.value? = none := Option.map_eq_none_iff

/-- A literal of the signed 64 bits is taken over as it is written, unless it is negative zero. -/
theorem taken?_of_signed (h : l.IsInteger) (hsigned : l.IsSigned) (hzero : ¬ l.IsNegativeZero) :
    l.taken? = some (.integer (.ofInt l.toInt)) := by
  have habs := natAbs_toInt l
  have hint : Value.int64? l.toInt = some (.ofInt l.toInt) := if_pos hsigned
  obtain ⟨hmin, hmax⟩ := hsigned
  have hvalue : l.value? = some (.integer l.toInt) := by
    rw [value?_of_le h (by rw [largestWord]; omega), integer, toInt]
    split
    · next hnegative =>
      have hne : l.toInt ≠ 0 := fun hz => hzero ⟨hnegative, hz⟩
      rw [toInt, if_pos hnegative] at hmin hne
      rw [if_neg (by omega)]
    · rfl
  rw [taken?, hvalue, Option.map_some, Value.ofNumber, hint]

theorem taken?_of_negative_zero (h : l.IsInteger) (hzero : l.IsNegativeZero) :
    l.taken? = some (.float (.ofRank true 0)) := by
  have hnat : Digits.toNat l.whole = 0 := by rw [← natAbs_toInt, hzero.2, Int.natAbs_zero]
  rw [taken?, value?_of_le h (hnat ▸ Nat.zero_le _), hnat, hzero.1]
  rfl

/-- A literal of 64 bits that are not signed ones is taken over as the nearest double. -/
theorem taken?_of_word (h : l.IsInteger) (hword : l.toInt.natAbs < 2 ^ 64)
    (hsigned : ¬ l.IsSigned) : l.taken? = some (.float (.ofInt l.toInt)) := by
  have habs := natAbs_toInt l
  rw [IsSigned] at hsigned
  rw [taken?, value?_of_le h (by rw [largestWord]; omega), Option.map_some, integer]
  split
  · next hnegative =>
    rw [toInt, if_pos hnegative] at hsigned
    have hlarge : 2 ^ 63 < Digits.toNat l.whole := by omega
    rw [if_pos (.inr hlarge), Double.ofInt, habs, toInt, if_pos hnegative,
      decide_eq_true (by omega : -(Digits.toNat l.whole : Int) < 0)]
    rfl
  · next hpositive =>
    rw [toInt, if_neg hpositive] at hsigned ⊢
    have hint : Value.int64? (Digits.toNat l.whole) = none := if_neg (by omega)
    rw [Value.ofNumber, hint]

/-- A literal that is not of the signed 64 bits is taken over as a double if at all. -/
theorem exists_float_of_taken? (h : l.IsInteger) (hsigned : ¬ l.IsSigned) {v : Value}
    (hv : l.taken? = some v) :
    ∃ x, v = .float x ∧ (l.toInt.natAbs < 2 ^ 64 → x = .ofInt l.toInt) := by
  rcases Nat.lt_or_ge l.toInt.natAbs (2 ^ 64) with hword | hlong
  · rw [taken?_of_word h hword hsigned] at hv
    cases hv
    exact ⟨_, rfl, fun _ => rfl⟩
  · have hlarge : largestWord < Digits.toNat l.whole := by
      rw [← natAbs_toInt, largestWord]
      omega
    rw [taken?, value?_of_lt h hlarge] at hv
    obtain ⟨n, hn, rfl⟩ := Option.map_eq_some_iff.1 hv
    obtain ⟨rank, -, rfl⟩ := Option.map_eq_some_iff.1 hn
    exact ⟨_, rfl, fun hword => absurd hword (Nat.not_lt.2 hlong)⟩

/-- What the signed 64 bits hold of a literal is what it is taken over as, but for negative zero
and for the doubles. -/
theorem signed_eq_taken?_iff (h : l.IsInteger) :
    (if l.IsSigned then some (.integer (.ofInt l.toInt)) else none) = l.taken? ↔
      (l.IsSigned ∧ ¬ l.IsNegativeZero) ∨ l.taken? = none := by
  by_cases hsigned : l.IsSigned
  · rw [if_pos hsigned]
    by_cases hzero : l.IsNegativeZero
    · simp [taken?_of_negative_zero h hzero, hzero]
    · simp [taken?_of_signed h hsigned hzero, hsigned, hzero]
  · rw [if_neg hsigned, eq_comm]
    simp [hsigned]

/-! ### Range -/

theorem scaled_of_le {significand dropped : Nat} (h : dropped ≤ 308) :
    scaled significand dropped =
      if mulRank (nearestRank significand 1) (nearestRank (10 ^ dropped) 1) < infinityRank then
        some (mulRank (nearestRank significand 1) (nearestRank (10 ^ dropped) 1)) else none := by
  rw [scaled, scaleDown, Int.natAbs_natCast, if_pos h, if_pos (Int.natCast_nonneg _)]
  rfl

/-- A power of ten of more than 308 zeros is beyond the doubles. -/
theorem scaled_of_lt {significand dropped : Nat} (hsignificand : 1 ≤ significand)
    (h : 308 < dropped) : scaled significand dropped = none := by
  have hrank : nearestRank significand 1 ≠ 0 := by
    have hle := le_rankValue_iff.1 (le_rankValue_nearestRank_one (k := 0) hsignificand (by decide))
    omega
  rw [scaled, scaleDown, Int.natAbs_natCast, if_neg (Nat.not_le.2 h), if_neg hrank,
    if_pos (Int.natCast_nonneg _)]

theorem rankValue_nearestRank_one_le (num : Nat) :
    rankValue (nearestRank num 1) ≤ 2 ^ (num.log2 + 1) := by
  refine rankValue_le_iff.2 (nearestRank_le one_ne_zero ?_)
  rw [Nat.cast_one, mul_one]
  exact_mod_cast (Nat.lt_log2_self : num < 2 ^ (num.log2 + 1))

/-- A product below `2 ^ 1020` does not overflow when its factors are rounded. -/
theorem scaled_ne_none {significand dropped : Nat} (hsignificand : significand ≠ 0)
    (h : significand * 10 ^ dropped < 2 ^ 1020) : scaled significand dropped ≠ none := by
  have hpower : 10 ^ dropped ≠ 0 := (Nat.pow_pos (by decide)).ne'
  have hdropped : dropped ≤ 308 := by
    by_contra hlarge
    have hlt : ∀ k ≤ dropped, 10 ^ k < 2 ^ 1020 := by
      intro k hk
      calc 10 ^ k ≤ 10 ^ dropped := Nat.pow_le_pow_right (by decide) hk
        _ ≤ significand * 10 ^ dropped :=
          Nat.le_mul_of_pos_left _ (Nat.pos_of_ne_zero hsignificand)
        _ < 2 ^ 1020 := h
    exact absurd (hlt 308 (by omega)) (by decide +kernel)
  have hlog : significand.log2 + (10 ^ dropped).log2 < 1020 := by
    refine (Nat.pow_lt_pow_iff_right Nat.one_lt_two).1 ?_
    calc 2 ^ (significand.log2 + (10 ^ dropped).log2)
        = 2 ^ significand.log2 * 2 ^ (10 ^ dropped).log2 := Nat.pow_add ..
      _ ≤ significand * 10 ^ dropped :=
        Nat.mul_le_mul (Nat.log2_self_le hsignificand) (Nat.log2_self_le hpower)
      _ < 2 ^ 1020 := h
  have hproduct := mulRank_le (rankValue_nearestRank_one_le significand)
    (rankValue_nearestRank_one_le (10 ^ dropped))
  rw [scaled_of_le hdropped, if_pos]
  · exact Option.some_ne_none _
  · refine Nat.lt_of_le_of_lt hproduct ?_
    rw [infinityRank_eq]
    exact Nat.mul_lt_mul_of_pos_right (by omega) (Nat.two_pow_pos 52)

/-- A product of at least `2 ^ 1025` overflows when its factors are rounded. -/
theorem scaled_eq_none {significand dropped : Nat} (hlow : 2 ^ 60 ≤ significand)
    (hhigh : significand ≤ largestWord) (h : 2 ^ 1025 ≤ significand * 10 ^ dropped) :
    scaled significand dropped = none := by
  have hsignificand : significand ≠ 0 := by omega
  rcases Nat.lt_or_ge 308 dropped with hdropped | hdropped
  · exact scaled_of_lt (by omega) hdropped
  have hlog : 60 ≤ significand.log2 := (Nat.le_log2 hsignificand).2 hlow
  have hlog' : significand.log2 < 64 :=
    (Nat.log2_lt hsignificand).2 (Nat.lt_of_le_of_lt hhigh (by decide))
  have hpower : 2 ^ (1024 - significand.log2) ≤ 10 ^ dropped := by
    by_contra hlt
    have hproduct : significand * 10 ^ dropped < 2 ^ 1025 := by
      calc significand * 10 ^ dropped
          < 2 ^ (significand.log2 + 1) * 2 ^ (1024 - significand.log2) :=
            Nat.mul_lt_mul'' Nat.lt_log2_self (Nat.not_le.1 hlt)
        _ = 2 ^ 1025 := by rw [← Nat.pow_add]; congr 1; omega
    omega
  have hrank := le_mulRank
    (le_rankValue_nearestRank_one (Nat.log2_self_le hsignificand) (by omega))
    (le_rankValue_nearestRank_one hpower (by omega)) (by omega)
  rw [scaled_of_le hdropped, if_neg]
  refine Nat.not_lt.2 (Nat.le_trans (Nat.le_of_eq ?_) hrank)
  rw [infinityRank_eq]
  congr 1
  omega

theorem toNat_lt (h : l.WellFormed) : Digits.toNat l.whole < 10 ^ l.whole.length := by
  obtain ⟨-, hhigh⟩ := ofDigitChars_bounds (n := 0) h.whole.2
  rwa [Nat.zero_add, Nat.one_mul] at hhigh

/-- The first digit is not a zero if there are more. -/
theorem le_toNat (h : l.WellFormed) (hlength : 2 ≤ l.whole.length) {k : Nat}
    (hk : k < l.whole.length) : 10 ^ k ≤ Digits.toNat l.whole := by
  obtain ⟨d, ds, hwhole⟩ := List.exists_cons_of_ne_nil h.whole.1
  obtain ⟨hd, hds⟩ := List.forall_mem_cons.1 (hwhole ▸ h.whole.2)
  have hpos : 1 ≤ d.toNat - '0'.toNat := by
    by_contra hzero
    have hrange := Token.isDigit_iff.1 hd
    have hfirst : d = '0' := Char.toNat_inj.1 (by rw [show '0'.toNat = 48 from rfl] at *; omega)
    rw [hwhole, h.no_zero ds (hfirst ▸ hwhole)] at hlength
    exact absurd hlength (Nat.not_le.2 Nat.one_lt_two)
  obtain ⟨hlow, -⟩ := ofDigitChars_bounds (n := d.toNat - '0'.toNat) hds
  rw [hwhole] at hk ⊢
  rw [Digits.toNat, Nat.ofDigitChars_cons, Nat.mul_zero, Nat.zero_add]
  calc 10 ^ k ≤ 10 ^ ds.length := Nat.pow_le_pow_right (by decide) (Nat.le_of_lt_succ hk)
    _ ≤ (d.toNat - '0'.toNat) * 10 ^ ds.length := Nat.le_mul_of_pos_left _ hpos
    _ ≤ _ := hlow

/-- A literal of at most 307 digits stands for a number. -/
theorem taken?_ne_none (h : l.IsInteger) (hlength : l.whole.length ≤ 307) : l.taken? ≠ none := by
  rw [Ne, taken?_eq_none_iff]
  rcases Nat.lt_or_ge largestWord (Digits.toNat l.whole) with hlong | hword
  swap
  · rw [value?_of_le h hword]
    exact Option.some_ne_none _
  have hlarge := le_significand h.whole.2 (dropped_ne_zero h.whole.2 hlong)
  obtain ⟨hlow, -⟩ := accumulate_bounds (n := 0) h.whole.2
  rw [value?_of_lt h hlong, Option.map_eq_none_iff]
  refine scaled_ne_none (by omega) ?_
  calc _ ≤ Digits.toNat l.whole := hlow
    _ < 10 ^ l.whole.length := toNat_lt h.toWellFormed
    _ ≤ 10 ^ 307 := Nat.pow_le_pow_right (by decide) hlength
    _ ≤ 2 ^ 1020 := by decide +kernel

/-- A literal of at least 310 digits stands for no number. -/
theorem taken?_eq_none (h : l.IsInteger) (hlength : 310 ≤ l.whole.length) : l.taken? = none := by
  have hle : 10 ^ 309 ≤ Digits.toNat l.whole := le_toNat h.toWellFormed (by omega) (by omega)
  have hlong : largestWord < Digits.toNat l.whole := Nat.lt_of_lt_of_le (by decide +kernel) hle
  have hlarge := le_significand h.whole.2 (dropped_ne_zero h.whole.2 hlong)
  obtain ⟨-, hhigh⟩ := accumulate_bounds (n := 0) h.whole.2
  rw [taken?_eq_none_iff, value?_of_lt h hlong, Option.map_eq_none_iff]
  refine scaled_eq_none hlarge (accumulate_le (Nat.zero_le _)) ?_
  -- one more in the last place of the significand is less than twice as much
  have hdouble : 2 * 2 ^ 1025 ≤ 2 * ((accumulate 0 l.whole).1 * 10 ^ (accumulate 0 l.whole).2) := by
    calc 2 * 2 ^ 1025 ≤ 10 ^ 309 := by decide +kernel
      _ ≤ Digits.toNat l.whole := hle
      _ ≤ ((accumulate 0 l.whole).1 + 1) * 10 ^ (accumulate 0 l.whole).2 := hhigh.le
      _ ≤ 2 * (accumulate 0 l.whole).1 * 10 ^ (accumulate 0 l.whole).2 :=
        Nat.mul_le_mul_right _ (by omega)
      _ = _ := Nat.mul_assoc ..
  exact Nat.le_of_mul_le_mul_left hdouble Nat.two_pos

end PropertyGraph.Json.NumberLiteral
