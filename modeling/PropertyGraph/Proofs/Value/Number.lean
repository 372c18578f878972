import PropertyGraph.Proofs.Double.Exact
import PropertyGraph.Proofs.Value.Comparison

/-! Numbers by their exact values. Two integers, or two finite floats, compare as the numbers
they are. An integer is compared with a float through the double nearest to it, so the two
compare as numbers unless the float is that double and another number; up to 53 bits no
integer is mistaken. -/

namespace PropertyGraph.Value

/-- The number that a value is, if it is an integer or a finite float. -/
def rational? : Value → Option ℚ
  | .integer n => some n.toInt
  | .float x => x.rational?
  | _ => none

/-- One of the values is an integer, and the other the nearest float but not that integer. -/
def Blurred : Value → Value → Prop
  | .integer n, .float x | .float x, .integer n => x.Blurs n.toInt
  | _, _ => False

variable {a b : Value} {q r : ℚ}

theorem natAbs_toInt_lt (n : Int64) : n.toInt.natAbs < 2 ^ 64 := by
  have hlow := n.le_toInt
  have hhigh := n.toInt_lt
  omega

theorem looseCompare_eq_some_swap_iff {o : Ordering} :
    a.looseCompare b = some o.swap ↔ b.looseCompare a = some o := by
  rw [looseCompare_swap b a]
  cases b.looseCompare a with
  | none => simp
  | some o' => cases o <;> cases o' <;> simp

/-- The order of two numbers is that of their exact values, unless one stands for the other. -/
theorem looseCompare_eq_iff (ha : a.rational? = some q) (hb : b.rational? = some r) :
    a.looseCompare b = some (compare q r) ↔ ¬ a.Blurred b := by
  cases a with
  | integer m =>
    cases ha
    cases b with
    | integer n =>
      cases hb
      have hcompare : compare (m.toInt : ℚ) n.toInt = compare m.toInt n.toInt := by
        rw [← cmp_eq_compare, ← cmp_eq_compare, Int.cast_strictMono.cmp_map_eq]
      exact iff_of_true (congrArg some hcompare.symm) not_false
    | float y => exact Double.compare?_ofInt_eq_iff (natAbs_toInt_lt m) hb
    | text _ | boolean _ | array _ => cases hb
  | float x =>
    cases b with
    | integer n =>
      cases hb
      have hswap : compare q (n.toInt : ℚ) = (compare (n.toInt : ℚ) q).swap :=
        Std.OrientedCmp.eq_swap
      rw [hswap, looseCompare_eq_some_swap_iff]
      exact Double.compare?_ofInt_eq_iff (natAbs_toInt_lt n) ha
    | float y => exact iff_of_true (Double.compare?_eq_of_rational? ha hb) not_false
    | text _ | boolean _ | array _ => cases hb
  | text _ | boolean _ | array _ => cases ha

/-- An integer of up to 53 bits stands for no float but itself. -/
theorem not_blurred (h : ∀ n, a = .integer n ∨ b = .integer n → n.toInt.natAbs ≤ 2 ^ 53) :
    ¬ a.Blurred b := by
  cases a with
  | integer m =>
    cases b with
    | float y => exact Double.not_blurs (h m (.inl rfl)) y
    | text _ | integer _ | boolean _ | array _ => exact not_false
  | float x =>
    cases b with
    | integer n => exact Double.not_blurs (h n (.inr rfl)) x
    | text _ | float _ | boolean _ | array _ => exact not_false
  | text _ | boolean _ | array _ => exact not_false

/-- Two numbers compare as the numbers they are exactly if neither stands for the other, as
none does where the integers have up to 53 bits. -/
theorem comparesExactly_iff (ha : a.rational? = some q) (hb : b.rational? = some r) :
    ((a.looseEq b = some (decide (q = r)) ∧ a.looseCompare b = some (compare q r)) ↔
      ¬ a.Blurred b) ∧
    ((∀ n, a = .integer n ∨ b = .integer n → n.toInt.natAbs ≤ 2 ^ 53) → ¬ a.Blurred b) := by
  refine ⟨?_, not_blurred⟩
  rw [← looseCompare_eq_iff ha hb, and_iff_right_iff_imp]
  intro hcompare
  have hequal : (compare q r == .eq) = decide (q = r) := by
    rw [Bool.eq_iff_iff, beq_iff_eq, decide_eq_true_eq, compare_eq_iff_eq]
  rw [looseEq_of_looseCompare hcompare, hequal]

/-- The float `2 ^ 53`. -/
def floatTwoPow53 : Value := .float (.ofRank false (1076 * 2 ^ 52))

theorem comparesExactly_three :
    ((Value.integer 3).rational? = some 3 ∧ floatTwoPow53.rational? = some (2 ^ 53) ∧
      ¬ (Value.integer 3).Blurred floatTwoPow53) ∧
    (Value.integer 3).looseEq floatTwoPow53 = some (decide ((3 : ℚ) = 2 ^ 53)) ∧
      (Value.integer 3).looseCompare floatTwoPow53 = some (compare (3 : ℚ) (2 ^ 53)) := by
  have hthree : (Value.integer 3).rational? = some 3 := by decide +kernel
  have hfloat : floatTwoPow53.rational? = some (2 ^ 53) := by decide +kernel
  obtain ⟨hexact, hsmall⟩ := comparesExactly_iff hthree hfloat
  have hclear : ¬ (Value.integer 3).Blurred floatTwoPow53 := by
    refine hsmall ?_
    rintro n (⟨⟨⟩⟩ | ⟨⟨⟩⟩)
    decide
  exact ⟨⟨hthree, hfloat, hclear⟩, hexact.2 hclear⟩

/-- The integer `2 ^ 53 + 1` is no float. It equals the float `2 ^ 53`, which equals the integer
`2 ^ 53`, but the integers differ. -/
theorem blurred_equality_not_transitive :
    (Value.integer (2 ^ 53 + 1)).rational? ≠ floatTwoPow53.rational? ∧
    (Value.integer (2 ^ 53 + 1)).looseEq floatTwoPow53 = some true ∧
    (Value.integer (2 ^ 53 + 1)).looseCompare floatTwoPow53 = some .eq ∧
    floatTwoPow53.looseEq (.integer (2 ^ 53)) = some true ∧
    (Value.integer (2 ^ 53 + 1)).looseEq (.integer (2 ^ 53)) = some false ∧
    (Value.integer (2 ^ 53 + 1)).looseCompare (.integer (2 ^ 53)) = some .gt := by
  decide +kernel

end PropertyGraph.Value
