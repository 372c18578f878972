import Mathlib.Algebra.Group.Int.Defs
import Mathlib.Algebra.Group.Nat.Defs
import PropertyGraph.Json.Layout
import PropertyGraph.Json.Number
import PropertyGraph.Proofs.Text.Digits

/-! Number literals in JSON texts. A literal is told apart from what follows as long as that
could be no part of it. The literal of an integer of 64 bits, signed or not, stands for that
integer, and a literal with a fraction or an exponent never stands for an integer. -/

namespace PropertyGraph.Json.NumberLiteral

open Digits

/-- The literal of an integer. -/
def ofInt (n : Int) : NumberLiteral := ⟨decide (n < 0), Digits.ofNat n.natAbs, [], none⟩

/-- No number goes on into the text. -/
def EndsNumber (s : List Char) : Prop :=
  ∀ c ∈ s.head?, c.isDigit = false ∧ c ≠ '.' ∧ c ≠ 'e' ∧ c ≠ 'E'

/-! ### Characters -/

def fractionChars : List Char → List Char
  | [] => []
  | d :: ds => '.' :: d :: ds

theorem fractionChars_of_ne_nil {ds : List Char} (h : ds ≠ []) :
    fractionChars ds = '.' :: ds := by
  cases ds with
  | nil => exact absurd rfl h
  | cons d ds => rfl

def exponentChars : Option (Bool × List Char) → List Char
  | none => []
  | some (negative, digits) => 'e' :: (if negative then '-' else '+') :: digits

/-- The characters of a literal; an exponent has always a sign. -/
def chars (l : NumberLiteral) : List Char :=
  (if l.negative then ['-'] else []) ++
    (l.whole ++ (fractionChars l.fraction ++ exponentChars l.exponent))

structure WellFormed (l : NumberLiteral) : Prop where
  whole : IsNumeral l.whole
  no_zero : ∀ ds, l.whole = '0' :: ds → ds = []
  fraction : ∀ c ∈ l.fraction, c.isDigit = true
  exponent : ∀ e ∈ l.exponent, IsNumeral e.2

theorem wellFormed_ofInt (n : Int) : (ofInt n).WellFormed where
  whole := isNumeral_ofNat n.natAbs
  no_zero _ := Digits.eq_nil_of_ofNat_eq_zero_cons
  fraction := nofun
  exponent := nofun

theorem chars_ofInt (n : Int) : (ofInt n).chars = Digits.ofInt n := by
  rw [chars, ofInt, Digits.ofInt]
  by_cases hn : n < 0 <;> simp [hn, fractionChars, exponentChars]

/-! ### Reading -/

variable {rest : List Char}

theorem readWhole_append {ds : List Char} (h : IsNumeral ds)
    (hzero : ∀ ds', ds = '0' :: ds' → ds' = []) (hrest : ∀ c ∈ rest.head?, c.isDigit = false) :
    readWhole (ds ++ rest) = some (ds, rest) := by
  rw [readWhole, Digits.split?_append h hrest]
  simp only [Option.bind_eq_bind, Option.bind_some]
  split
  · cases hzero _ rfl
  · rfl

theorem readExponent_append {e : Option (Bool × List Char)} (h : ∀ x ∈ e, IsNumeral x.2)
    (hrest : EndsNumber rest) : readExponent (exponentChars e ++ rest) = some (e, rest) := by
  cases e with
  | none =>
    rw [exponentChars, List.nil_append]
    unfold readExponent
    split
    · exact absurd rfl (hrest 'e' rfl).2.2.1
    · exact absurd rfl (hrest 'E' rfl).2.2.2
    · rfl
  | some x =>
    obtain ⟨negative, digits⟩ := x
    have hdigits := Digits.split?_append (h _ rfl) fun c hc => (hrest c hc).1
    cases negative <;> simp [exponentChars, readExponent, hdigits]

theorem readFraction_append {ds tail : List Char} (h : ∀ c ∈ ds, c.isDigit = true)
    (htail : ∀ c ∈ tail.head?, c.isDigit = false ∧ c ≠ '.') :
    readFraction (fractionChars ds ++ tail) = some (ds, tail) := by
  cases ds with
  | nil =>
    rw [fractionChars, List.nil_append]
    unfold readFraction
    split
    · exact absurd rfl (htail '.' rfl).2
    · rfl
  | cons d ds =>
    exact Digits.split?_append ⟨List.cons_ne_nil d ds, h⟩ fun c hc => (htail c hc).1

theorem head?_exponentChars_append (e : Option (Bool × List Char)) (hrest : EndsNumber rest) :
    ∀ c ∈ (exponentChars e ++ rest).head?, c.isDigit = false ∧ c ≠ '.' := by
  intro c hc
  cases e with
  | none =>
    obtain ⟨hdigit, hpoint, -⟩ := hrest c hc
    exact ⟨hdigit, hpoint⟩
  | some x =>
    cases hc
    decide

/-- A literal is read back from its characters. -/
theorem read_chars_append {l : NumberLiteral} (h : l.WellFormed) (hrest : EndsNumber rest) :
    read (l.chars ++ rest) = some (l, rest) := by
  obtain ⟨negative, whole, fraction, exponent⟩ := l
  have htail := head?_exponentChars_append exponent hrest
  have hexponent := readExponent_append h.exponent hrest
  have hfraction := readFraction_append h.fraction htail
  have hwhole : readWhole (whole ++ (fractionChars fraction ++ (exponentChars exponent ++ rest))) =
      some (whole, fractionChars fraction ++ (exponentChars exponent ++ rest)) := by
    refine readWhole_append h.whole h.no_zero fun c hc => ?_
    cases fraction with
    | nil => exact (htail c hc).1
    | cons d ds =>
      cases hc
      decide
  cases negative with
  | true =>
    simp only [chars, if_true, List.append_assoc, List.cons_append, List.nil_append, read]
    simp [hwhole, hfraction, hexponent]
  | false =>
    simp only [chars, Bool.false_eq_true, if_false, List.append_assoc, List.nil_append]
    rw [read]
    · simp [hwhole, hfraction, hexponent]
    · intro s hs
      cases whole with
      | nil => exact absurd rfl h.whole.1
      | cons d ds =>
        cases hs
        exact absurd (h.whole.2 '-' List.mem_cons_self) (by decide)

theorem read_ofInt_append (n : Int) (h : EndsNumber rest) :
    read (Digits.ofInt n ++ rest) = some (ofInt n, rest) := by
  rw [← chars_ofInt, read_chars_append (wellFormed_ofInt n) h]

/-! ### Value -/

/-- Appended digits do not make a significand smaller. -/
theorem le_ofDigitChars (ds : List Char) (n : Nat) : n ≤ Nat.ofDigitChars 10 ds n := by
  induction ds generalizing n with
  | nil => exact Nat.le_refl n
  | cons d ds ih =>
    rw [Nat.ofDigitChars_cons]
    have hle := ih (10 * n + (d.toNat - '0'.toNat))
    omega

theorem accumulate_eq {ds : List Char} {n : Nat} (h : Nat.ofDigitChars 10 ds n ≤ largestWord) :
    accumulate n ds = (Nat.ofDigitChars 10 ds n, 0) := by
  induction ds generalizing n with
  | nil => rfl
  | cons d ds ih =>
    rw [Nat.ofDigitChars_cons, Nat.mul_comm] at h ⊢
    have hfits : ¬ largestWord < n * 10 + (d.toNat - '0'.toNat) :=
      Nat.not_lt.2 (Nat.le_trans (le_ofDigitChars ds _) h)
    rw [accumulate, if_neg hfits, ih h]

theorem integer_natAbs {n : Int} (hmin : -2 ^ 63 ≤ n) :
    integer (decide (n < 0)) n.natAbs = .integer n := by
  by_cases hn : n < 0
  · have hexact : ¬ (n.natAbs = 0 ∨ 0x8000000000000000 < n.natAbs) := by omega
    have habs : -(n.natAbs : Int) = n := by omega
    simp only [integer, decide_eq_true hn, if_true, if_neg hexact, habs]
  · have habs : (n.natAbs : Int) = n := by omega
    simp only [integer, decide_eq_false hn, Bool.false_eq_true, if_false, habs]

/-- The literal of an integer of 64 bits stands for that integer. -/
theorem value?_ofInt {n : Int} (hmin : -2 ^ 63 ≤ n) (hmax : n < 2 ^ 64) :
    (ofInt n).value? = some (.integer n) := by
  have hword : Nat.ofDigitChars 10 (Digits.ofNat n.natAbs) 0 = n.natAbs :=
    Digits.toNat_ofNat n.natAbs
  have hfits : Nat.ofDigitChars 10 (Digits.ofNat n.natAbs) 0 ≤ largestWord := by
    rw [hword, largestWord]
    omega
  rw [value?, ofInt, accumulate_eq hfits, hword]
  simp only [if_true, integer_natAbs hmin]

/-- A literal with a fraction or an exponent is a double, if it is a number at all. -/
theorem value?_eq_float {l : NumberLiteral} (h : l.fraction ≠ [] ∨ l.exponent ≠ none)
    {n : JsonNumber} (hn : l.value? = some n) : ∃ x, n = .float x := by
  have hfloat : ∀ negative significand shift exponent,
      float? negative significand shift exponent = some n → ∃ x, n = .float x := by
    intro negative significand shift exponent hfloat
    cases exponent with
    | none =>
      obtain ⟨rank, -, rfl⟩ := Option.map_eq_some_iff.1 hfloat
      exact ⟨_, rfl⟩
    | some e =>
      simp only [float?] at hfloat
      split at hfloat
      · split at hfloat
        · cases hfloat
          exact ⟨_, rfl⟩
        · cases hfloat
      · obtain ⟨rank, -, rfl⟩ := Option.map_eq_some_iff.1 hfloat
        exact ⟨_, rfl⟩
  simp only [value?] at hn
  split at hn
  · next hfraction hexponent =>
    rcases h with h | h
    · exact absurd hfraction h
    · exact absurd hexponent h
  · exact hfloat _ _ _ _ hn

end PropertyGraph.Json.NumberLiteral
