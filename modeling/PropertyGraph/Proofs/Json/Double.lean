import PropertyGraph.Proofs.Json.Number

/-! Doubles in JSON texts. The numeral of a finite double is a number literal with a fraction
or an exponent: no zero stands in front of its digits, since the shortest decimal of a double
other than zero is not zero. The literal may stand for another double. -/

namespace PropertyGraph

namespace Double

/-! ### Shortest decimals -/

theorem significand_pos {rank : Nat} (h : rank ≠ 0) : 0 < significand rank := by
  rw [significand]
  split
  · omega
  · exact Nat.add_pos_left (by decide : 0 < binade) _

/-- Zero does not round to a double other than zero. -/
theorem interval_low_pos {rank : Nat} (h : rank ≠ 0) : 0 < (interval rank).low := by
  have hm := significand_pos h
  simp only [interval]
  refine Nat.mul_pos ?_ ?_
  · split <;> omega
  · cases exponent rank with
    | ofNat e =>
      have hpos : 0 < 1 <<< e := by
        rw [Nat.one_shiftLeft]
        exact Nat.two_pow_pos e
      exact hpos
    | negSucc e => exact Nat.one_pos

namespace Interval

variable {i : Interval} {s t d : Nat}

theorem ne_zero_of_holds (hlow : 0 < i.low) (ht : 0 < t) (h : i.holds s t d = true) : d ≠ 0 := by
  rintro rfl
  have hpos : 0 < i.low * t := Nat.mul_pos hlow ht
  simp only [holds, Nat.zero_mul] at h
  split at h
  · simp only [Bool.and_eq_true, decide_eq_true_eq] at h
    omega
  · simp only [Bool.and_eq_true, decide_eq_true_eq] at h
    omega

theorem ne_zero_of_onGrid? {tie : Tie} (hlow : 0 < i.low) (ht : 0 < t)
    (h : i.onGrid? tie s t = some d) : d ≠ 0 := by
  simp only [onGrid?] at h
  split at h
  · next hd _ =>
    cases h
    exact ne_zero_of_holds hlow ht hd
  · cases h
    exact Nat.succ_ne_zero _
  · cases h
  · next hd _ =>
    have hfloor := ne_zero_of_holds hlow ht hd
    split at h
    · cases h
      exact hfloor
    split at h
    · cases h
      exact Nat.succ_ne_zero _
    cases tie with
    | up =>
      cases h
      exact Nat.succ_ne_zero _
    | even =>
      simp only [Option.some.injEq] at h
      subst h
      split
      · exact hfloor
      · exact Nat.succ_ne_zero _

end Interval

theorem gridScale_snd_pos (e : Int) : 0 < (gridScale e).2 := by
  cases e with
  | ofNat e => exact Nat.one_pos
  | negSucc e => exact Nat.pow_pos (by decide)

/-- Dropping zeros at the end leaves a digit. -/
theorem digits_strip_ne_zero {d : Decimal} (h : d.digits ≠ 0) (fuel : Nat) :
    (d.strip fuel).digits ≠ 0 := by
  induction fuel generalizing d with
  | zero => exact h
  | succ fuel ih =>
    rw [Decimal.strip]
    split
    · refine ih ?_
      simp only
      omega
    · exact h

/-- The shortest decimal of a double other than zero has a digit other than zero, or it is the
zero that stands for a failed search. -/
theorem digits_shortest {tie : Tie} {rank : Nat} (h : rank ≠ 0) :
    (shortest tie rank).digits ≠ 0 ∨ shortest tie rank = ⟨0, 0⟩ := by
  simp only [shortest]
  generalize hfound : List.findSome? _ _ = found
  cases found with
  | none => exact .inr rfl
  | some d =>
    obtain ⟨n, -, hn⟩ := List.exists_of_findSome?_eq_some hfound
    obtain ⟨digits, hdigits, rfl⟩ := Option.map_eq_some_iff.1 hn
    refine .inl (digits_strip_ne_zero ?_ 17)
    exact Interval.ne_zero_of_onGrid? (interval_low_pos h) (gridScale_snd_pos _) hdigits

end Double

namespace Json.NumberLiteral

open Digits

/-! ### Numerals -/

/-- The literal has a part that no integer has. -/
def IsDecimal (l : NumberLiteral) : Prop := l.fraction ≠ [] ∨ l.exponent ≠ none

/-- The characters are those of a literal that is no integer. -/
def Spells (negative : Bool) (cs : List Char) : Prop :=
  ∃ l : NumberLiteral, l.WellFormed ∧ l.IsDecimal ∧
    l.chars = (if negative then ['-'] else []) ++ cs

variable {digits : List Char}

theorem isDigit_replicate_zero (n : Nat) : ∀ c ∈ List.replicate n '0', c.isDigit = true := by
  intro c hc
  rw [List.eq_of_mem_replicate hc]
  rfl

/-- The digits before the point, filled up with zeros. -/
theorem isNumeral_filled (hdigits : IsNumeral digits) {k : Nat} (hk : k ≠ 0) :
    IsNumeral (digits.take k ++ List.replicate (k - (digits.take k).length) '0') := by
  obtain ⟨d, ds, rfl⟩ := List.exists_cons_of_ne_nil hdigits.1
  obtain ⟨k, rfl⟩ := Nat.exists_eq_succ_of_ne_zero hk
  refine ⟨by simp, List.forall_mem_append.2 ⟨fun c hc => ?_, isDigit_replicate_zero _⟩⟩
  exact hdigits.2 c (List.mem_of_mem_take hc)

theorem no_zero_filled {k : Nat} (hk : k ≠ 0)
    (hzero : ∀ ds, digits = '0' :: ds → ds = [] ∧ k ≤ 1) (hne : digits ≠ []) {ds : List Char}
    (h : digits.take k ++ List.replicate (k - (digits.take k).length) '0' = '0' :: ds) :
    ds = [] := by
  obtain ⟨d, rest, rfl⟩ := List.exists_cons_of_ne_nil hne
  obtain ⟨k, rfl⟩ := Nat.exists_eq_succ_of_ne_zero hk
  rw [List.take_succ_cons, List.cons_append] at h
  obtain ⟨rfl, hds⟩ := List.cons.inj h
  obtain ⟨rfl, hle⟩ := hzero rest rfl
  obtain rfl : k = 0 := by omega
  simpa using hds.symm

/-- A positional numeral is a literal if no zero stands in front of other digits. -/
theorem spells_positionalChars (negative : Bool) {point : Int} (hdigits : IsNumeral digits)
    (hzero : ∀ ds, digits = '0' :: ds → ds = [] ∧ point ≤ 1) :
    Spells negative (Double.positionalChars digits point true) := by
  have hexponent : ∀ e ∈ (none : Option (Bool × List Char)), IsNumeral e.2 := fun e he =>
    absurd he (Option.not_mem_none e)
  rw [Double.positionalChars]
  split
  · have hne : List.replicate point.natAbs '0' ++ digits ≠ [] :=
      List.append_ne_nil_of_right_ne_nil _ hdigits.1
    refine ⟨⟨negative, ['0'], List.replicate point.natAbs '0' ++ digits, none⟩, ?_, .inl hne, ?_⟩
    · refine ⟨isNumeral_singleton rfl, by simp, ?_, hexponent⟩
      exact List.forall_mem_append.2 ⟨isDigit_replicate_zero _, hdigits.2⟩
    · simp [chars, fractionChars_of_ne_nil hne, exponentChars]
  · next hpoint =>
    have hk : point.toNat ≠ 0 := by omega
    have hwhole := isNumeral_filled hdigits hk
    have hfront : ∀ ds, _ = '0' :: ds → ds = [] := fun ds => no_zero_filled hk
      (fun ds h => ⟨(hzero ds h).1, by have := (hzero ds h).2; omega⟩) hdigits.1
    cases hfraction : digits.drop point.toNat with
    | nil =>
      exact ⟨⟨negative, _, ['0'], none⟩,
        ⟨hwhole, hfront, (isNumeral_singleton rfl).2, hexponent⟩,
        .inl (List.cons_ne_nil _ _), by simp [chars, fractionChars, exponentChars]⟩
    | cons d ds =>
      have hds : ∀ c ∈ d :: ds, c.isDigit = true := fun c hc =>
        hdigits.2 c (List.mem_of_mem_drop (hfraction ▸ hc))
      exact ⟨⟨negative, _, d :: ds, none⟩, ⟨hwhole, hfront, hds, hexponent⟩,
        .inl (List.cons_ne_nil _ _), by simp [chars, fractionChars, exponentChars]⟩

theorem spells_scientificChars (negative : Bool) (e : Int) (hdigits : IsNumeral digits) :
    Spells negative (Double.scientificChars digits e) := by
  obtain ⟨d, ds, rfl⟩ := List.exists_cons_of_ne_nil hdigits.1
  obtain ⟨hd, hds⟩ := List.forall_mem_cons.1 hdigits.2
  refine ⟨⟨negative, [d], ds, some (decide (e < 0), Digits.ofNat e.natAbs)⟩,
    ⟨isNumeral_singleton hd, by simp, hds, ?_⟩, .inr nofun, ?_⟩
  · rintro _ ⟨⟩
    exact isNumeral_ofNat _
  · cases ds <;> simp [chars, fractionChars, exponentChars, Double.scientificChars]

theorem spells_ite {negative : Bool} {c : Prop} [Decidable c] {cs ds : List Char}
    (hcs : Spells negative cs) (hds : Spells negative ds) :
    Spells negative (if c then cs else ds) := by
  split
  · exact hcs
  · exact hds

theorem spells_magnitude (negative : Bool) (rank : Nat) :
    Spells negative (Double.documentFormat.magnitude rank) := by
  rw [Double.NumeralFormat.magnitude]
  split
  · exact spells_positionalChars negative (isNumeral_singleton rfl) (by simp)
  · next hrank =>
    have hdigits := isNumeral_ofNat (Double.shortest .even rank).digits
    refine spells_ite (spells_positionalChars negative hdigits ?_)
      (spells_scientificChars negative _ hdigits)
    intro ds (hds : Digits.ofNat (Double.shortest .even rank).digits = '0' :: ds)
    have hnil := Digits.eq_nil_of_ofNat_eq_zero_cons hds
    subst hnil
    -- the decimal is zero, so it is the one of the failed search
    have hzero : (Double.shortest .even rank).digits = 0 := by
      rw [← Digits.toNat_ofNat (Double.shortest .even rank).digits, hds]
      rfl
    have hfailed := (Double.digits_shortest hrank).resolve_left (not_not.2 hzero)
    simp only [Double.documentFormat, hfailed]
    decide

/-- The literal that the numeral of a finite double is. -/
theorem exists_literal {x : Double} (hx : x.isFinite = true) : ∃ l : NumberLiteral,
    l.WellFormed ∧ l.IsDecimal ∧ l.chars = numberChars (.float x) := by
  cases x with
  | nan => cases hx
  | number negative rank =>
    obtain ⟨l, hl, hdecimal, hchars⟩ := spells_magnitude negative rank.val
    have hfinite : rank.val < infinityRank := of_decide_eq_true hx
    refine ⟨l, hl, hdecimal, hchars.trans ?_⟩
    simp only [numberChars, Double.NumeralFormat.write, if_pos hfinite, String.toList_append,
      String.toList_ofList]
    cases negative <;> rfl

/-- The literal of a double is what its numeral is read as. -/
def ofDouble (x : Double) : NumberLiteral :=
  match read (numberChars (.float x)) with
  | some (l, _) => l
  | none => ⟨false, [], [], none⟩

theorem ofDouble_spec {x : Double} (hx : x.isFinite = true) :
    (ofDouble x).WellFormed ∧ (ofDouble x).IsDecimal ∧
      (ofDouble x).chars = numberChars (.float x) := by
  obtain ⟨l, hl, hdecimal, hchars⟩ := exists_literal hx
  have hend : EndsNumber [] := nofun
  have hread := read_chars_append hl hend
  rw [List.append_nil, hchars] at hread
  rw [ofDouble, hread]
  exact ⟨hl, hdecimal, hchars⟩

theorem numberChars_eq_cons {x : Double} (hx : x.isFinite = true) :
    ∃ c cs, numberChars (.float x) = c :: cs ∧ (c = '-' ∨ c.isDigit = true) := by
  obtain ⟨⟨negative, whole, fraction, exponent⟩, hl, -, hchars⟩ := exists_literal hx
  obtain ⟨d, ds, rfl⟩ := List.exists_cons_of_ne_nil hl.whole.1
  rw [← hchars]
  cases negative with
  | true => exact ⟨_, _, rfl, .inl rfl⟩
  | false => exact ⟨_, _, rfl, .inr (hl.whole.2 d List.mem_cons_self)⟩

theorem read_numberChars_append {x : Double} (hx : x.isFinite = true) {rest : List Char}
    (hrest : EndsNumber rest) :
    read (numberChars (.float x) ++ rest) = some (ofDouble x, rest) := by
  obtain ⟨hl, -, hchars⟩ := ofDouble_spec hx
  rw [← hchars, read_chars_append hl hrest]

end Json.NumberLiteral

end PropertyGraph
