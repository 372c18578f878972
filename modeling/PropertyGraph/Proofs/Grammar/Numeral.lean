import PropertyGraph.Proofs.Grammar.Token

/-! Numerals. The reader goes from the digits before the point to the exponent, and takes what
it finds for a float or an integer at the end; the grammar tries a float with a point, a float
without and an integer in turn, each from the start. What a float is worth is read once more
from its text. -/

namespace PropertyGraph.Grammar

open Blank Token Digits Draft

variable {s t rest whole behind fraction fs es : List Char} {e : Int} {c : Char}

/-! ### Parts of a numeral -/

theorem toUpper_eq_E_iff : c.toUpper = 'E' ↔ c = 'e' ∨ c = 'E' := by
  constructor
  · intro h
    by_cases hlower : c.isLower = true
    · have hbounds := isLower_iff.1 hlower
      have hupper : c.toUpper = _ := dif_pos ((Bool.and_eq_true_iff.1 hlower).imp
        of_decide_eq_true of_decide_eq_true)
      have hval := congrArg (fun c => c.val.toNat) (hupper.symm.trans h)
      simp only [UInt32.toNat_add] at hval
      rw [show ('A'.val - 'a'.val).toNat = 2 ^ 32 - 32 from rfl,
        show 'E'.val.toNat = 69 from rfl] at hval
      have hnat : c.toNat = 'e'.toNat := by
        simp only [Char.toNat, show 'e'.val.toNat = 101 from rfl] at hbounds ⊢
        omega
      exact .inl (Char.toNat_inj.1 hnat)
    · exact .inr (toUpper_of_not_isLower hlower ▸ h)
  · rintro (rfl | rfl) <;> rfl

theorem afterExponentMark?_eq (s : List Char) : afterExponentMark? s = afterFolded? ['E'] s := by
  cases s with
  | nil => rfl
  | cons c s =>
    rw [afterFolded?, afterFolded?]
    by_cases hc : c.toUpper = 'E'
    · rw [if_pos hc]
      rcases toUpper_eq_E_iff.1 hc with rfl | rfl <;> rfl
    · rw [if_neg hc]
      unfold afterExponentMark?
      split
      · next heq =>
        cases heq
        exact absurd rfl hc
      · next heq =>
        cases heq
        exact absurd rfl hc
      · rfl

theorem afterExponentMark?_eq_some (h : afterExponentMark? s = some t) :
    ∃ mark, s = mark :: t ∧ (mark = 'e' ∨ mark = 'E') := by
  unfold afterExponentMark? at h
  split at h
  · cases h
    exact ⟨'e', rfl, .inl rfl⟩
  · cases h
    exact ⟨'E', rfl, .inr rfl⟩
  · cases h

theorem exponent?_eq (s : List Char) : exponent? s = (afterExponentMark? s).bind fun t =>
    (split? (readSign t).2).bind fun r =>
      some (if (readSign t).1 then -(toNat r.1 : Int) else toNat r.1, r.2) := by
  rw [exponent?, Option.bind_eq_bind]
  exact Option.bind_congr fun t _ => rfl

theorem readSign_eq (s : List Char) : s = '-' :: (readSign s).2 ∧ (readSign s).1 = true ∨
    (s = '+' :: (readSign s).2 ∨ s = (readSign s).2) ∧ (readSign s).1 = false := by
  unfold readSign
  split
  · exact .inl ⟨rfl, rfl⟩
  · exact .inr ⟨.inl rfl, rfl⟩
  · exact .inr ⟨.inr rfl, rfl⟩

/-- What an exponent is worth is read again from its text. -/
theorem exponent?_spelled (h : exponent? s = some (e, rest)) :
    ∃ es, es ≠ [] ∧ s = es ++ rest ∧ ExponentText e es := by
  simp only [exponent?_eq, Option.bind_eq_some_iff] at h
  obtain ⟨t, ht, ⟨ds, u⟩, hsplit, h⟩ := h
  obtain ⟨mark, rfl, hmark⟩ := afterExponentMark?_eq_some ht
  obtain ⟨hs, hds⟩ := split?_eq hsplit
  cases h
  rcases readSign_eq t with ⟨ht, hnegative⟩ | ⟨ht | ht, hnegative⟩
  · rw [hnegative, ht, hs]
    exact ⟨mark :: '-' :: ds, List.cons_ne_nil _ _, rfl, .negative hmark hds⟩
  · rw [hnegative, ht, hs]
    exact ⟨mark :: '+' :: ds, List.cons_ne_nil _ _, rfl, .positive hmark hds⟩
  · rw [hs] at ht
    rw [hnegative, ht]
    exact ⟨mark :: ds, List.cons_ne_nil _ _, rfl, .unsigned hmark hds⟩

theorem fraction?_spelled (h : fraction? s = some (fraction, rest)) :
    ∃ t, s = '.' :: t ∧ split? t = some (fraction, rest) := by
  unfold fraction? at h
  split at h
  · exact ⟨_, rfl, h⟩
  · cases h

theorem run_sign (s : List Char) :
    Run .atomic (.optional (.choice (.text "+") (.text "-"))) s (some ([], (readSign s).2)) := by
  unfold readSign
  split
  · next s =>
    have hplus : Run .atomic (.text "+") ('-' :: s) none := .text_missing (d := '+') rfl (by simp)
    exact .optional (.choice_right hplus (.text_self (d := '-') rfl s))
  · next s => exact .optional (.choice_left (.text_self (d := '+') rfl s))
  · next hminus hplus =>
    exact .optional (.choice_right (.text_missing rfl hplus) (.text_missing rfl hminus))

theorem run_exponent (s : List Char) :
    Run .atomic (.rule .exponent) s (bare ((exponent? s).map Prod.snd)) := by
  refine .silent rfl ?_
  have hmark := Run.folded .atomic "e" s
  rw [show "e".toList.map Char.toUpper = ['E'] from rfl, ← afterExponentMark?_eq] at hmark
  rw [exponent?_eq]
  cases h : afterExponentMark? s with
  | none =>
    rw [h] at hmark
    exact .seq_none hmark
  | some t =>
    rw [h] at hmark
    have hdigits := run_digits (m := .atomic) (by decide) (readSign t).2
    have hrun := Run.seq_bare (by decide) hmark (Run.seq_bare (by decide) (run_sign t) hdigits)
    rw [Option.bind_some]
    cases hsplit : split? (readSign t).2 with
    | none =>
      rw [hsplit] at hrun
      exact hrun
    | some r =>
      rw [hsplit] at hrun
      exact hrun

/-! ### The value of a float -/

theorem readExponent?_text (h : ExponentText e es) : readExponent? es = some e := by
  have hsplit : ∀ {ds : List Char}, IsNumeral ds → ∃ d rest, ds = d :: rest ∧ split ds = (ds, []) :=
    fun {ds} hds => by
      obtain ⟨d, rest, rfl⟩ := List.exists_cons_of_ne_nil hds.1
      have h : split (d :: rest ++ []) = (d :: rest, []) := split_append hds.2 (by simp)
      rw [List.append_nil] at h
      exact ⟨d, rest, rfl, h⟩
  cases h with
  | absent => rfl
  | @unsigned mark ds hmark hds =>
    obtain ⟨d, ds, rfl, h⟩ := hsplit hds
    have hsign : readSign (d :: ds) = (false, d :: ds) :=
      readSign_digits (by rintro _ ⟨⟩; exact hds.2 d List.mem_cons_self)
    rw [readExponent?, if_pos (toUpper_eq_E_iff.2 hmark), hsign]
    simp [h]
  | @positive mark ds hmark hds =>
    obtain ⟨d, ds, rfl, h⟩ := hsplit hds
    rw [readExponent?, if_pos (toUpper_eq_E_iff.2 hmark), readSign]
    simp [h]
  | @negative mark ds hmark hds =>
    obtain ⟨d, ds, rfl, h⟩ := hsplit hds
    rw [readExponent?, if_pos (toUpper_eq_E_iff.2 hmark), readSign]
    simp [h]

theorem readFraction_text (hfraction : FractionText fraction fs) (hes : ExponentText e es) :
    readFraction (fs ++ es) = (fraction, es) := by
  have hhead := head_exponentText hes Stops.nil
  rw [List.append_nil] at hhead
  cases hfraction with
  | absent =>
    rw [List.nil_append]
    unfold readFraction
    split
    · exact absurd rfl (hhead _ rfl).2
    · rfl
  | given hds => exact split_append hds.2 fun c hc => (hhead c hc).1

/-- What a float is worth is read again from its text. -/
theorem readFloat?_text (negative : Bool) (hwhole : IsNumeral whole)
    (hfraction : FractionText fraction fs) (hes : ExponentText e es) :
    readFloat? (signText negative ++ (whole ++ (fs ++ es))) =
      some (floatOf negative whole fraction e) := by
  have hhead : ∀ c ∈ (fs ++ es).head?, c.isDigit = false := by
    cases hfraction with
    | absent =>
      have h := head_exponentText hes Stops.nil
      rw [List.append_nil] at h
      exact fun c hc => (h c hc).1
    | given =>
      rintro _ ⟨⟩
      rfl
  have hsign : readSign (signText negative ++ (whole ++ (fs ++ es))) =
      (negative, whole ++ (fs ++ es)) := by
    cases negative with
    | true => rfl
    | false =>
      refine readSign_digits fun c hc => hwhole.2 c ?_
      obtain ⟨d, ds, rfl⟩ := List.exists_cons_of_ne_nil hwhole.1
      cases hc
      exact List.mem_cons_self
  rw [readFloat?, hsign]
  simp only [split_append hwhole.2 hhead, readFraction_text hfraction hes,
    readExponent?_text hes, hwhole.1, false_and, if_false]
  rfl

/-! ### Numerals -/

/-- The tree of a literal stands for what the literal settles to. -/
def LiteralTree (l : Literal) (ts : List Tree) : Prop :=
  ∃ t, ts = [t] ∧ Stands (literal t) l.settle [t]

/-- A float with a point, behind its sign. -/
def pointed : Expr := .all [.digits, .text ".", .digits, .optional (.rule .exponent)]

/-- A float without a point, behind its sign. -/
def unpointed : Expr := .all [.digits, .rule .exponent]

theorem run_pointed (hwhole : split? s = some (whole, behind))
    (hfraction : fraction? behind = some (fraction, rest)) :
    Run .atomic pointed s (some ([], ((exponent? rest).map Prod.snd).getD rest)) := by
  have hdigits := run_digits (m := .atomic) (by decide) s
  rw [hwhole] at hdigits
  obtain ⟨t, rfl, ht⟩ := fraction?_spelled hfraction
  have hpoint : Run .atomic (.text ".") ('.' :: t) (bare (some t)) := .text_self (d := '.') rfl t
  have hbehind := run_digits (m := .atomic) (by decide) t
  rw [ht] at hbehind
  have hexponent := Run.optional (run_exponent rest)
  have htail : Run .atomic (.optional (.rule .exponent)) rest
      (some ([], ((exponent? rest).map Prod.snd).getD rest)) := by
    cases h : exponent? rest with
    | none =>
      rw [h] at hexponent
      exact hexponent
    | some r =>
      rw [h] at hexponent
      exact hexponent
  have hfraction := Run.seq_bare (y := some _) (by decide) hbehind htail
  exact Run.seq_bare (y := some _) (by decide) hdigits
    (Run.seq_bare (y := some _) (by decide) hpoint hfraction)

theorem run_pointed_none (hwhole : split? s = some (whole, behind))
    (hfraction : fraction? behind = none) : Run .atomic pointed s none := by
  have hdigits := run_digits (m := .atomic) (by decide) s
  rw [hwhole] at hdigits
  refine Run.seq_bare (y := none) (by decide) hdigits ?_
  unfold fraction? at hfraction
  split at hfraction
  · next v =>
    have hbehind := run_digits (m := .atomic) (by decide) v
    rw [hfraction] at hbehind
    exact Run.seq_bare (y := none) (by decide) (.text_self (d := '.') rfl v) (.seq_none hbehind)
  · next hpoint => exact .seq_none (.text_missing rfl hpoint)

theorem run_unpointed (hwhole : split? s = some (whole, behind)) :
    Run .atomic unpointed s (bare ((exponent? behind).map Prod.snd)) := by
  have hdigits := run_digits (m := .atomic) (by decide) s
  rw [hwhole] at hdigits
  exact .seq_bare (by decide) hdigits (run_exponent behind)

/-- A minus sign in front of a numeral. -/
theorem numeral?_sign (s : List Char) : ∃ negative u, s = signText negative ++ u ∧
    numeral? s = unsigned? negative u ∧
    Run .atomic (.optional (.text "-")) s (bare (some u)) := by
  unfold numeral?
  split
  · next u => exact ⟨true, u, rfl, rfl, .optional (.text_self (d := '-') rfl u)⟩
  · next hminus => exact ⟨false, s, rfl, rfl, .optional (.text_missing rfl hminus)⟩

/-- Where a float ends, by what is behind its first digits; without a fraction and an exponent
it is none. -/
def floatEnd? (behind : List Char) : Option (List Char) :=
  match fraction? behind with
  | some (_, rest) => some (((exponent? rest).map Prod.snd).getD rest)
  | none => (exponent? behind).map Prod.snd

theorem run_floatBody (hsign : Run .atomic (.optional (.text "-")) s (bare (some t)))
    (hwhole : split? t = some (whole, behind)) :
    Run .atomic (Rule.body .float) s (bare (floatEnd? behind)) := by
  rw [floatEnd?]
  cases hfraction : fraction? behind with
  | some r =>
    exact .choice_left (.seq_bare (y := some _) (by decide) hsign (run_pointed hwhole hfraction))
  | none =>
    have hpointed : Run .atomic (.seq (.optional (.text "-")) pointed) s none :=
      .seq_bare (y := none) (by decide) hsign (run_pointed_none hwhole hfraction)
    exact .choice_right hpointed (.seq_bare (by decide) hsign (run_unpointed hwhole))

/-- Behind digits the reader finds a float that ends where the grammar ends it, or an integer. -/
theorem unsigned?_whole (negative : Bool) (hwhole : split? s = some (whole, behind)) :
    (∃ fraction fs e es rest, FractionText fraction fs ∧ ExponentText e es ∧
      behind = fs ++ (es ++ rest) ∧ floatEnd? behind = some rest ∧
      unsigned? negative s = some (.float (floatOf negative whole fraction e), rest)) ∨
    floatEnd? behind = none ∧ unsigned? negative s = some (.integer negative whole, behind) := by
  rw [unsigned?, hwhole, floatEnd?]
  simp only [Option.bind_eq_bind, Option.bind_some]
  cases hfraction : fraction? behind with
  | some r =>
    obtain ⟨fraction, t⟩ := r
    obtain ⟨u, rfl, hu⟩ := fraction?_spelled hfraction
    obtain ⟨rfl, hds⟩ := split?_eq hu
    dsimp only
    cases hexponent : exponent? t with
    | none => exact .inl ⟨fraction, _, 0, [], t, .given hds, .absent, rfl, rfl, rfl⟩
    | some r =>
      obtain ⟨e, rest⟩ := r
      obtain ⟨es, -, rfl, hes⟩ := exponent?_spelled hexponent
      exact .inl ⟨fraction, _, e, es, rest, .given hds, hes, rfl, rfl, rfl⟩
  | none =>
    dsimp only
    cases hexponent : exponent? behind with
    | none => exact .inr ⟨rfl, rfl⟩
    | some r =>
      obtain ⟨e, rest⟩ := r
      obtain ⟨es, -, rfl, hes⟩ := exponent?_spelled hexponent
      exact .inl ⟨[], [], e, es, rest, .absent, hes, rfl, rfl, rfl⟩

theorem run_float (negative : Bool) (hwhole : IsNumeral whole)
    (hfraction : FractionText fraction fs) (hes : ExponentText e es)
    (hs : s = signText negative ++ (whole ++ (fs ++ es)) ++ rest)
    (h : Run .atomic (Rule.body .float) s (some ([], rest))) :
    ∃ t, Run .spaced (.rule .float) s (some ([t], rest)) ∧
      LiteralTree (.float (floatOf negative whole fraction e)) [t] := by
  have hrule := Run.atomic (m := .spaced) (r := .float) (by decide) rfl h
  refine ⟨_, hrule, _, rfl, ?_⟩
  have hconsumed : consumed s rest = signText negative ++ (whole ++ (fs ++ es)) := by
    rw [hs, consumed_append]
  rw [hconsumed, literal, readFloat?_text negative hwhole hfraction hes]
  refine .ok _ ?_
  rw [defective_singleton]
  exact not_hasDefect_leaf rfl

theorem run_integer (negative : Bool) (hwhole : IsNumeral whole)
    (hs : s = signText negative ++ whole ++ rest)
    (h : Run .atomic (Rule.body .integer) s (some ([], rest))) :
    ∃ t, Run .spaced (.rule .integer) s (some ([t], rest)) ∧
      LiteralTree (.integer negative whole) [t] := by
  have hrule := Run.atomic (m := .spaced) (r := .integer) (by decide) rfl h
  refine ⟨_, hrule, _, rfl, ?_⟩
  have hconsumed : consumed s rest = signText negative ++ whole := by rw [hs, consumed_append]
  rw [hconsumed, literal, Literal.settle]
  exact stands_integer negative hwhole

/-- The grammar finds the float or the integer that the reader finds. -/
theorem run_numeral (s : List Char) :
    (∀ l rest, numeral? s = some (l, rest) → ∃ t, LiteralTree l [t] ∧
      (Run .spaced (.rule .float) s (some ([t], rest)) ∨
        Run .spaced (.rule .float) s none ∧
          Run .spaced (.rule .integer) s (some ([t], rest)))) ∧
    (numeral? s = none → Run .spaced (.rule .float) s none ∧
      Run .spaced (.rule .integer) s none) := by
  obtain ⟨negative, u, hs, hnumeral, hsign⟩ := numeral?_sign s
  have hdigits := run_digits (m := .atomic) (by decide) u
  rw [hnumeral]
  cases hwhole : split? u with
  | none =>
    rw [hwhole] at hdigits
    have hpointed : Run .atomic pointed u none := .seq_none hdigits
    have hunpointed : Run .atomic unpointed u none := .seq_none hdigits
    have hfloat : Run .atomic (Rule.body .float) s none :=
      .choice_right (.seq_bare (y := none) (by decide) hsign hpointed)
        (.seq_bare (y := none) (by decide) hsign hunpointed)
    have hinteger : Run .atomic (Rule.body .integer) s none :=
      .seq_bare (y := none) (by decide) hsign hdigits
    have hread : unsigned? negative u = none := by
      rw [unsigned?, hwhole]
      rfl
    rw [hread]
    refine ⟨?_, fun _ => ⟨.atomic_none rfl hfloat, .atomic_none rfl hinteger⟩⟩
    rintro _ _ ⟨⟩
  | some r =>
    obtain ⟨whole, behind⟩ := r
    rw [hwhole] at hdigits
    obtain ⟨hu, hds⟩ := split?_eq hwhole
    have hfloat := run_floatBody hsign hwhole
    obtain ⟨fraction, fs, e, es, rest, hfraction, hes, hbehind, hend, hread⟩ | ⟨hend, hread⟩ :=
      unsigned?_whole negative hwhole
    · rw [hend] at hfloat
      obtain ⟨tree, htree, hliteral⟩ := run_float negative hds hfraction hes
        (by rw [hs, hu, hbehind]; simp) hfloat
      rw [hread]
      refine ⟨fun l rest' h => ?_, by simp⟩
      cases h
      exact ⟨tree, hliteral, .inl htree⟩
    · rw [hend] at hfloat
      have hinteger : Run .atomic (Rule.body .integer) s (bare (some behind)) :=
        .seq_bare (by decide) hsign hdigits
      obtain ⟨tree, htree, hliteral⟩ := run_integer negative hds
        (by rw [hs, hu, List.append_assoc]) hinteger
      rw [hread]
      refine ⟨fun l rest' h => ?_, by simp⟩
      cases h
      exact ⟨tree, hliteral, .inr ⟨.atomic_none rfl hfloat, htree⟩⟩

end PropertyGraph.Grammar
