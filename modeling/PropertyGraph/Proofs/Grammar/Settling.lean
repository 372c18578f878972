import PropertyGraph.Proofs.Except
import PropertyGraph.Proofs.Grammar.Meaning
import PropertyGraph.Proofs.Json.Number
import PropertyGraph.Proofs.Value.Text

/-! Trees and drafts. A tree stands for what a draft settles to if it gives the same result or
the same fault, and there is a fault exactly if there is a defect in the tree. -/

namespace PropertyGraph.Grammar

open Draft (settleInteger settleId settleBag signText)

variable {α β : Type} {r : Rule} {s text digits : List Char} {inner ts us : List Tree}

/-! ### Defects -/

/-- There is a defect in one of the trees. -/
def Defective (ts : List Tree) : Prop := ∃ t ∈ ts, t.HasDefect

theorem hasDefect_iff {t : Tree} : t.HasDefect ↔ t.IsDefect ∨ Defective t.inner := by
  constructor
  · intro h
    cases h with
    | here h => exact .inl h
    | inside hmem h => exact .inr ⟨_, hmem, h⟩
  · rintro (h | ⟨u, hmem, h⟩)
    · exact .here h
    · exact .inside hmem h

@[simp] theorem defective_nil : ¬ Defective [] := by
  rintro ⟨t, hmem, -⟩
  cases hmem

@[simp] theorem defective_cons {t : Tree} :
    Defective (t :: ts) ↔ t.HasDefect ∨ Defective ts := by
  simp [Defective]

@[simp] theorem defective_append : Defective (ts ++ us) ↔ Defective ts ∨ Defective us := by
  induction ts with
  | nil => simp
  | cons t ts ih => rw [List.cons_append, defective_cons, defective_cons, ih, or_assoc]

@[simp] theorem defective_singleton {t : Tree} : Defective [t] ↔ t.HasDefect := by
  rw [defective_cons, or_iff_left defective_nil]

namespace Rule

/-- The rules whose trees may be defects themselves. -/
def isChecked : Rule → Bool
  | .nodeId | .relationshipId | .integer | .properties => true
  | _ => false

end Rule

theorem not_isDefect (hr : r.isChecked = false) : ¬ (⟨r, text, inner⟩ : Tree).IsDefect := by
  rintro ⟨⟩ <;> cases hr

theorem hasDefect_unchecked (hr : r.isChecked = false) :
    (⟨r, text, inner⟩ : Tree).HasDefect ↔ Defective inner := by
  rw [hasDefect_iff, or_iff_right (not_isDefect hr)]

/-- A tree without parts that is not checked either. -/
theorem not_hasDefect_leaf (hr : r.isChecked = false) : ¬ (⟨r, text, []⟩ : Tree).HasDefect := by
  rw [hasDefect_unchecked hr]
  exact defective_nil

theorem not_defective_leaves (h : ∀ t ∈ ts, t.rule.isChecked = false ∧ t.inner = []) :
    ¬ Defective ts := by
  rintro ⟨⟨r, text, inner⟩, hmem, hdefect⟩
  obtain ⟨hr, rfl⟩ := h _ hmem
  exact not_hasDefect_leaf hr hdefect

theorem hasDefect_id (hr : r = .nodeId ∨ r = .relationshipId) :
    (⟨r, digits, []⟩ : Tree).HasDefect ↔ 2 ^ 64 ≤ Digits.toNat digits := by
  rw [hasDefect_iff, or_iff_left defective_nil]
  rcases hr with rfl | rfl
  · refine ⟨fun h => ?_, .nodeId⟩
    cases h
    assumption
  · refine ⟨fun h => ?_, .relationshipId⟩
    cases h
    assumption

theorem hasDefect_integer : (⟨.integer, text, []⟩ : Tree).HasDefect ↔
    integerOf text < -2 ^ 63 ∨ 2 ^ 63 ≤ integerOf text := by
  rw [hasDefect_iff, or_iff_left defective_nil]
  refine ⟨fun h => ?_, .integer⟩
  cases h
  assumption

theorem hasDefect_properties : (⟨.properties, text, inner⟩ : Tree).HasDefect ↔
    ¬ (inner.filterMap keyOf?).Nodup ∨ Defective inner := by
  rw [hasDefect_iff]
  refine or_congr_left ⟨fun h => ?_, .properties⟩
  cases h
  assumption

/-! ### Results and faults -/

/-- What is made of trees and what a draft settles to. -/
structure Stands (x : Except TreeFault α) (y : Except CommandFault α) (ts : List Tree) : Prop where
  eq : x = y.mapError .fault
  fails_iff : (∃ f, y = .error f) ↔ Defective ts

/-- The tree of a rule, and what a draft settles to that it stands for. -/
def Settled (r : Rule) (f : List Tree → Except TreeFault β) (settle : α → Except CommandFault β)
    (a : α) (ts : List Tree) : Prop :=
  ∃ t, ts = [t] ∧ t.rule = r ∧ Stands (f t.inner) (settle a) [t]

/-- The tree of a rule that never comes with a fault. -/
structure IsMade (r : Rule) (f : List Tree → Except TreeFault α) (a : α) (t : Tree) : Prop where
  rule : t.rule = r
  eq : f t.inner = .ok a
  sound : ¬ t.HasDefect

def Made (r : Rule) (f : List Tree → Except TreeFault α) (a : α) (ts : List Tree) : Prop :=
  ∃ t, ts = [t] ∧ IsMade r f a t

namespace Stands

variable {x : Except TreeFault α} {y : Except CommandFault α}

theorem ok (a : α) (h : ¬ Defective ts) : Stands (.ok a) (.ok a) ts :=
  ⟨rfl, iff_of_false nofun h⟩

theorem error {f : CommandFault} (h : Defective ts) :
    Stands (.error (.fault f) : Except TreeFault α) (.error f) ts :=
  ⟨rfl, iff_of_true ⟨f, rfl⟩ h⟩

/-- A tree stands for one result or fault only. -/
theorem unique {z : Except CommandFault α} (h : Stands x y ts) (h' : Stands x z us) : y = z := by
  have heq : y.mapError TreeFault.fault = z.mapError TreeFault.fault := h.eq.symm.trans h'.eq
  cases y <;> cases z <;> cases heq <;> rfl

/-- Only whether there is a defect matters about the trees. -/
theorem congr (h : Stands x y ts) (hts : Defective us ↔ Defective ts) : Stands x y us :=
  ⟨h.eq, h.fails_iff.trans hts.symm⟩

/-- Trees without defects change nothing. -/
theorem cons {t : Tree} (ht : ¬ t.HasDefect) (h : Stands x y ts) : Stands x y (t :: ts) :=
  h.congr (defective_cons.trans (or_iff_right ht))

theorem append (h : Stands x y ts) (hus : ¬ Defective us) : Stands x y (ts ++ us) :=
  h.congr (defective_append.trans (or_iff_left hus))

theorem bind {f : α → Except TreeFault β} {g : α → Except CommandFault β} (h : Stands x y ts)
    (hf : ∀ a, Stands (f a) (g a) us) : Stands (x >>= f) (y >>= g) (ts ++ us) := by
  obtain ⟨rfl, hiff⟩ := h
  cases y with
  | error e => exact error (defective_append.2 (.inl (hiff.1 ⟨e, rfl⟩)))
  | ok a =>
    have hnone : ¬ Defective ts := fun hdefect => by
      obtain ⟨_, he⟩ := hiff.2 hdefect
      cases he
    exact (hf a).congr (defective_append.trans (or_iff_right hnone))

theorem map (f : α → β) (h : Stands x y ts) : Stands (x.map f) (y.map f) ts := by
  obtain ⟨rfl, hiff⟩ := h
  cases y with
  | error e => exact error (hiff.1 ⟨e, rfl⟩)
  | ok a =>
    refine ok _ fun hdefect => ?_
    obtain ⟨_, he⟩ := hiff.2 hdefect
    cases he

/-- The tree around the trees adds no defect. -/
theorem tree (hr : r.isChecked = false) (h : Stands x y inner) : Stands x y [⟨r, text, inner⟩] :=
  h.congr (defective_singleton.trans (hasDefect_unchecked hr))

/-! What is found in one tree after another, and what is made of it. -/

section

variable {σ : Type} {f : σ → Tree → Except TreeFault σ} {k : σ → Except TreeFault β}
  {z : Except CommandFault β} {a b : σ} {t : Tree}

theorem fold_nil (h : Stands (k a) z []) : Stands ([].foldlM f a >>= k) z [] := h

/-- A tree that no fault comes from. -/
theorem fold_ok (ht : f a t = .ok b) (hdefect : ¬ t.HasDefect)
    (h : Stands (us.foldlM f b >>= k) z us) : Stands ((t :: us).foldlM f a >>= k) z (t :: us) := by
  rw [List.foldlM_cons, ht]
  exact h.cons hdefect

/-- A tree that something settles for. -/
theorem fold_map {F : α → σ} {g : α → Except CommandFault β} (hx : Stands x y [t])
    (ht : f a t = x.map F) (h : ∀ b, Stands (us.foldlM f (F b) >>= k) (g b) us) :
    Stands ((t :: us).foldlM f a >>= k) (y >>= g) (t :: us) := by
  have hmap : (x.map F >>= fun b => us.foldlM f b >>= k) =
      x >>= fun b => us.foldlM f (F b) >>= k := by
    cases x <;> rfl
  rw [List.foldlM_cons, ht, bind_assoc, hmap]
  exact hx.bind h

/-- Trees that no fault comes from, where what is made of them is collected. -/
theorem fold_made {γ : Type} {make : List Tree → Except TreeFault γ} {xs : List γ}
    (G : List γ → σ) (ys : List γ) (hts : List.Forall₂ (IsMade r make) xs ts)
    (hf : ∀ ys x t, IsMade r make x t → f (G ys) t = .ok (G (ys ++ [x])))
    (h : Stands (us.foldlM f (G (ys ++ xs)) >>= k) z us) :
    Stands ((ts ++ us).foldlM f (G ys) >>= k) z (ts ++ us) := by
  induction hts generalizing ys with
  | nil => rwa [List.append_nil] at h
  | cons hx _ ih =>
    rw [List.append_cons] at h
    exact .fold_ok (hf ys _ _ hx) hx.sound (ih _ h)

end

end Stands

/-- Trees that are passed over. -/
theorem foldlM_pass {σ : Type} {f : σ → Tree → Except TreeFault σ} {a : σ}
    (h : ∀ t ∈ ts, f a t = .ok a) : ts.foldlM f a = .ok a := by
  induction ts with
  | nil => rfl
  | cons t ts ih =>
    obtain ⟨ht, hts⟩ := List.forall_mem_cons.1 h
    rw [List.foldlM_cons, ht]
    exact ih hts

/-! ### Numbers -/

theorem readDigits_eq (greatest : Nat) (hs : ∀ c ∈ s, c.isDigit = true) (n : Nat)
    (hn : n ≤ greatest) : readDigits greatest n s =
      if Nat.ofDigitChars 10 s n ≤ greatest then .ok (Nat.ofDigitChars 10 s n)
      else .error .tooLarge := by
  induction s generalizing n with
  | nil => rw [Nat.ofDigitChars_nil, if_pos hn, readDigits]
  | cons c s ih =>
    obtain ⟨hc, hs⟩ := List.forall_mem_cons.1 hs
    have hle := Json.NumberLiteral.le_ofDigitChars s (10 * n + (c.toNat - '0'.toNat))
    rw [readDigits, if_pos hc, Nat.ofDigitChars_cons]
    by_cases hnext : 10 * n + (c.toNat - '0'.toNat) ≤ greatest
    · exact (if_pos hnext).trans (ih hs _ hnext)
    · rw [if_neg fun h => hnext (hle.trans h)]
      exact if_neg hnext

theorem readNatural_eq (greatest : Nat) (h : Digits.IsNumeral digits) :
    readNatural greatest digits = if Digits.toNat digits ≤ greatest then .ok (Digits.toNat digits)
      else .error .tooLarge := by
  cases digits with
  | nil => exact absurd rfl h.1
  | cons d ds => exact readDigits_eq greatest h.2 0 (Nat.zero_le _)

theorem stands_id (hr : r = .nodeId ∨ r = .relationshipId) (h : Digits.IsNumeral digits) :
    Stands (readId digits) (settleId digits) [⟨r, digits, []⟩] := by
  have hplus : withoutPlus digits = digits := by
    rw [withoutPlus.eq_def]
    split
    · cases h.2 '+' List.mem_cons_self
    · rfl
  have hdefect : Defective [⟨r, digits, []⟩] ↔ 2 ^ 64 ≤ Digits.toNat digits := by
    rw [defective_singleton, hasDefect_id hr]
  have hsize : UInt64.size = 2 ^ 64 := rfl
  rw [readId, hplus, readNatural_eq _ h, settleId]
  by_cases hlt : Digits.toNat digits < UInt64.size
  · rw [if_pos (by omega), if_pos hlt]
    exact .ok _ (hdefect.not.2 (by omega))
  · rw [if_neg (by omega), if_neg hlt]
    exact .error (hdefect.2 (by omega))

/-- Digits have no sign. -/
theorem readSign_digits (h : ∀ c ∈ s.head?, c.isDigit = true) : readSign s = (false, s) := by
  unfold readSign
  split
  · cases h _ rfl
  · cases h _ rfl
  · rfl

theorem stands_integer (negative : Bool) (h : Digits.IsNumeral digits) :
    Stands (readInteger (signText negative ++ digits)) (settleInteger negative digits)
      [⟨.integer, signText negative ++ digits, []⟩] := by
  have hfits : ∀ n : Int, Value.int64? n =
      if -2 ^ 63 ≤ n ∧ n < 2 ^ 63 then some (.ofInt n) else none := fun _ => rfl
  cases negative with
  | true =>
    have hdefect : Defective [⟨.integer, '-' :: digits, []⟩] ↔ 2 ^ 63 < Digits.toNat digits := by
      rw [defective_singleton, hasDefect_integer, integerOf]
      omega
    simp only [signText, if_true, List.cons_append, List.nil_append, readInteger, readSign,
      settleInteger, readNatural_eq _ h, hfits]
    by_cases hle : Digits.toNat digits ≤ 2 ^ 63
    · rw [if_pos hle, if_pos (by omega)]
      exact .ok _ (hdefect.not.2 (by omega))
    · rw [if_neg hle, if_neg (by omega)]
      exact .error (hdefect.2 (by omega))
  | false =>
    obtain ⟨d, ds, rfl⟩ := List.exists_cons_of_ne_nil h.1
    have hd := h.2 d List.mem_cons_self
    have hsign : readSign (d :: ds) = (false, d :: ds) :=
      readSign_digits (by rintro _ ⟨⟩; exact hd)
    have hvalue : integerOf (d :: ds) = Digits.toNat (d :: ds) := by
      unfold integerOf
      split
      · next heq =>
        cases heq
        cases hd
      · rfl
    have hdefect : Defective [⟨.integer, d :: ds, []⟩] ↔ 2 ^ 63 ≤ Digits.toNat (d :: ds) := by
      rw [defective_singleton, hasDefect_integer, hvalue]
      omega
    simp only [signText, Bool.false_eq_true, if_false, List.nil_append, readInteger, hsign,
      settleInteger, readNatural_eq _ h, hfits]
    by_cases hlt : Digits.toNat (d :: ds) < 2 ^ 63
    · rw [if_pos (by omega), if_pos (by omega)]
      exact .ok _ (hdefect.not.2 (by omega))
    · rw [if_neg (by omega), if_neg (by omega)]
      exact .error (hdefect.2 (by omega))

end PropertyGraph.Grammar
