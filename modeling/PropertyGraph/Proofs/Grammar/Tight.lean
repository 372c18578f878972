import PropertyGraph.Proofs.Grammar.Agreement

/-! Runs without blanks between the parts. An expression for one character, repeated, takes the
longest run of such characters. -/

namespace PropertyGraph.Grammar

open Blank Token

variable {m : Mode} {e e₁ e₂ : Expr} {s : List Char} {w : String}

theorem next_eq (hm : m ≠ .spaced) (s : List Char) : m.next s = s := by
  cases m with
  | spaced => exact absurd rfl hm
  | _ => rfl

theorem Run.seq_tight {t : List Char} {ts : List Tree} {x : Outcome} (hm : m ≠ .spaced)
    (ha : Run m e₁ s (some (ts, t))) (hb : Run m e₂ t x) :
    Run m (.seq e₁ e₂) s (x.map fun r => (ts ++ r.1, r.2)) := by
  rw [← next_eq hm t] at hb
  exact .seq ha hb

/-- Two expressions without trees, one right after the other. -/
theorem Run.seq_bare {t : List Char} {y : Option (List Char)} (hm : m ≠ .spaced)
    (ha : Run m e₁ s (bare (some t))) (hb : Run m e₂ t (bare y)) :
    Run m (.seq e₁ e₂) s (bare y) := by
  have hseq := Run.seq_tight hm ha hb
  cases y with
  | none => exact hseq
  | some u => exact hseq

/-- Without blanks the first item of a repetition is like the others. -/
theorem Run.star {x : Outcome} (hm : m ≠ .spaced) (h : Run m (.again e) s x) :
    Run m (.star e) s x := by
  cases h with
  | again_none h => exact .star_none (next_eq hm s ▸ h)
  | again_some h hrest => exact .star_some (next_eq hm s ▸ h) hrest

/-- One more item, without a tree. -/
theorem Run.again_cons {t u : List Char} (hm : m ≠ .spaced) (h : Run m e s (some ([], t)))
    (hrest : Run m (.again e) t (some ([], u))) : Run m (.again e) s (some ([], u)) := by
  rw [← next_eq hm s] at h
  exact @Run.again_some _ _ _ _ _ [] [] h hrest

theorem Run.any {ι : Type} {f : ι → Expr} {g : ι → Option (List Char)}
    (h : ∀ i, Run m (f i) s (bare (g i))) (is : List ι) :
    Run m (.any (is.map f)) s (bare (is.findSome? g)) := by
  induction is with
  | nil => exact .not_some (.nothing m s)
  | cons i is ih =>
    have hi := h i
    rw [List.findSome?_cons]
    cases hg : g i with
    | none =>
      rw [hg] at hi
      cases is with
      | nil => exact hi
      | cons j is => exact .choice_right hi ih
    | some t =>
      rw [hg] at hi
      cases is with
      | nil => exact hi
      | cons j is => exact .choice_left hi

/-! ### Single characters -/

/-- The expression matches one character of a kind. -/
def Expr.IsChar (m : Mode) (e : Expr) (p : Char → Bool) : Prop :=
  ∀ s, Run m e s (bare (afterChar? p s))

section

variable {p q : Char → Bool}

theorem Expr.isChar_char (m : Mode) (p : Char → Bool) : (Expr.char p).IsChar m p := Run.char m p

theorem Expr.isChar_text {d : Char} (hw : w.toList = [d]) :
    IsChar m (.text w) fun c => c == d := by
  intro s
  have hrun := Run.text m w s
  rw [hw] at hrun
  cases s with
  | nil => exact hrun
  | cons c s =>
    have heq : [d].isPrefixOf? (c :: s) = afterChar? (fun c => c == d) (c :: s) := by
      by_cases h : c = d
      · simp [List.isPrefixOf?, afterChar?, h]
      · simp [List.isPrefixOf?, afterChar?, h, Ne.symm h]
    rwa [heq] at hrun

/-- A symbol of one character where that character stands, and where it does not. -/
theorem Run.text_self {d : Char} (hw : w.toList = [d]) (s : List Char) :
    Run m (.text w) (d :: s) (some ([], s)) := by
  have h := (Expr.isChar_text hw : (Expr.text w).IsChar m _) (d :: s)
  rwa [afterChar?, if_pos (beq_self_eq_true d)] at h

theorem Run.text_missing {d : Char} (hw : w.toList = [d]) (h : ∀ t, s ≠ d :: t) :
    Run m (.text w) s none := by
  have hrun := (Expr.isChar_text hw : (Expr.text w).IsChar m _) s
  cases s with
  | nil => exact hrun
  | cons c s =>
    rwa [afterChar?, if_neg] at hrun
    rw [beq_iff_eq]
    rintro rfl
    exact h s rfl

theorem Expr.IsChar.choice (hp : e₁.IsChar m p) (hq : e₂.IsChar m q) :
    (Expr.choice e₁ e₂).IsChar m fun c => p c || q c := by
  intro s
  have hleft := hp s
  have hright := hq s
  cases s with
  | nil => exact .choice_right hleft hright
  | cons c s =>
    rw [afterChar?] at hleft hright
    cases hc : p c with
    | true =>
      rw [hc, if_pos rfl] at hleft
      rw [afterChar?, hc, Bool.true_or, if_pos rfl]
      exact .choice_left hleft
    | false =>
      rw [hc] at hleft
      rw [afterChar?, hc, Bool.false_or]
      exact .choice_right hleft hright

/-- Every character but those of a kind. -/
theorem Expr.IsChar.except (hm : m ≠ .spaced) (h : e.IsChar m p) :
    (Expr.seq (.not e) .anyChar).IsChar m fun c => !p c := by
  intro s
  have hno := h s
  have hany := Expr.isChar_char m (fun _ => true) s
  cases s with
  | nil => exact .seq_bare hm (.not_none hno) hany
  | cons c s =>
    rw [afterChar?] at hno ⊢
    cases hc : p c with
    | true =>
      rw [hc, if_pos rfl] at hno
      exact .seq_none (.not_some hno)
    | false =>
      rw [hc] at hno
      exact .seq_bare hm (.not_none hno) hany

theorem Expr.IsChar.again (hm : m ≠ .spaced) (h : e.IsChar m p) (s : List Char) :
    Run m (.again e) s (some ([], s.dropWhile p)) := by
  induction s with
  | nil =>
    refine .again_none ?_
    rw [next_eq hm]
    exact h []
  | cons c s ih =>
    have hc := h (c :: s)
    rw [afterChar?] at hc
    cases hp : p c with
    | true =>
      rw [hp, if_pos rfl] at hc
      rw [List.dropWhile_cons_of_pos hp]
      exact .again_cons hm hc ih
    | false =>
      rw [hp] at hc
      rw [List.dropWhile_cons_of_neg (by rw [hp]; decide)]
      refine .again_none ?_
      rw [next_eq hm]
      exact hc

theorem Expr.IsChar.star (hm : m ≠ .spaced) (h : e.IsChar m p) (s : List Char) :
    Run m (.star e) s (some ([], s.dropWhile p)) := (h.again hm s).star hm

/-- One character of a kind and then as many of another kind as there are. -/
theorem Expr.IsChar.seq_star (hm : m ≠ .spaced) (hp : e₁.IsChar m p) (hq : e₂.IsChar m q)
    (s : List Char) : Run m (.seq e₁ (.star e₂)) s
      (bare ((afterChar? p s).map fun rest => rest.dropWhile q)) := by
  have hfirst := hp s
  cases hs : afterChar? p s with
  | none =>
    rw [hs] at hfirst
    exact .seq_none hfirst
  | some rest =>
    rw [hs] at hfirst
    exact .seq_bare hm hfirst (hq.star hm rest)

end

theorem isChar_wordChar : (Expr.rule .wordChar).IsChar m isWordChar := fun s =>
  .silent rfl ((Expr.isChar_char m Char.isAlphanum).choice (Expr.isChar_text rfl) s)

theorem isChar_wordStart :
    (Expr.choice (.char Char.isAlpha) (.text "_")).IsChar m isWordStart :=
  (Expr.isChar_char m Char.isAlpha).choice (Expr.isChar_text rfl)

theorem isChar_pathChar :
    (Expr.seq (.not (.choice (.char isBlank) (.text ";"))) .anyChar).IsChar .atomic isPathChar := by
  have hend : (Expr.text ";").IsChar .atomic fun c => c == ';' := Expr.isChar_text rfl
  have h := ((Expr.isChar_char .atomic isBlank).choice hend).except (by decide)
  have hp : (fun c => !(isBlank c || c == ';')) = isPathChar := by
    funext c
    rw [Bool.not_or]
    rfl
  rwa [hp] at h

end PropertyGraph.Grammar
