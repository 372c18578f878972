import PropertyGraph.Proofs.Command.Lexeme
import PropertyGraph.Proofs.Grammar.Tight

/-! Keywords. A keyword is found in any letter case, with nothing of a longer word behind it, and
only its rule is kept. At most one keyword stands in a place, so a choice between keywords is
made by the one that stands there. -/

namespace PropertyGraph.Grammar

open Blank Token

variable {r : Rule} {e : Expr} {s t rest : List Char} {w : String} {stuck : List Char → Prop}

/-! ### Agreement -/

/-- Trees of a token: only the rule is known. -/
def Mark (r : Rule) (ts : List Tree) : Prop := ∃ text, ts = [⟨r, text, []⟩]

/-- Behind a word nothing of a longer word follows. -/
theorem Run.alone {x : Option (List Char)} (h : Run .atomic e s (bare x)) :
    Run .atomic e.alone s
      (bare (x.bind fun rest => if atWordEnd rest then some rest else none)) := by
  cases x with
  | none => exact .seq_none h
  | some rest =>
    have hchar := (isChar_wordChar : Expr.IsChar .atomic _ _) rest
    rw [Option.bind_some]
    cases rest with
    | nil => exact .seq_bare (by decide) h (.not_none hchar)
    | cons c rest =>
      rw [afterChar?] at hchar
      rw [atWordEnd]
      cases hc : isWordChar c with
      | true =>
        rw [hc, if_pos rfl] at hchar
        exact @Run.seq_bare _ _ _ _ _ none (by decide) h (.not_some hchar)
      | false =>
        rw [hc] at hchar
        exact .seq_bare (by decide) h (.not_none hchar)

theorem fold_isKeyword (hw : isKeyword w = true) : w.toList.map Char.toUpper = w.toList := by
  have hupper : ∀ c ∈ w.toList, c.toUpper = id c := fun c hc =>
    toUpper_of_not_isLower (not_isLower_of_isUpper (isUpper_of_isKeyword hw c hc))
  rw [List.map_congr_left hupper, List.map_id]

theorem passes_alone (hr : r.style = .atomic) (hbody : r.body = (Expr.folded w).alone)
    (hw : isKeyword w = true) (s : List Char) : Passes (.rule r) (Mark r) s (keyword? w s) := by
  have hrun := (Run.folded .atomic w (skip s)).alone
  rw [fold_isKeyword hw, ← hbody] at hrun
  rw [keyword?, Option.bind_eq_bind]
  cases h : (afterFolded? w.toList (skip s)).bind fun rest =>
      if atWordEnd rest then some rest else none with
  | none =>
    rw [h] at hrun
    exact .missed (.atomic_none hr hrun)
  | some rest =>
    rw [h] at hrun
    exact .found (hrun.atomic (by decide) hr) rfl ⟨_, rfl⟩

theorem passes_keyword (hw : isKeyword w = true) (s : List Char) :
    Passes (.keyword w) (Mark (.keyword w)) s (keyword? w s) :=
  passes_alone rfl rfl hw s

/-- Where a rule starts with a keyword that is not there, it does not match. -/
theorem run_keyword_none (hw : isKeyword w = true)
    (hmode : Mode.within .spaced r.style = .spaced) (hbody : r.body = .seq (.keyword w) e)
    (h : keyword? w s = none) : Run .spaced (.rule r) (skip s) none := by
  have hpass := passes_keyword hw s
  rw [h] at hpass
  cases hpass with
  | missed hrun =>
    refine .fails ?_
    rw [hmode, hbody]
    exact .seq_none hrun

/-! ### The keyword that stands there -/

/-- A word stands here. -/
def AtLetter (t : List Char) : Prop := ∃ c u, t = c :: u ∧ c.isAlpha = true

theorem keyword?_eq_some (h : keyword? w s = some rest) :
    ∃ t, skip s = t ++ rest ∧ t.map Char.toUpper = w.toList ∧ atWordEnd rest = true := by
  rw [keyword?, Option.bind_eq_bind, Option.bind_eq_some_iff] at h
  obtain ⟨u, hu, hend⟩ := h
  obtain ⟨t, ht, hfold⟩ := afterFolded?_eq hu
  split at hend
  · next hstop =>
    cases hend
    exact ⟨t, ht, hfold, hstop⟩
  · cases hend

/-- A keyword starts with a letter, and what follows it is shorter. -/
theorem keyword?_atLetter (hw : isKeyword w = true) (h : keyword? w s = some rest) :
    AtLetter (skip s) ∧ (skip rest).length < (skip s).length := by
  obtain ⟨t, ht, hfold, -⟩ := keyword?_eq_some h
  cases t with
  | nil =>
    rw [isKeyword, ← hfold] at hw
    cases hw
  | cons c t =>
    refine ⟨⟨c, t ++ rest, ht, isAlpha_of_isKeyword hw hfold c List.mem_cons_self⟩, ?_⟩
    have hle := length_skip_le rest
    rw [ht, List.cons_append, List.length_cons, List.length_append]
    omega

/-- The keyword that stands here is the only one. -/
theorem keyword?_unique {v : String} {rest' : List Char} (hv : isKeyword v = true)
    (hw : isKeyword w = true) (h : keyword? v s = some rest) (h' : keyword? w s = some rest') :
    v = w := by
  have hword : ∀ {x : String} {u : List Char}, isKeyword x = true → keyword? x s = some u →
      ((skip s).takeWhile isWordChar).map Char.toUpper = x.toList := by
    intro x u hx hu
    obtain ⟨t, ht, hfold, hend⟩ := keyword?_eq_some hu
    have hchars : ∀ c ∈ t, isWordChar c = true := fun c hc =>
      isWordChar_iff.2 (.inl (isAlpha_of_isKeyword hx hfold c hc))
    have hnil : u.takeWhile isWordChar = [] := by
      cases u with
      | nil => rfl
      | cons c u =>
        rw [atWordEnd, Bool.not_eq_true'] at hend
        exact List.takeWhile_cons_of_neg (by rw [hend]; decide)
    rw [ht, List.takeWhile_append_of_pos hchars, hnil, List.append_nil, hfold]
  exact String.toList_inj.1 ((hword hv h).symm.trans (hword hw h'))

theorem keyword?_none {v : String} (hv : isKeyword v = true) (hw : isKeyword w = true)
    (hne : v ≠ w) (h : keyword? v s = some rest) : keyword? w s = none := by
  cases h' : keyword? w s with
  | none => rfl
  | some _ => exact absurd (keyword?_unique hv hw h h') hne

theorem keyword?_skip (w : String) (s : List Char) : keyword? w (skip s) = keyword? w s := by
  rw [keyword?, keyword?, skip_skip]

/-! ### One of several words -/

/-- Two words with different first letters do not stand in the same place. -/
theorem afterFolded?_head {v w : List Char} (hne : v.head? ≠ w.head?) (hv : v ≠ [])
    (hw : w ≠ []) (h : afterFolded? v s = some rest) : afterFolded? w s = none := by
  cases v with
  | nil => exact absurd rfl hv
  | cons a v =>
    cases w with
    | nil => exact absurd rfl hw
    | cons b w =>
      cases s with
      | nil => rfl
      | cons c s =>
        rw [afterFolded?] at h ⊢
        split at h
        · next ha =>
          rw [if_neg]
          rintro rfl
          exact hne (by rw [List.head?_cons, List.head?_cons, ha])
        · cases h

section

variable {α : Type} {words : List (String × α)}

/-- In upper case. -/
def folds (w : String) : List Char := w.toList.map Char.toUpper

/-- Words that are told apart by their first letters. -/
def Distinct (words : List (String × α)) : Prop :=
  (∀ x ∈ words, folds x.1 ≠ []) ∧ words.Pairwise fun x y => (folds x.1).head? ≠ (folds y.1).head?

/-- The word at the front, whatever follows it. -/
def wordOf? (words : List (String × α)) (s : List Char) : Option (α × List Char) :=
  words.findSome? fun x => (afterFolded? (folds x.1) s).map (x.2, ·)

/-- A word that ends where another one would have to go on is none of them. -/
theorem findSome?_closed (h : Distinct words) (s : List Char) :
    (words.findSome? fun x => ((afterFolded? (folds x.1) s).bind fun rest =>
        if atWordEnd rest then some rest else none).map (x.2, ·)) =
      (wordOf? words s).bind fun r => if atWordEnd r.2 then some r else none := by
  obtain ⟨hne, hpair⟩ := h
  induction words with
  | nil => rfl
  | cons x words ih =>
    obtain ⟨hx, hne⟩ := List.forall_mem_cons.1 hne
    obtain ⟨hhead, hpair⟩ := List.pairwise_cons.1 hpair
    rw [List.findSome?_cons, wordOf?, List.findSome?_cons]
    cases hafter : afterFolded? (folds x.1) s with
    | none => exact ih hne hpair
    | some rest =>
      rw [Option.bind_some, Option.map_some, Option.bind_some]
      by_cases hend : atWordEnd rest = true
      · simp [hend]
      · have hothers : (words.findSome? fun x => ((afterFolded? (folds x.1) s).bind fun rest =>
            if atWordEnd rest then some rest else none).map (x.2, ·)) = none := by
          refine List.findSome?_eq_none_iff.2 fun y hy => ?_
          rw [afterFolded?_head (hhead y hy) hx (hne y hy) hafter]
          rfl
        simp only [if_neg hend, Option.map_none]
        exact hothers

theorem agrees_words (hr : r.style = .atomic)
    (hbody : r.body = (Expr.any (words.map fun x => .folded x.1)).alone) (hwords : Distinct words)
    (s : List Char) : Agrees (.rule r)
      (fun a ts => ∃ w text, (w, a) ∈ words ∧ text.map Char.toUpper = folds w ∧
        ts = [⟨r, text, []⟩])
      stuck s (words.findSome? fun x => (keyword? (String.ofList (folds x.1)) s).map (x.2, ·)) := by
  have hrun := (Run.any (fun x : String × α => Run.folded .atomic x.1 (skip s)) words).alone
  rw [← hbody] at hrun
  have hread : (words.findSome? fun x => (keyword? (String.ofList (folds x.1)) s).map (x.2, ·)) =
      (wordOf? words (skip s)).bind fun r => if atWordEnd r.2 then some r else none := by
    rw [← findSome?_closed hwords]
    simp only [keyword?, String.toList_ofList, Option.bind_eq_bind]
  have hplain : (words.findSome? fun x => afterFolded? (folds x.1) (skip s)) =
      (wordOf? words (skip s)).map Prod.snd := by
    rw [wordOf?, List.map_findSome?]
    simp [Function.comp_def]
  rw [hread]
  simp only [folds] at hplain
  rw [hplain] at hrun
  cases hword : wordOf? words (skip s) with
  | none =>
    rw [hword] at hrun
    exact .missed (.atomic_none hr hrun)
  | some x =>
    obtain ⟨a, rest⟩ := x
    rw [hword, Option.map_some, Option.bind_some] at hrun
    rw [Option.bind_some]
    by_cases hend : atWordEnd rest = true
    · rw [if_pos hend] at hrun
      rw [if_pos hend]
      obtain ⟨⟨w, a'⟩, hmem, hw⟩ := List.exists_of_findSome?_eq_some hword
      obtain ⟨u, hu, hpair⟩ := Option.map_eq_some_iff.1 hw
      cases hpair
      obtain ⟨text, htext, hfold⟩ := afterFolded?_eq hu
      have htree := Run.atomic (m := .spaced) (by decide) hr hrun
      rw [htext, consumed_append, ← htext] at htree
      exact .found htree rfl ⟨w, text, hmem, hfold, rfl⟩
    · rw [if_neg hend] at hrun
      rw [if_neg hend]
      exact .missed (.atomic_none hr hrun)

end

end PropertyGraph.Grammar
