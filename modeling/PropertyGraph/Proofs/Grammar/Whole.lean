import PropertyGraph.Proofs.Grammar.Opening

/-! Whole texts. A command may have a semicolon behind it, a condition may not; blanks may follow
either. A text that is read has a tree, and the tree stands for what the draft settles to. -/

namespace PropertyGraph.Grammar

open Blank Token Draft

variable {α β : Type} {r : Rule} {e close : Expr} {s t rest : List Char} {ts : List Tree}

/-- The tree of the end of a text. -/
def finishTree : Tree := ⟨.finish, [], []⟩

/-- The end of a text, where there is nothing more. -/
def finish? (s : List Char) : Outcome := if s.isEmpty then some ([finishTree], []) else none

theorem run_finish (s : List Char) : Run .spaced (.rule .finish) s (finish? s) := by
  have hrun := Run.ending .spaced s
  cases s with
  | nil => exact hrun.plain (r := .finish) rfl
  | cons c s => exact .fails hrun

/-- A semicolon or none, and the end. -/
theorem run_close (rest : List Char) :
    Run .spaced (.seq (.optional (.text ";")) (.rule .finish)) (skip rest)
      (finish? (skip (afterSemicolon rest))) := by
  have hfinish := run_finish (skip (afterSemicolon rest))
  have hpass := passes_symbol ";" rest
  rw [afterSemicolon] at hfinish ⊢
  generalize symbol? ";" rest = x at hfinish hpass ⊢
  have hseq : ∀ {u : List Char}, Run .spaced (.optional (.text ";")) (skip rest) (some ([], u)) →
      skip u = skip (x.getD rest) →
      Run .spaced (.seq (.optional (.text ";")) (.rule .finish)) (skip rest)
        (finish? (skip (x.getD rest))) := by
    intro u hrun hu
    have h := hrun.seq_skip hu hfinish
    generalize finish? (skip (x.getD rest)) = y at h ⊢
    cases y <;> exact h
  cases hpass with
  | missed hrun => exact hseq (.optional hrun) (skip_skip rest)
  | found hrun hrest hts =>
    cases hts
    exact hseq (.optional hrun) hrest

theorem run_close_blocked (h : Blocked (skip t)) :
    Run .spaced (.seq (.optional (.text ";")) (.rule .finish)) (skip t) none := by
  obtain ⟨c, u, hc, hne⟩ := h
  have hmissing : Run .spaced (.text ";") (skip t) none := .text_missing rfl fun v hv => by
    rw [hc] at hv
    cases hv
    exact hne rfl
  have hfinish := run_finish (skip t)
  have hend : finish? (skip t) = none := by
    rw [hc]
    rfl
  rw [hend] at hfinish
  exact (Run.optional hmissing).seq_skip (skip_skip t) hfinish

/-- A text is matched as a whole and read as something that its tree stands for, or neither. -/
def Reads (r : Rule) (s : List Char) (f : Tree → Except TreeFault α) :
    Option (Except CommandFault α) → Prop
  | none => ∀ t, ¬ Parses r s t
  | some y => ∃ t, Parses r s t ∧ Stands (f t) y [t]

/-- What is read has to reach up to the end. -/
theorem Agrees.reads {p : α → List Tree → Prop} {stuck : List Char → Prop}
    {read : Option (α × List Char)} {done : List Char → List Char} {f : Tree → Except TreeFault β}
    {settle : α → Except CommandFault β} (h : Agrees e p stuck s read)
    (hr : r.style = .plain) (hbody : r.body = .seq .nothing (.seq e close))
    (hclose : ∀ rest, Run .spaced close (skip rest) (finish? (done rest)))
    (hstuck : ∀ t, stuck (skip t) → Run .spaced close (skip t) none)
    (hp : ∀ a ts text, p a ts → Stands (f ⟨r, text, ts ++ [finishTree]⟩) (settle a)
      [⟨r, text, ts ++ [finishTree]⟩]) :
    Reads r s f ((read >>= fun x => if (done x.2).isEmpty then some x.1 else none).map settle) := by
  have hopen : ∀ {x : Outcome}, Run .spaced (.seq e close) (skip s) x → Run .spaced r.body s x := by
    intro x hx
    have h := (Run.nothing .spaced s).seq_skip rfl hx
    rw [hbody]
    cases x <;> exact h
  have hnone : Run .spaced r.body s none → ∀ t, ¬ Parses r s t := by
    intro hrun t ht
    have hmode : Mode.within .spaced r.style = .spaced := by
      rw [hr]
      rfl
    rw [← hmode] at hrun
    cases (Run.fails hrun).unique ht
  cases h with
  | @found a ts t rest hrun hrest ha =>
    have hall := hclose rest
    rw [Option.bind_eq_bind, Option.bind_some]
    by_cases hdone : (done rest).isEmpty = true
    · rw [finish?, if_pos hdone] at hall
      rw [if_pos hdone]
      exact ⟨_, (hopen (hrun.seq_skip hrest hall)).plain hr, hp a ts _ ha⟩
    · rw [finish?, if_neg hdone] at hall
      rw [if_neg hdone]
      exact hnone (hopen (hrun.seq_skip hrest hall))
  | missed hrun => exact hnone (hopen (.seq_none hrun))
  | stuck hrun hblocked => exact hnone (hopen (hrun.seq_skip rfl (hstuck _ hblocked)))

theorem not_defective_finishTree : ¬ Defective [finishTree] :=
  not_defective_leaves (by simp [finishTree, Rule.isChecked])

theorem reads_command (s : List Char) :
    Reads .command s command ((readChars s).map Draft.settle) := by
  refine (agrees_statement s).reads rfl rfl run_close (fun t => run_close_blocked) ?_
  rintro d _ text ⟨t, rfl, ht⟩
  exact .tree rfl (ht.append not_defective_finishTree)

theorem reads_condition (s : List Char) :
    Reads .soleCondition s soleCondition ((readChain s).map Chain.settle) := by
  refine (agrees_chain s).reads rfl rfl (fun rest => run_finish (skip rest)) (fun t ht => ?_) ?_
  · obtain ⟨c, u, hc, -⟩ := ht
    have hfinish := run_finish (skip t)
    rw [hc] at hfinish ⊢
    exact hfinish
  · rintro c _ text ⟨t, rfl, hrule, ht⟩
    have hfind : soleCondition ⟨.soleCondition, text, [t] ++ [finishTree]⟩ = condition t.inner := by
      simp [soleCondition, conditionIn, hrule]
    rw [hfind]
    exact .tree rfl (ht.append not_defective_finishTree)

/-! ### Verdicts -/

/-- The verdict on a text: what was settled, if the text could be read. -/
def verdict : Option (Except CommandFault α) → Except CommandError α
  | none => .error .unreadable
  | some y => y.mapError .fault

namespace Reads

variable {f : Tree → Except TreeFault α} {x : Option (Except CommandFault α)}

theorem unreadable_iff (h : Reads r s f x) :
    verdict x = .error .unreadable ↔ ¬ ∃ t, Parses r s t := by
  cases x with
  | none => exact iff_of_true rfl fun ⟨t, ht⟩ => h t ht
  | some y =>
    obtain ⟨t, ht, -⟩ := h
    refine iff_of_false ?_ (not_not_intro ⟨t, ht⟩)
    cases y <;> nofun

/-- A result is what the tree of the text stands for. -/
theorem ok_iff (h : Reads r s f x) (a : α) :
    verdict x = .ok a ↔ ∃ t, Parses r s t ∧ f t = .ok a := by
  cases x with
  | none => exact iff_of_false nofun fun ⟨t, ht, _⟩ => h t ht
  | some y =>
    obtain ⟨t, ht, heq, -⟩ := h
    constructor
    · intro hy
      cases y with
      | error e => cases hy
      | ok b =>
        cases hy
        exact ⟨t, ht, heq⟩
    · rintro ⟨u, hu, ha⟩
      cases hu.unique ht
      rw [heq, mapError_eq_ok_iff] at ha
      rw [ha]
      rfl

/-- A tree stands for nothing only if something is out of range or repeated. -/
theorem error_iff (h : Reads r s f x) (e : TreeFault) :
    (∃ t, Parses r s t ∧ f t = .error e) ↔
      ∃ fault, e = .fault fault ∧ verdict x = .error (.fault fault) := by
  cases x with
  | none => exact iff_of_false (fun ⟨t, ht, _⟩ => h t ht) nofun
  | some y =>
    obtain ⟨t, ht, heq, -⟩ := h
    constructor
    · rintro ⟨u, hu, he⟩
      cases hu.unique ht
      cases y with
      | ok a => cases heq.symm.trans he
      | error fault =>
        cases heq.symm.trans he
        exact ⟨fault, rfl, rfl⟩
    · rintro ⟨fault, rfl, hy⟩
      cases y with
      | ok a => cases hy
      | error fault' =>
        cases hy
        exact ⟨t, ht, heq⟩

theorem fault_iff (h : Reads r s f x) :
    (∃ fault, verdict x = .error (.fault fault)) ↔ ∃ t, Parses r s t ∧ t.HasDefect := by
  cases x with
  | none => exact iff_of_false nofun fun ⟨t, ht, _⟩ => h t ht
  | some y =>
    obtain ⟨t, ht, -, hfails⟩ := h
    rw [defective_singleton] at hfails
    constructor
    · rintro ⟨fault, hy⟩
      cases y with
      | ok a => cases hy
      | error fault' => exact ⟨t, ht, hfails.1 ⟨fault', rfl⟩⟩
    · rintro ⟨u, hu, hdefect⟩
      cases hu.unique ht
      obtain ⟨fault, rfl⟩ := hfails.2 hdefect
      exact ⟨fault, rfl⟩

theorem sound_iff (h : Reads r s f x) :
    (∃ a, verdict x = .ok a) ↔ ∃ t, Parses r s t ∧ ¬ t.HasDefect := by
  cases x with
  | none => exact iff_of_false nofun fun ⟨t, ht, _⟩ => h t ht
  | some y =>
    obtain ⟨t, ht, -, hfails⟩ := h
    rw [defective_singleton] at hfails
    constructor
    · rintro ⟨a, hy⟩
      cases y with
      | error fault => cases hy
      | ok b =>
        refine ⟨t, ht, fun hdefect => ?_⟩
        obtain ⟨fault, hfault⟩ := hfails.2 hdefect
        cases hfault
    · rintro ⟨u, hu, hsound⟩
      cases hu.unique ht
      cases y with
      | error fault => exact absurd (hfails.1 ⟨fault, rfl⟩) hsound
      | ok a => exact ⟨a, rfl⟩

end Reads

end PropertyGraph.Grammar
