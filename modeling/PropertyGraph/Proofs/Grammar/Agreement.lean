import PropertyGraph.Proofs.Grammar.Run
import PropertyGraph.Proofs.Text.Blank

/-! A reader agrees with an expression on a text if it finds something where the expression
matches, up to the blanks behind it. A reader that has seen the start of something optional
gives up if the rest of it is missing, where the expression goes on as if nothing had been
there; it is then stuck, at a text that nothing can follow. -/

namespace PropertyGraph.Grammar

open Blank

variable {α β : Type} {e e₁ e₂ : Expr} {r : Rule} {m : Mode} {s t rest : List Char}
  {ts : List Tree} {x : Outcome}

/-! ### Rules -/

theorem consumed_append (t rest : List Char) : consumed (t ++ rest) rest = t := by
  simp [consumed]

theorem Run.fails (h : Run (m.within r.style) r.body s none) : Run m (.rule r) s none :=
  .rule h

theorem Run.silent (hr : r.style = .silent) (h : Run m r.body s x) : Run m (.rule r) s x := by
  have hrun : Run (m.within r.style) r.body s x := by
    rw [hr]
    exact h
  have hrule := Run.rule hrun
  cases x with
  | none => exact hrule
  | some _ => simpa [Rule.shown, hr] using hrule

/-- Inside an atomic rule no tree is kept. -/
theorem Run.atomic (hm : m ≠ .atomic) (hr : r.style = .atomic)
    (h : Run .atomic r.body s (some (ts, rest))) :
    Run m (.rule r) s (some ([⟨r, consumed s rest, ts⟩], rest)) := by
  have hrun : Run (m.within r.style) r.body s (some (ts, rest)) := by
    rw [hr]
    exact h
  simpa [Rule.shown, hr, hm] using Run.rule hrun

theorem Run.atomic_none (hr : r.style = .atomic) (h : Run .atomic r.body s none) :
    Run m (.rule r) s none := by
  refine .fails ?_
  rw [hr]
  exact h

theorem Run.compound (hm : m ≠ .atomic) (hr : r.style = .compound)
    (h : Run .compound r.body s (some (ts, rest))) :
    Run m (.rule r) s (some ([⟨r, consumed s rest, ts⟩], rest)) := by
  have hrun : Run (m.within r.style) r.body s (some (ts, rest)) := by
    rw [hr]
    exact h
  simpa [Rule.shown, hr, hm] using Run.rule hrun

theorem Run.plain (hr : r.style = .plain) (h : Run .spaced r.body s (some (ts, rest))) :
    Run .spaced (.rule r) s (some ([⟨r, consumed s rest, ts⟩], rest)) := by
  have hrun : Run (Mode.within .spaced r.style) r.body s (some (ts, rest)) := by
    rw [hr]
    exact h
  simpa [Rule.shown, hr] using Run.rule hrun

/-! ### Agreement -/

/-- Nothing is stuck here. -/
def never (_ : List Char) : Prop := False

inductive Agrees (e : Expr) (p : α → List Tree → Prop) (stuck : List Char → Prop)
    (s : List Char) : Option (α × List Char) → Prop where
  | found {a : α} {ts : List Tree} {t rest : List Char} :
    Run .spaced e (skip s) (some (ts, t)) → skip t = skip rest → p a ts →
    Agrees e p stuck s (some (a, rest))
  | missed : Run .spaced e (skip s) none → Agrees e p stuck s none
  | stuck {ts : List Tree} {t : List Char} :
    Run .spaced e (skip s) (some (ts, t)) → stuck (skip t) → Agrees e p stuck s none

/-- The same for what is read of a text and not kept. -/
inductive Passes (e : Expr) (p : List Tree → Prop) (s : List Char) :
    Option (List Char) → Prop where
  | found {ts : List Tree} {t rest : List Char} :
    Run .spaced e (skip s) (some (ts, t)) → skip t = skip rest → p ts →
    Passes e p s (some rest)
  | missed : Run .spaced e (skip s) none → Passes e p s none

variable {p : α → List Tree → Prop} {q : β → List Tree → Prop} {stuck stuck' : List Char → Prop}
  {read : Option (α × List Char)} {pass : Option (List Char)} {w : List Tree → Prop}

theorem Agrees.mono {p' : α → List Tree → Prop} (h : Agrees e p stuck s read)
    (hp : ∀ a ts, p a ts → p' a ts) (hs : ∀ t, stuck t → stuck' t) :
    Agrees e p' stuck' s read := by
  cases h with
  | found hrun hrest h => exact .found hrun hrest (hp _ _ h)
  | missed hrun => exact .missed hrun
  | stuck hrun h => exact .stuck hrun (hs _ h)

/-- A reader that is never stuck. -/
theorem Agrees.relax (h : Agrees e p never s read) : Agrees e p stuck s read :=
  h.mono (fun _ _ => id) fun _ => False.elim

/-- Where nothing is stuck, nothing is found where the expression does not match. -/
theorem Agrees.run_none (h : Agrees e p never s none) : Run .spaced e (skip s) none := by
  cases h with
  | missed hrun => exact hrun
  | stuck _ h => exact h.elim

/-- What is left behind what was read is the end of what was in front of it. -/
theorem Agrees.suffix {a : α} (h : Agrees e p stuck s (some (a, rest))) : skip rest <:+ skip s := by
  cases h with
  | @found _ _ t _ hrun hrest _ =>
    rw [← hrest]
    exact (List.dropWhile_suffix _).trans (hrun.suffix _ _ rfl)

theorem Agrees.length_le {a : α} (h : Agrees e p stuck s (some (a, rest))) :
    (skip rest).length ≤ (skip s).length := h.suffix.length_le

/-! ### One after the other -/

theorem Run.seq_skip (ha : Run .spaced e₁ s (some (ts, t))) (ht : skip t = skip rest)
    (hb : Run .spaced e₂ (skip rest) x) :
    Run .spaced (.seq e₁ e₂) s (x.map fun r => (ts ++ r.1, r.2)) := by
  rw [← ht] at hb
  exact .seq ha hb

/-- What follows a match is read as the second expression matches it. -/
theorem Agrees.after (ha : Run .spaced e₁ (skip s) (some (ts, t))) (ht : skip t = skip rest)
    {next : Option (β × List Char)}
    (hb : Agrees e₂ (fun b us => q b (ts ++ us)) stuck rest next) :
    Agrees (.seq e₁ e₂) q stuck s next := by
  cases hb with
  | found hrun hrest h => exact .found (ha.seq_skip ht hrun) hrest h
  | missed hrun => exact .missed (ha.seq_skip ht hrun)
  | stuck hrun h => exact .stuck (ha.seq_skip ht hrun) h

theorem Agrees.bind {f : α × List Char → Option (β × List Char)} (h : Agrees e₁ p never s read)
    (hf : ∀ a rest ts, read = some (a, rest) → p a ts →
      Agrees e₂ (fun b us => q b (ts ++ us)) stuck rest (f (a, rest))) :
    Agrees (.seq e₁ e₂) q stuck s (read >>= f) := by
  cases h with
  | found hrun hrest h => exact .after hrun hrest (hf _ _ _ rfl h)
  | missed hrun => exact .missed (.seq_none hrun)
  | stuck _ h => exact h.elim

/-- Where the first reader is stuck, the second expression does not help. -/
theorem Agrees.bind_stuck {f : α × List Char → Option (β × List Char)}
    (h : Agrees e₁ p stuck' s read)
    (hf : ∀ a rest ts, read = some (a, rest) → p a ts →
      Agrees e₂ (fun b us => q b (ts ++ us)) stuck rest (f (a, rest)))
    (hstuck : ∀ t, stuck' (skip t) → Agrees e₂ q stuck t none) :
    Agrees (.seq e₁ e₂) q stuck s (read >>= f) := by
  cases h with
  | found hrun hrest h => exact .after hrun hrest (hf _ _ _ rfl h)
  | missed hrun => exact .missed (.seq_none hrun)
  | stuck hrun h =>
    cases hstuck _ h with
    | missed hnext => exact .missed (hrun.seq_skip rfl hnext)
    | stuck hnext h => exact .stuck (hrun.seq_skip rfl hnext) h

theorem Passes.bind {f : List Char → Option (β × List Char)} (h : Passes e₁ w s pass)
    (hf : ∀ rest ts, pass = some rest → w ts →
      Agrees e₂ (fun b us => q b (ts ++ us)) stuck rest (f rest)) :
    Agrees (.seq e₁ e₂) q stuck s (pass >>= f) := by
  cases h with
  | found hrun hrest h => exact .after hrun hrest (hf _ _ rfl h)
  | missed hrun => exact .missed (.seq_none hrun)

/-- What was found is taken over in another form. -/
theorem Agrees.last {f : α × List Char → Option (β × List Char)} (h : Agrees e p stuck s read)
    (hf : ∀ a rest ts, p a ts → ∃ b, f (a, rest) = some (b, rest) ∧ q b ts) :
    Agrees e q stuck s (read >>= f) := by
  cases h with
  | @found a ts t rest hrun hrest h =>
    obtain ⟨b, hb, hq⟩ := hf a rest ts h
    rw [Option.bind_eq_bind, Option.bind_some, hb]
    exact .found hrun hrest hq
  | missed hrun => exact .missed hrun
  | stuck hrun h => exact .stuck hrun h

theorem Agrees.map {f : α → β} (h : Agrees e p stuck s read) (hf : ∀ a ts, p a ts → q (f a) ts) :
    Agrees e q stuck s (read.map fun r => (f r.1, r.2)) := by
  cases h with
  | found hrun hrest h => exact .found hrun hrest (hf _ _ h)
  | missed hrun => exact .missed hrun
  | stuck hrun h => exact .stuck hrun h

theorem Passes.last {b : β} (h : Passes e w s pass) (hb : ∀ ts, w ts → q b ts) :
    Agrees e q stuck s (pass >>= fun rest => some (b, rest)) := by
  cases h with
  | found hrun hrest h => exact .found hrun hrest (hb _ h)
  | missed hrun => exact .missed hrun

/-- The parts of a sequence may be grouped. -/
theorem Run.assoc {e₃ : Expr} (h : Run m (.seq (.seq e₁ e₂) e₃) s x) :
    Run m (.seq e₁ (.seq e₂ e₃)) s x := by
  generalize hfront : Expr.seq e₁ e₂ = front at h
  cases h with
  | @seq _ _ _ _ t ts y ha hb =>
    subst hfront
    generalize hfound : some (ts, t) = found at ha
    cases ha with
    | @seq _ _ _ _ t' us z ha hc =>
      cases z with
      | none => cases hfound
      | some r =>
        cases hfound
        have hrun := Run.seq ha (.seq hc hb)
        cases y with
        | none => exact hrun
        | some v => simpa using hrun
    | seq_none => cases hfound
  | seq_none ha =>
    subst hfront
    generalize hfound : (none : Outcome) = found at ha
    cases ha with
    | @seq _ _ _ _ t us z ha hc =>
      cases z with
      | none => exact .seq ha (.seq_none hc)
      | some r => cases hfound
    | seq_none ha => exact .seq_none ha

theorem Run.all_append {es fs : List Expr} (hes : es ≠ []) (hfs : fs ≠ [])
    (h : Run m (.seq (.all es) (.all fs)) s x) : Run m (.all (es ++ fs)) s x := by
  induction es generalizing s x with
  | nil => exact absurd rfl hes
  | cons e es ih =>
    cases es with
    | nil =>
      obtain ⟨f, fs, rfl⟩ := List.exists_cons_of_ne_nil hfs
      exact h
    | cons e' es =>
      cases h.assoc with
      | seq ha hb => exact .seq ha (ih (List.cons_ne_nil _ _) hb)
      | seq_none ha => exact .seq_none ha

theorem Agrees.grouped (es fs : List Expr) (hes : es ≠ []) (hfs : fs ≠ [])
    (h : Agrees (.seq (.all es) (.all fs)) p stuck s read) :
    Agrees (.all (es ++ fs)) p stuck s read := by
  cases h with
  | found hrun hrest h => exact .found (.all_append hes hfs hrun) hrest h
  | missed hrun => exact .missed (.all_append hes hfs hrun)
  | stuck hrun h => exact .stuck (.all_append hes hfs hrun) h

/-! ### Choices, options and rules -/

theorem Run.any_cons {es : List Expr} : Run m (.any (e :: es)) s x ↔
    Run m e s x ∧ x ≠ none ∨ Run m e s none ∧ Run m (.any es) s x := by
  cases es with
  | nil =>
    constructor
    · intro h
      cases x with
      | none => exact .inr ⟨h, .not_some (.nothing m s)⟩
      | some r => exact .inl ⟨h, nofun⟩
    · rintro (h | ⟨h, hnone⟩)
      · exact h.1
      · cases hnone.unique (.not_some (.nothing m s))
        exact h
  | cons e' es =>
    constructor
    · intro h
      cases h with
      | choice_left h => exact .inl ⟨h, nofun⟩
      | choice_right h hrest => exact .inr ⟨h, hrest⟩
    · rintro (⟨h, hsome⟩ | ⟨h, hrest⟩)
      · cases x with
        | none => exact absurd rfl hsome
        | some r => exact .choice_left h
      · exact .choice_right h hrest

theorem Agrees.or {other : Option (α × List Char)} (h : Agrees e₁ p never s read)
    (ho : read = none → Agrees e₂ p stuck s other) :
    Agrees (.choice e₁ e₂) p stuck s (read.or other) := by
  cases h with
  | found hrun hrest h => exact .found (.choice_left hrun) hrest h
  | missed hrun =>
    rw [Option.none_or]
    cases ho rfl with
    | found hother hrest h => exact .found (.choice_right hrun hother) hrest h
    | missed hother => exact .missed (.choice_right hrun hother)
    | stuck hother h => exact .stuck (.choice_right hrun hother) h
  | stuck _ h => exact h.elim

/-- The first expression does not match. -/
theorem Agrees.right (hnone : Run .spaced e₁ (skip s) none) (h : Agrees e₂ p stuck s read) :
    Agrees (.choice e₁ e₂) p stuck s read := by
  cases h with
  | found hrun hrest h => exact .found (.choice_right hnone hrun) hrest h
  | missed hrun => exact .missed (.choice_right hnone hrun)
  | stuck hrun h => exact .stuck (.choice_right hnone hrun) h

/-- The second expression would not match where the first one fails. -/
theorem Agrees.left (h : Agrees e₁ p stuck s read)
    (hnone : read = none → Run .spaced e₂ (skip s) none) :
    Agrees (.choice e₁ e₂) p stuck s read := by
  cases h with
  | found hrun hrest h => exact .found (.choice_left hrun) hrest h
  | missed hrun => exact .missed (.choice_right hrun (hnone rfl))
  | stuck hrun h => exact .stuck (.choice_left hrun) h

/-- Nothing is there, and the reader looks no further. -/
theorem Agrees.optional_none {a : α} (h : Run .spaced e (skip s) none) (ha : p a []) :
    Agrees (.optional e) p stuck s (some (a, s)) :=
  .found (.optional h) (skip_skip s) ha

/-- The reader has seen the start, and is stuck in front of it if the rest is missing. -/
theorem Agrees.optional (h : Agrees e p stuck s read) (hhere : stuck' (skip s))
    (hs : ∀ t, stuck t → stuck' t) : Agrees (.optional e) p stuck' s read := by
  cases h with
  | found hrun hrest h => exact .found (.optional hrun) hrest h
  | missed hrun =>
    rw [← skip_skip] at hhere
    exact .stuck (.optional hrun) hhere
  | stuck hrun h => exact .stuck (.optional hrun) (hs _ h)

/-- The tree of a rule, and what is known of the trees inside. -/
def Shown (r : Rule) (p : α → List Tree → Prop) (a : α) (ts : List Tree) : Prop :=
  ∃ text inner, ts = [⟨r, text, inner⟩] ∧ p a inner

theorem Agrees.rule (hr : r.style = .plain) (h : Agrees r.body p stuck s read) :
    Agrees (.rule r) (Shown r p) stuck s read := by
  cases h with
  | found hrun hrest h => exact .found (hrun.plain hr) hrest ⟨_, _, rfl, h⟩
  | missed hrun => exact .missed (.rule (by rwa [hr]))
  | stuck hrun h => exact .stuck (hrun.plain hr) h

/-- What is known of the tree of a rule, from what is known of the trees inside. -/
theorem Agrees.tree {p' : α → List Tree → Prop} (h : Agrees r.body p stuck s read)
    (hr : r.style = .plain) (hp : ∀ a text inner, p a inner → p' a [⟨r, text, inner⟩]) :
    Agrees (.rule r) p' stuck s read := by
  refine (Agrees.rule hr h).mono (fun a ts hshown => ?_) fun _ => id
  obtain ⟨text, inner, rfl, hinner⟩ := hshown
  exact hp a text inner hinner

theorem Agrees.silent (hr : r.style = .silent) (h : Agrees r.body p stuck s read) :
    Agrees (.rule r) p stuck s read := by
  cases h with
  | found hrun hrest h => exact .found (hrun.silent hr) hrest h
  | missed hrun => exact .missed (hrun.silent hr)
  | stuck hrun h => exact .stuck (hrun.silent hr) h

end PropertyGraph.Grammar
