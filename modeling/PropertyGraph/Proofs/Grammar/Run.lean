import Mathlib.Data.List.Infix
import PropertyGraph.Proofs.Grammar.Syntax

/-! Runs of expressions over a text. A run fails or leaves the rest of the text, with the trees
of the rules that matched. An expression has at most one run on a text, so a text has at most
one tree. -/

namespace PropertyGraph.Grammar

open Token (afterFolded?)

/-- A rule that matched, the text it matched and the trees of the rules inside. -/
structure Tree where
  rule : Rule
  text : List Char
  inner : List Tree

/-- Trees and the rest of the text, or nothing if an expression does not match. -/
abbrev Outcome := Option (List Tree × List Char)

/-- Between the parts of a rule there may be blanks, or none, or none and no trees either. -/
inductive Mode where
  | spaced
  | compound
  | atomic
deriving DecidableEq

namespace Mode

/-- Where the next part of an expression starts. -/
def next : Mode → List Char → List Char
  | .spaced, s => Blank.skip s
  | _, s => s

/-- The mode inside a rule. -/
def within (m : Mode) : Rule.Style → Mode
  | .plain | .silent => m
  | .atomic => .atomic
  | .compound => .compound

end Mode

/-- What was read of a text whose rest is known. -/
def consumed (s rest : List Char) : List Char := s.take (s.length - rest.length)

/-- The tree of a rule stands for the trees inside, if the rule shows. -/
def Rule.shown (r : Rule) (m : Mode) (s : List Char) : Outcome → Outcome
  | none => none
  | some (ts, rest) =>
    some (if r.style = .silent then ts else if m = .atomic then [] else
      [⟨r, consumed s rest, ts⟩], rest)

/-- A character of a kind at the front of a text. -/
def afterChar? (p : Char → Bool) : List Char → Option (List Char)
  | [] => none
  | c :: s => if p c then some s else none

/-- What follows, without any tree. -/
def bare (rest : Option (List Char)) : Outcome := rest.map fun s => ([], s)

inductive Run : Mode → Expr → List Char → Outcome → Prop where
  | text (m : Mode) (w : String) (s : List Char) :
    Run m (.text w) s (bare (w.toList.isPrefixOf? s))
  | folded (m : Mode) (w : String) (s : List Char) :
    Run m (.folded w) s (bare (afterFolded? (w.toList.map Char.toUpper) s))
  | char (m : Mode) (p : Char → Bool) (s : List Char) : Run m (.char p) s (bare (afterChar? p s))
  | nothing (m : Mode) (s : List Char) : Run m .nothing s (some ([], s))
  | ending (m : Mode) (s : List Char) :
    Run m .ending s (bare (if s.isEmpty then some s else none))
  | rule {m : Mode} {r : Rule} {s : List Char} {x : Outcome} :
    Run (m.within r.style) r.body s x → Run m (.rule r) s (r.shown m s x)
  | seq {m : Mode} {a b : Expr} {s t : List Char} {ts : List Tree} {x : Outcome} :
    Run m a s (some (ts, t)) → Run m b (m.next t) x →
    Run m (.seq a b) s (x.map fun r => (ts ++ r.1, r.2))
  | seq_none {m : Mode} {a b : Expr} {s : List Char} :
    Run m a s none → Run m (.seq a b) s none
  | choice_left {m : Mode} {a b : Expr} {s : List Char} {r : List Tree × List Char} :
    Run m a s (some r) → Run m (.choice a b) s (some r)
  | choice_right {m : Mode} {a b : Expr} {s : List Char} {x : Outcome} :
    Run m a s none → Run m b s x → Run m (.choice a b) s x
  | optional {m : Mode} {a : Expr} {s : List Char} {x : Outcome} :
    Run m a s x → Run m (.optional a) s (some (x.getD ([], s)))
  | star_none {m : Mode} {a : Expr} {s : List Char} :
    Run m a s none → Run m (.star a) s (some ([], s))
  | star_some {m : Mode} {a : Expr} {s t u : List Char} {ts us : List Tree} :
    Run m a s (some (ts, t)) → Run m (.again a) t (some (us, u)) →
    Run m (.star a) s (some (ts ++ us, u))
  | again_none {m : Mode} {a : Expr} {s : List Char} :
    Run m a (m.next s) none → Run m (.again a) s (some ([], s))
  | again_some {m : Mode} {a : Expr} {s t u : List Char} {ts us : List Tree} :
    Run m a (m.next s) (some (ts, t)) → Run m (.again a) t (some (us, u)) →
    Run m (.again a) s (some (ts ++ us, u))
  | not_none {m : Mode} {a : Expr} {s : List Char} :
    Run m a s none → Run m (.not a) s (some ([], s))
  | not_some {m : Mode} {a : Expr} {s : List Char} {r : List Tree × List Char} :
    Run m a s (some r) → Run m (.not a) s none

/-- The whole text is matched by the rule, and this is its tree. -/
def Parses (r : Rule) (s : List Char) (t : Tree) : Prop :=
  Run .spaced (.rule r) s (some ([t], []))

variable {m : Mode} {e : Expr} {r : Rule} {s : List Char} {x y : Outcome}

/-! ### One run at most -/

theorem Run.unique (hx : Run m e s x) (hy : Run m e s y) : x = y := by
  induction hx generalizing y with
  | text | folded | char | nothing | ending =>
    cases hy
    rfl
  | rule _ ih =>
    cases hy with
    | rule h => rw [ih h]
  | seq _ _ iha ihb =>
    cases hy with
    | seq ha hb =>
      cases iha ha
      rw [ihb hb]
    | seq_none ha => cases iha ha
  | seq_none _ ih =>
    cases hy with
    | seq ha _ => cases ih ha
    | seq_none => rfl
  | choice_left _ ih =>
    cases hy with
    | choice_left h => exact ih h
    | choice_right h _ => cases ih h
  | choice_right _ _ iha ihb =>
    cases hy with
    | choice_left h => cases iha h
    | choice_right _ h => exact ihb h
  | optional _ ih =>
    cases hy with
    | optional h => rw [ih h]
  | star_none _ ih =>
    cases hy with
    | star_none => rfl
    | star_some h _ => cases ih h
  | star_some _ _ iha ihb =>
    cases hy with
    | star_none h => cases iha h
    | star_some ha hb =>
      cases iha ha
      cases ihb hb
      rfl
  | again_none _ ih =>
    cases hy with
    | again_none => rfl
    | again_some h _ => cases ih h
  | again_some _ _ iha ihb =>
    cases hy with
    | again_none h => cases iha h
    | again_some ha hb =>
      cases iha ha
      cases ihb hb
      rfl
  | not_none _ ih =>
    cases hy with
    | not_none => rfl
    | not_some h => cases ih h
  | not_some _ ih =>
    cases hy with
    | not_none h => cases ih h
    | not_some => rfl

theorem Parses.unique {t u : Tree} (ht : Parses r s t) (hu : Parses r s u) : t = u := by
  cases Run.unique ht hu
  rfl

/-! ### What a run leaves -/

theorem afterFolded?_eq {ws rest : List Char} (h : afterFolded? ws s = some rest) :
    ∃ t, s = t ++ rest ∧ t.map Char.toUpper = ws := by
  induction ws generalizing s with
  | nil =>
    cases h
    exact ⟨[], rfl, rfl⟩
  | cons c ws ih =>
    cases s with
    | nil => cases h
    | cons d s =>
      rw [afterFolded?] at h
      split at h
      · next hd =>
        obtain ⟨t, rfl, ht⟩ := ih h
        exact ⟨d :: t, rfl, by rw [List.map_cons, hd, ht]⟩
      · cases h

theorem next_suffix (m : Mode) (s : List Char) : m.next s <:+ s := by
  cases m with
  | spaced => exact List.dropWhile_suffix _
  | _ => exact List.suffix_rfl

/-- A run leaves the end of its text. -/
theorem Run.suffix (h : Run m e s x) : ∀ ts t, x = some (ts, t) → t <:+ s := by
  induction h with
  | text =>
    intro ts t h
    obtain ⟨u, hu, h⟩ := Option.map_eq_some_iff.1 h
    cases h
    exact ⟨_, List.isPrefixOf?_eq_some_iff_append_eq.1 hu⟩
  | folded =>
    intro ts t h
    obtain ⟨u, hu, h⟩ := Option.map_eq_some_iff.1 h
    cases h
    obtain ⟨v, hv, -⟩ := afterFolded?_eq hu
    exact ⟨v, hv.symm⟩
  | char m p s =>
    intro ts t h
    obtain ⟨u, hu, h⟩ := Option.map_eq_some_iff.1 h
    cases h
    cases s with
    | nil => cases hu
    | cons c s =>
      rw [afterChar?] at hu
      split at hu
      · cases hu
        exact List.suffix_cons c _
      · cases hu
  | nothing =>
    rintro _ _ ⟨⟩
    exact List.suffix_rfl
  | ending m s =>
    intro ts t h
    obtain ⟨u, hu, h⟩ := Option.map_eq_some_iff.1 h
    cases h
    split at hu
    · cases hu
      exact List.suffix_rfl
    · cases hu
  | @rule m r s x _ ih =>
    intro ts t h
    cases x with
    | none => cases h
    | some p =>
      cases h
      exact ih _ _ rfl
  | @seq m a b s t ts x _ _ iha ihb =>
    intro us u h
    obtain ⟨⟨vs, v⟩, hv, h⟩ := Option.map_eq_some_iff.1 h
    cases h
    exact ((ihb _ _ hv).trans (next_suffix m t)).trans (iha _ _ rfl)
  | seq_none | not_some => nofun
  | choice_left _ ih => exact ih
  | choice_right _ _ _ ih => exact ih
  | @optional m a s x _ ih =>
    intro ts t h
    cases x with
    | none =>
      cases h
      exact List.suffix_rfl
    | some p =>
      cases h
      exact ih _ _ rfl
  | star_none | not_none | again_none =>
    rintro _ _ ⟨⟩
    exact List.suffix_rfl
  | star_some _ _ iha ihb =>
    rintro _ _ ⟨⟩
    exact (ihb _ _ rfl).trans (iha _ _ rfl)
  | @again_some m a s t u ts us _ _ iha ihb =>
    rintro _ _ ⟨⟩
    exact ((ihb _ _ rfl).trans (iha _ _ rfl)).trans (next_suffix m s)

end PropertyGraph.Grammar
