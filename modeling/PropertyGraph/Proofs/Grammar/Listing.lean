import PropertyGraph.Proofs.Grammar.Tight

/-! Repetitions, and lists between brackets, with commas between the items. The reader takes what
follows a comma for an item; the grammar, where no item follows, stops in front of the comma, and
then there is no closing bracket. -/

namespace PropertyGraph.Grammar

open Blank Token

variable {α : Type} {m : Mode} {item e : Expr} {close : Char} {s t u rest : List Char}
  {ts us : List Tree} {p : α → List Tree → Prop} {q : List α → List Tree → Prop}

/-- In a repetition the items after the first are found as the first one is, behind blanks. -/
theorem Run.again_of_star (h : Run .spaced (.star e) (skip t) (some (ts, u))) :
    ∃ v, Run .spaced (.again e) t (some (ts, v)) ∧ skip v = skip u := by
  cases h with
  | star_none h => exact ⟨t, .again_none h, (skip_skip t).symm⟩
  | star_some h hrest => exact ⟨u, .again_some h hrest, rfl⟩

theorem Run.not_star_none (h : Run m (.star e) s none) : False := nomatch h

/-- One more item of a repetition. Where it is missing, the repetition ends in front of it. -/
theorem Agrees.star_cons {β : Type} {q : β → List Tree → Prop} {stuck : List Char → Prop}
    {one : Option (α × List Char)} {f : α × List Char → Option (β × List Char)}
    (hone : Agrees e p never s one)
    (hf : ∀ a rest ts, one = some (a, rest) → p a ts →
      Agrees (.star e) (fun b us => q b (ts ++ us)) stuck rest (f (a, rest)))
    (hnone : one = none → stuck (skip s)) : Agrees (.star e) q stuck s (one >>= f) := by
  cases hone with
  | @found a ts t rest hrun hrest hp =>
    have hmore := hf a rest ts rfl hp
    rw [Option.bind_eq_bind, Option.bind_some]
    generalize f (a, rest) = read at hmore
    cases hmore with
    | @found b us u rest' hstar hu hq =>
      rw [← hrest] at hstar
      obtain ⟨v, hagain, hv⟩ := hstar.again_of_star
      exact .found (.star_some hrun hagain) (hv.trans hu) hq
    | missed hstar => exact hstar.not_star_none.elim
    | stuck hstar hstuck =>
      rw [← hrest] at hstar
      obtain ⟨v, hagain, hv⟩ := hstar.again_of_star
      exact .stuck (.star_some hrun hagain) (hv ▸ hstuck)
  | missed hrun =>
    refine .stuck (.star_none hrun) ?_
    rw [skip_skip]
    exact hnone rfl
  | stuck _ h => exact h.elim

theorem Agrees.star_nil {β : Type} {q : β → List Tree → Prop} {stuck : List Char → Prop} {b : β}
    (h : Run .spaced e (skip s) none) (hb : q b []) :
    Agrees (.star e) q stuck s (some (b, s)) :=
  .found (.star_none h) (skip_skip s) hb

/-- What follows an item, up to the closing bracket. -/
def moreItems (item : Expr) : Expr := .star (.seq (.text ",") item)

/-- Items up to the closing bracket, which the grammar leaves. -/
inductive Listed (item : Expr) (close : Char) (q : List α → List Tree → Prop) (s : List Char) :
    Option (List α × List Char) → Prop where
  | found {as : List α} {ts us : List Tree} {t u rest : List Char} :
    Run .spaced item (skip s) (some (ts, t)) →
    Run .spaced (moreItems item) (skip t) (some (us, u)) → skip u = close :: rest →
    q as (ts ++ us) → Listed item close q s (some (as, rest))
  | missed : Run .spaced item (skip s) none → Listed item close q s none
  | unclosed {ts us : List Tree} {t u : List Char} :
    Run .spaced item (skip s) (some (ts, t)) →
    Run .spaced (moreItems item) (skip t) (some (us, u)) → (∀ v, skip u ≠ close :: v) →
    Listed item close q s none

theorem moreItems_stop (h : ∀ v, s ≠ ',' :: v) :
    Run .spaced (moreItems item) s (some ([], s)) :=
  .star_none (.seq_none (.text_missing rfl h))

/-- A comma with nothing behind it that is an item. -/
theorem moreItems_comma (h : Run .spaced item (skip t) none) :
    Run .spaced (moreItems item) (',' :: t) (some ([], ',' :: t)) := by
  have hcomma : Run .spaced (.text ",") (',' :: t) (some ([], t)) := .text_self (d := ',') rfl t
  exact .star_none (hcomma.seq_skip rfl h)

theorem moreItems_cons (h : Run .spaced item (skip t) (some (ts, u)))
    (hmore : Run .spaced (moreItems item) (skip u) (some (us, rest))) :
    ∃ v, Run .spaced (moreItems item) (',' :: t) (some (ts ++ us, v)) ∧ skip v = skip rest := by
  have hcomma : Run .spaced (.text ",") (',' :: t) (some ([], t)) := .text_self (d := ',') rfl t
  have hitem := hcomma.seq_skip rfl h
  rw [Option.map_some, List.nil_append] at hitem
  obtain ⟨v, hagain, hv⟩ := Run.again_of_star hmore
  exact ⟨v, .star_some hitem hagain, hv⟩

/-- One item, and what the reader does behind it. -/
theorem Listed.cons {one : Option (α × List Char)}
    {f : α × List Char → Option (List α × List Char)}
    {g : List Char → Option (List α × List Char)} (hclose : close ≠ ',')
    (hone : Agrees item p never s one)
    (hmore : ∀ a rest t, one = some (a, rest) → skip rest = ',' :: t →
      f (a, rest) = (g t).map (fun r => (a :: r.1, r.2)) ∧ Listed item close q t (g t))
    (hlast : ∀ a rest t, skip rest = close :: t → f (a, rest) = some ([a], t))
    (hother : ∀ a rest, (∀ t, skip rest ≠ ',' :: t) → (∀ t, skip rest ≠ close :: t) →
      f (a, rest) = none)
    (hnil : ∀ a ts, p a ts → q [a] ts)
    (hcons : ∀ a as ts us, p a ts → q as us → q (a :: as) (ts ++ us)) :
    Listed item close q s (one >>= f) := by
  cases hone with
  | missed hrun => exact .missed hrun
  | stuck _ h => exact h.elim
  | @found a ts t rest hrun hrest hp =>
    rw [Option.bind_eq_bind, Option.bind_some]
    by_cases hcomma : ∃ v, skip rest = ',' :: v
    · obtain ⟨v, hv⟩ := hcomma
      obtain ⟨hf, hlisted⟩ := hmore a rest v rfl hv
      rw [hf]
      have hne : ∀ w, skip (',' :: v) ≠ close :: w := by
        intro w
        rw [skip_cons rfl]
        rintro ⟨⟩
        exact hclose rfl
      generalize g v = list at hlisted
      cases hlisted with
      | @found as us ws x y z hitem hrest' hz hq =>
        obtain ⟨y', hall, hy'⟩ := moreItems_cons hitem hrest'
        rw [← hv, ← hrest] at hall
        exact .found hrun hall (hy'.trans hz) (hcons a as ts (us ++ ws) hp hq)
      | missed hitem =>
        -- The grammar gives the comma back, so there is no closing bracket where it stops.
        have hall := moreItems_comma hitem
        rw [← hv, ← hrest] at hall
        refine .unclosed hrun hall ?_
        rwa [hrest, hv]
      | unclosed hitem hrest' hopen =>
        obtain ⟨y', hall, hy'⟩ := moreItems_cons hitem hrest'
        rw [← hv, ← hrest] at hall
        exact .unclosed hrun hall (hy' ▸ hopen)
    · have hstop : Run .spaced (moreItems item) (skip t) (some ([], skip t)) :=
        moreItems_stop fun v hv => hcomma ⟨v, hrest ▸ hv⟩
      by_cases hend : ∃ v, skip rest = close :: v
      · obtain ⟨v, hv⟩ := hend
        rw [hlast a rest v hv]
        refine .found hrun hstop ?_ ?_
        · rw [skip_skip, hrest, hv]
        · rw [List.append_nil]
          exact hnil a ts hp
      · rw [hother a rest (fun v hv => hcomma ⟨v, hv⟩) fun v hv => hend ⟨v, hv⟩]
        refine .unclosed hrun hstop fun v hv => hend ⟨v, ?_⟩
        rwa [skip_skip, hrest] at hv

/-- The whole list behind its opening bracket. An item does not start like the closing one. -/
theorem Listed.enclosed {w : String} {list : Option (List α × List Char)}
    (hw : w.toList = [close]) (hitem : ∀ t, Run .spaced item (close :: t) none) (hnil : q [] [])
    (h : symbol? w s = none → Listed item close q s list) :
    Agrees (.seq (.listed item) (.text w)) q never s (match symbol? w s with
      | some rest => some ([], rest)
      | none => list) := by
  have hsymbol : ∀ {x}, symbol? w s = x → [close].isPrefixOf? (skip s) = x := by
    rintro x rfl
    rw [symbol?, hw]
  have hlacks : symbol? w s = none → ∀ v, skip s ≠ close :: v := by
    intro hnone v hv
    have h := hsymbol hnone
    rw [hv] at h
    simp [List.isPrefixOf?] at h
  cases hs : symbol? w s with
  | some rest =>
    have hskip : skip s = close :: rest :=
      (List.isPrefixOf?_eq_some_iff_append_eq.1 (hsymbol hs)).symm
    have hnone : Run .spaced (.listed item) (skip s) (some ([], skip s)) := by
      rw [hskip]
      exact .optional (.seq_none (hitem rest))
    have hclose : Run .spaced (.text w) (skip s) (some ([], rest)) := by
      rw [hskip]
      exact .text_self hw rest
    exact .found (hnone.seq_skip (skip_skip s) hclose) rfl hnil
  | none =>
    cases h hs with
    | @found as ts us t u rest hfirst hmore hu hq =>
      have hlist : Run .spaced (.listed item) (skip s) (some (ts ++ us, u)) :=
        .optional (hfirst.seq_skip rfl hmore)
      have hclose : Run .spaced (.text w) (skip u) (some ([], rest)) := by
        rw [hu]
        exact .text_self hw rest
      have hrun := hlist.seq_skip rfl hclose
      rw [Option.map_some, List.append_nil] at hrun
      exact .found hrun rfl hq
    | missed hfirst =>
      have hlist : Run .spaced (.listed item) (skip s) (some ([], skip s)) :=
        .optional (.seq_none hfirst)
      have hclose : Run .spaced (.text w) (skip s) none := .text_missing hw (hlacks hs)
      exact .missed (hlist.seq_skip (skip_skip s) hclose)
    | @unclosed ts us t u hfirst hmore hopen =>
      have hlist : Run .spaced (.listed item) (skip s) (some (ts ++ us, u)) :=
        .optional (hfirst.seq_skip rfl hmore)
      exact .missed (hlist.seq_skip rfl (.text_missing hw hopen))

end PropertyGraph.Grammar
