import PropertyGraph.Command.Statement
import PropertyGraph.Proofs.Grammar.Clause

/-! Arrows, and the steps and segments that start with them. No fault comes from their trees.
Behind an arrow a step or a segment has to follow for the reader, where the grammar stops in front
of the arrow. -/

namespace PropertyGraph.Grammar

open Blank Token Draft

variable {α : Type} {r : Rule} {s t rest : List Char} {ts us : List Tree} {w : String}

/-! ### Brackets and arrows -/

/-- Something between two symbols. -/
def bracketed? (opening closing : String) (inside : List Char → Option (α × List Char))
    (s : List Char) : Option (α × List Char) :=
  symbol? opening s >>= fun t => inside t >>= fun x =>
    symbol? closing x.2 >>= fun u => some (x.1, u)

section

variable {opening closing : String} {inside : List Char → Option (α × List Char)} {es : List Expr}
  {p : α → List Tree → Prop}

theorem agrees_bracketed (hinside : ∀ t, Agrees (.all es) p never t (inside t)) (hes : es ≠ [])
    (hr : r.style = .plain) (hbody : r.body = .all (.text opening :: (es ++ [.text closing])))
    (s : List Char) :
    Agrees (.rule r) (Shown r p) never s (bracketed? opening closing inside s) := by
  refine .rule hr ?_
  rw [hbody, ← List.singleton_append]
  refine .grouped _ _ (List.cons_ne_nil _ _) (List.append_ne_nil_of_left_ne_nil hes _) ?_
  refine (passes_symbol opening s).bind fun t ts _ hts => ?_
  refine .grouped _ _ hes (List.cons_ne_nil _ _) ?_
  refine (hinside t).bind fun x t us _ hus => ?_
  refine (passes_symbol closing t).last fun vs hvs => ?_
  cases hts
  cases hvs
  rwa [List.append_nil]

theorem run_bracketed_none (hbody : r.body = .all (.text opening :: (es ++ [.text closing])))
    (hes : es ≠ []) (h : symbol? opening s = none) : Run .spaced (.rule r) (skip s) none := by
  obtain ⟨e, es, rfl⟩ := List.exists_cons_of_ne_nil hes
  have hopen := Run.text (Mode.within .spaced r.style) opening (skip s)
  rw [show opening.toList.isPrefixOf? (skip s) = none from h] at hopen
  refine .fails ?_
  rw [hbody]
  exact .seq_none hopen

theorem symbol?_length (h : symbol? w s = some rest) :
    (skip s).length = w.length + rest.length := by
  rw [symbol?_eq h, List.length_append, String.length_toList]

theorem bracketed?_shorter (hopening : 0 < opening.length)
    (hinside : ∀ t, Agrees (.all es) p never t (inside t)) {x : α}
    (h : bracketed? opening closing inside s = some (x, rest)) :
    (skip rest).length < (skip s).length := by
  simp only [bracketed?, Option.bind_eq_bind, Option.bind_eq_some_iff, Option.some.injEq,
    Prod.mk.injEq] at h
  obtain ⟨t, ht, ⟨y, u⟩, hy, v, hv, rfl, rfl⟩ := h
  dsimp only at hv
  have hin := hinside t
  rw [hy] at hin
  have hle := hin.length_le
  have hopen := symbol?_length ht
  have hclose := symbol?_length hv
  have hskip := length_skip_le t
  have hskip' := length_skip_le v
  omega

theorem arrow?_eq (s : List Char) : arrow? inside s = match symbol? "-[" s with
    | some _ => (bracketed? "-[" "]->" inside s).map fun r => ((r.1, .outgoing), r.2)
    | none => (bracketed? "<-[" "]-" inside s).map fun r => ((r.1, .incoming), r.2) := by
  rw [arrow?, bracketed?, bracketed?]
  simp only [Option.bind_eq_bind]
  cases symbol? "-[" s with
  | some t =>
    simp only [Option.bind_some]
    cases inside t with
    | none => rfl
    | some x =>
      simp only [Option.bind_some]
      cases symbol? "]->" x.2 <;> rfl
  | none =>
    dsimp only
    cases symbol? "<-[" s with
    | none => rfl
    | some t =>
      simp only [Option.bind_some]
      cases inside t with
      | none => rfl
      | some x =>
        simp only [Option.bind_some]
        cases symbol? "]-" x.2 <;> rfl

/-- The tree of an arrow, by its direction. -/
def ArrowTree (out into : Rule) (p : α → List Tree → Prop) (x : α × Direction) (ts : List Tree) :
    Prop :=
  x.2 = .outgoing ∧ Shown out p x.1 ts ∨ x.2 = .incoming ∧ Shown into p x.1 ts

variable {out into : Rule}

theorem agrees_arrow (hinside : ∀ t, Agrees (.all es) p never t (inside t)) (hes : es ≠ [])
    (hout : out.style = .plain) (hinto : into.style = .plain)
    (hbody : out.body = .all (.text "-[" :: (es ++ [.text "]->"])))
    (hbody' : into.body = .all (.text "<-[" :: (es ++ [.text "]-"]))) (s : List Char) :
    Agrees (.choice (.rule out) (.rule into)) (ArrowTree out into p) never s (arrow? inside s) := by
  rw [arrow?_eq]
  cases hopen : symbol? "-[" s with
  | some t =>
    have hnone : symbol? "<-[" s = none := by
      rw [symbol?, symbol?_eq hopen]
      rfl
    have h : Agrees (.rule out) (ArrowTree out into p) never s
        ((bracketed? "-[" "]->" inside s).map fun r => ((r.1, .outgoing), r.2)) :=
      (agrees_bracketed hinside hes hout hbody s).map (f := (·, Direction.outgoing)) fun _ _ hx =>
        .inl ⟨rfl, hx⟩
    exact h.left fun _ => run_bracketed_none hbody' hes hnone
  | none =>
    have h : Agrees (.rule into) (ArrowTree out into p) never s
        ((bracketed? "<-[" "]-" inside s).map fun r => ((r.1, .incoming), r.2)) :=
      (agrees_bracketed hinside hes hinto hbody' s).map (f := (·, Direction.incoming)) fun _ _ hx =>
        .inr ⟨rfl, hx⟩
    exact .right (run_bracketed_none hbody hes hopen) h

theorem arrow?_shorter (hinside : ∀ t, Agrees (.all es) p never t (inside t)) {x : α × Direction}
    (h : arrow? inside s = some (x, rest)) : (skip rest).length < (skip s).length := by
  rw [arrow?_eq] at h
  split at h
  · obtain ⟨⟨y, u⟩, hy, h⟩ := Option.map_eq_some_iff.1 h
    cases h
    exact bracketed?_shorter (by decide) hinside hy
  · obtain ⟨⟨y, u⟩, hy, h⟩ := Option.map_eq_some_iff.1 h
    cases h
    exact bracketed?_shorter (by decide) hinside hy

theorem arrow?_none (h : atArrow s = false) : arrow? inside s = none := by
  rw [atArrow, Bool.or_eq_false_iff, Option.isSome_eq_false_iff, Option.isSome_eq_false_iff,
    Option.isNone_iff_eq_none, Option.isNone_iff_eq_none] at h
  rw [arrow?_eq, h.1]
  dsimp only
  rw [bracketed?, h.2]
  rfl

end

/-! ### Steps and segments -/

/-- An arrow stands here. -/
def AtArrow (t : List Char) : Prop := ∃ c u, t = c :: u ∧ (c = '-' ∨ c = '<')

theorem AtArrow.blocked (h : AtArrow t) : Blocked t := by
  obtain ⟨c, u, rfl, rfl | rfl⟩ := h
  · exact ⟨_, u, rfl, by decide⟩
  · exact ⟨_, u, rfl, by decide⟩

theorem atArrow_skip (h : atArrow s = true) : AtArrow (skip s) := by
  rw [atArrow, Bool.or_eq_true, Option.isSome_iff_exists, Option.isSome_iff_exists] at h
  rcases h with ⟨t, h⟩ | ⟨t, h⟩
  · exact ⟨'-', '[' :: t, symbol?_eq h, .inl rfl⟩
  · exact ⟨'<', '-' :: '[' :: t, symbol?_eq h, .inr rfl⟩

/-- As many items as there are arrows. -/
theorem agrees_hops {make : List Tree → Except TreeFault α}
    {one : List Char → Option (α × List Char)} {all : Nat → List Char → Option (List α × List Char)}
    (hall : ∀ fuel s, all (fuel + 1) s = if atArrow s then
      one s >>= fun x => all fuel x.2 >>= fun xs => some (x.1 :: xs.1, xs.2) else some ([], s))
    (hone : ∀ s, Agrees (.rule r) (Made r make) never s (one s))
    (hnone : ∀ s, atArrow s = false → one s = none)
    (hshorter : ∀ s x rest, one s = some (x, rest) → (skip rest).length < (skip s).length)
    (fuel : Nat) (s : List Char) (hs : (skip s).length < fuel) :
    Agrees (.star (.rule r)) (List.Forall₂ (IsMade r make)) AtArrow s (all fuel s) := by
  induction fuel generalizing s with
  | zero => exact absurd hs (Nat.not_lt_zero _)
  | succ fuel ih =>
    rw [hall]
    cases harrow : atArrow s with
    | false =>
      have hrun := hone s
      rw [hnone s harrow] at hrun
      exact .star_nil hrun.run_none .nil
    | true =>
      rw [if_pos rfl]
      refine (hone s).star_cons (fun x t ts hread hts => ?_) fun _ => atArrow_skip harrow
      have hlt := hshorter s x t hread
      obtain ⟨u, rfl, hx⟩ := hts
      exact (ih t (by omega)).last fun xs _ us hus => ⟨_, rfl, .cons hx hus⟩

/-- The tree of the kind in an arrow. -/
theorem agrees_kind (t : List Char) : Agrees (.all [.rule .kind]) (Named .kind) never t (word? t) :=
  agrees_word rfl rfl t

theorem Made.step {x : String × Direction} {l : String} {text : List Char}
    (hx : ArrowTree .outArrow .inArrow (Named .kind) x ts) (hl : Named .label l us) :
    Made .step Grammar.step ⟨x.1, x.2, some l⟩ [⟨.step, text, ts ++ us⟩] := by
  obtain ⟨k, d⟩ := x
  cases hl
  rcases hx with ⟨rfl, atext, _, rfl, rfl⟩ | ⟨rfl, atext, _, rfl, rfl⟩
  all_goals
    refine ⟨_, rfl, rfl, ?_, ?_⟩
    · simp [Grammar.step, StepParts.add, kindOf?, required, ok_bind, String.ofList_toList]
    · rw [hasDefect_unchecked rfl, List.singleton_append, defective_cons, hasDefect_unchecked rfl]
      exact not_or.2 ⟨not_defective_leaves (by simp [Rule.isChecked]),
        not_defective_leaves (by simp [Rule.isChecked])⟩

theorem agrees_step (s : List Char) :
    Agrees (.rule .step) (Made .step Grammar.step) never s (step? s) := by
  have hbody : Agrees (Rule.body .step) (fun x ts => ∃ y l us vs, x = ⟨y.1, y.2, some l⟩ ∧
      ts = us ++ vs ∧ ArrowTree .outArrow .inArrow (Named .kind) y us ∧ Named .label l vs) never s
      (step? s) := by
    refine (agrees_arrow agrees_kind (List.cons_ne_nil _ _) rfl rfl rfl rfl s).bind ?_
    rintro ⟨k, d⟩ t us - hy
    exact (agrees_word rfl rfl t).last fun l rest vs hl =>
      ⟨_, rfl, (k, d), l, us, vs, rfl, rfl, hy, hl⟩
  refine hbody.tree rfl ?_
  rintro x text _ ⟨y, l, us, vs, rfl, rfl, hy, hl⟩
  exact .step hy hl

theorem step?_shorter {x : Step} (h : step? s = some (x, rest)) :
    (skip rest).length < (skip s).length := by
  simp only [step?, Option.bind_eq_bind, Option.bind_eq_some_iff] at h
  obtain ⟨⟨y, t⟩, hy, ⟨l, u⟩, hl, h⟩ := h
  cases h
  have hlabel : Agrees (.rule .label) (Named .label) never t (word? t) := agrees_word rfl rfl t
  rw [hl] at hlabel
  exact hlabel.length_le.trans_lt (arrow?_shorter agrees_kind hy)

theorem step?_none (h : atArrow s = false) : step? s = none := by
  rw [step?, arrow?_none h]
  rfl

theorem steps?_eq (fuel : Nat) (s : List Char) : steps? (fuel + 1) s = if atArrow s then
    step? s >>= fun x => steps? fuel x.2 >>= fun xs => some (x.1 :: xs.1, xs.2)
    else some ([], s) := rfl

theorem agrees_steps (fuel : Nat) (s : List Char) (hs : (skip s).length < fuel) :
    Agrees (.star (.rule .step)) (List.Forall₂ (IsMade .step Grammar.step)) AtArrow s
      (steps? fuel s) :=
  agrees_hops steps?_eq agrees_step (fun _ => step?_none) (fun _ _ _ => step?_shorter) fuel s hs

/-- The trees of a name, if there is one, and a tag. -/
def TaggedTrees (r : Rule) (p : Option String × String) (ts : List Tree) : Prop :=
  ts = (p.1.map fun w => (⟨.variable, w.toList, []⟩ : Tree)).toList ++ [⟨r, p.2.toList, []⟩]

theorem agrees_tagged (hr : r.style = .atomic) (hbody : r.body = .rule .word) (s : List Char) :
    Agrees (.all [.optional (.rule .variable), .text ":", .rule r]) (TaggedTrees r) never s
      (tagged? s) := by
  have hname : Agrees (.rule .variable) (Named .variable) never s (word? s) := agrees_word rfl rfl s
  have htag : ∀ (n : Option String) (t : List Char),
      Agrees (.seq (.text ":") (.rule r)) (fun p us => TaggedTrees r p
        ((n.map fun w => (⟨.variable, w.toList, []⟩ : Tree)).toList ++ us)) never t
        (symbol? ":" t >>= fun u => word? u >>= fun w => some ((n, w.1), w.2)) := by
    intro n t
    refine (passes_symbol ":" t).bind fun u us _ hus => ?_
    refine (agrees_word hr hbody u).last fun w rest vs hw => ⟨_, rfl, ?_⟩
    cases hus
    cases hw
    rfl
  rw [tagged?]
  cases hread : word? s with
  | none =>
    rw [hread] at hname
    exact .after (.optional hname.run_none) (skip_skip s) (htag none s)
  | some x =>
    rw [hread] at hname
    cases hname with
    | @found w _ _ rest hrun hrest hw =>
      cases hw
      exact .after (.optional hrun) hrest (htag (some w) rest)

theorem TaggedTrees.found {p : Option String × String} (hr : r ≠ .variable)
    (h : TaggedTrees r p ts) : lastOf? r ts = some p.2 ∧ lastOf? .variable ts = p.1 := by
  obtain ⟨name, tag⟩ := p
  cases h
  cases name <;> simp [lastOf?, hr]

theorem TaggedTrees.sound {p : Option String × String} (hr : r.isChecked = false)
    (h : TaggedTrees r p ts) : ¬ Defective ts := by
  obtain ⟨name, tag⟩ := p
  cases h
  refine not_defective_leaves ?_
  cases name <;> simp [hr, show Rule.isChecked .variable = false from rfl]

theorem nodeSlot?_eq (s : List Char) : nodeSlot? s =
    (bracketed? "(" ")" tagged? s).map fun r => (⟨r.1.1, r.1.2⟩, r.2) := by
  rw [nodeSlot?, bracketed?]
  simp only [Option.bind_eq_bind]
  cases symbol? "(" s with
  | none => rfl
  | some t =>
    simp only [Option.bind_some]
    cases tagged? t with
    | none => rfl
    | some x =>
      simp only [Option.bind_some]
      cases symbol? ")" x.2 <;> rfl

theorem agrees_nodeSlot (s : List Char) :
    Agrees (.rule .nodeSlot) (Made .nodeSlot Grammar.nodeSlot) never s (nodeSlot? s) := by
  rw [nodeSlot?_eq]
  have hslot : Agrees (.rule .nodeSlot) (Shown .nodeSlot (TaggedTrees .label)) never s
      (bracketed? "(" ")" tagged? s) :=
    agrees_bracketed (agrees_tagged rfl rfl) (List.cons_ne_nil _ _) rfl rfl s
  refine hslot.map (f := fun p => NodeSlot.mk p.1 p.2) fun p ts h => ?_
  obtain ⟨text, inner, rfl, h⟩ := h
  obtain ⟨htag, hname⟩ := h.found (by decide)
  refine ⟨_, rfl, rfl, ?_, ?_⟩
  · rw [Grammar.nodeSlot, htag, hname]
    rfl
  · rw [hasDefect_unchecked rfl]
    exact h.sound rfl

theorem agrees_kindSlot (t : List Char) :
    Agrees (.all [.optional (.rule .variable), .text ":", .rule .kind]) (TaggedTrees .kind) never t
      (tagged? t) :=
  agrees_tagged rfl rfl t

theorem Made.segment {x : (Option String × String) × Direction} {n : NodeSlot} {text : List Char}
    (hx : ArrowTree .outEdge .inEdge (TaggedTrees .kind) x ts)
    (hn : Made .nodeSlot Grammar.nodeSlot n us) :
    Made .segment Grammar.segment (⟨x.1.1, x.1.2, x.2⟩, n) [⟨.segment, text, ts ++ us⟩] := by
  obtain ⟨p, d⟩ := x
  obtain ⟨t, rfl, hrule, heq, hsound⟩ := hn
  have hnode : ∀ found, addSegmentPart found t = .ok (found.1, some n) := by
    intro found
    rw [addSegmentPart, hrule, heq]
    rfl
  have hslot : ∀ {inner : List Tree}, TaggedTrees .kind p inner →
      relationshipSlot d inner = .ok ⟨p.1, p.2, d⟩ := by
    intro inner h
    obtain ⟨htag, hname⟩ := h.found (by decide)
    rw [relationshipSlot, htag, hname]
    rfl
  rcases hx with ⟨rfl, etext, inner, rfl, h⟩ | ⟨rfl, etext, inner, rfl, h⟩
  all_goals
    refine ⟨_, rfl, rfl, ?_, ?_⟩
    · rw [Grammar.segment, List.singleton_append, List.foldlM_cons, addSegmentPart, hslot h]
      simp only [Except.map, ok_bind, List.foldlM_cons, List.foldlM_nil, hnode]
      rfl
    · rw [hasDefect_unchecked rfl, List.singleton_append, defective_cons, hasDefect_unchecked rfl,
        defective_singleton]
      exact not_or.2 ⟨h.sound rfl, hsound⟩

theorem agrees_segment (s : List Char) :
    Agrees (.rule .segment) (Made .segment Grammar.segment) never s (segment? s) := by
  have hbody : Agrees (Rule.body .segment) (fun x ts => ∃ y n us vs,
      x = (⟨y.1.1, y.1.2, y.2⟩, n) ∧ ts = us ++ vs ∧
        ArrowTree .outEdge .inEdge (TaggedTrees .kind) y us ∧
          Made .nodeSlot Grammar.nodeSlot n vs) never s (segment? s) := by
    refine (agrees_arrow agrees_kindSlot (List.cons_ne_nil _ _) rfl rfl rfl rfl s).bind ?_
    rintro ⟨⟨name, k⟩, d⟩ t us - hy
    exact (agrees_nodeSlot t).last fun n rest vs hn =>
      ⟨_, rfl, ((name, k), d), n, us, vs, rfl, rfl, hy, hn⟩
  refine hbody.tree rfl ?_
  rintro x text _ ⟨y, n, us, vs, rfl, rfl, hy, hn⟩
  exact .segment hy hn

theorem segment?_shorter {x : RelationshipSlot × NodeSlot} (h : segment? s = some (x, rest)) :
    (skip rest).length < (skip s).length := by
  simp only [segment?, Option.bind_eq_bind, Option.bind_eq_some_iff] at h
  obtain ⟨⟨y, t⟩, hy, ⟨n, u⟩, hn, h⟩ := h
  cases h
  have hnode := agrees_nodeSlot t
  rw [hn] at hnode
  exact hnode.length_le.trans_lt (arrow?_shorter agrees_kindSlot hy)

theorem segment?_none (h : atArrow s = false) : segment? s = none := by
  rw [segment?, arrow?_none h]
  rfl

theorem segments?_eq (fuel : Nat) (s : List Char) : segments? (fuel + 1) s = if atArrow s then
    segment? s >>= fun x => segments? fuel x.2 >>= fun xs => some (x.1 :: xs.1, xs.2)
    else some ([], s) := rfl

theorem agrees_segments (fuel : Nat) (s : List Char) (hs : (skip s).length < fuel) :
    Agrees (.star (.rule .segment)) (List.Forall₂ (IsMade .segment Grammar.segment)) AtArrow s
      (segments? fuel s) :=
  agrees_hops segments?_eq agrees_segment (fun _ => segment?_none) (fun _ _ _ => segment?_shorter)
    fuel s hs

end PropertyGraph.Grammar
