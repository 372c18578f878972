import PropertyGraph.Proofs.Grammar.Statement

/-! The choice between statements. The grammar tries all statements in turn, the reader looks at
the keywords first; they go the same way, since a statement whose first keyword does not stand
there cannot match. -/

namespace PropertyGraph.Grammar

open Blank Token Draft

variable {r : Rule} {s t : List Char} {words : List String} {w : String}

/-! ### First keywords -/

/-- The keyword that a rule starts with. -/
def firstWord? (r : Rule) : Option String :=
  match r.body with
  | .seq (.rule (.keyword w)) _ => some w
  | _ => none

/-- The rules in the order in which they are tried. -/
def statementRules : List Rule :=
  [.createNode, .createRelationship, .getNode, .getNeighbors, .updateNode, .deleteNode,
    .updateRelationship, .deleteRelationship, .traverse, .findMatches, .exportTo, .importFrom]

theorem run_firstWord_none (hw : isKeyword w = true) (hr : r.style = .plain)
    (hfirst : firstWord? r = some w) (h : keyword? w s = none) :
    Run .spaced (.rule r) (skip s) none := by
  rw [firstWord?] at hfirst
  split at hfirst
  · next e hbody =>
    cases hfirst
    exact run_keyword_none hw (by rw [hr]; rfl) hbody h
  · cases hfirst

/-- Rules that do not match may be left out. -/
theorem run_filter {rs : List Rule} {q : Rule → Bool} {m : Mode} {x : Outcome}
    (h : ∀ r ∈ rs, q r = false → Run m (.rule r) s none)
    (hrun : Run m (.rules (rs.filter q)) s x) : Run m (.rules rs) s x := by
  induction rs generalizing x with
  | nil => exact hrun
  | cons r rs ih =>
    obtain ⟨hr, hrs⟩ := List.forall_mem_cons.1 h
    cases hq : q r with
    | false =>
      rw [List.filter_cons_of_neg (by rw [hq]; decide)] at hrun
      exact Run.any_cons.2 (.inr ⟨hr hq, ih hrs hrun⟩)
    | true =>
      rw [List.filter_cons_of_pos hq] at hrun
      exact Run.any_cons.2 ((Run.any_cons.1 hrun).imp_right fun h => ⟨h.1, ih hrs h.2⟩)

/-- The reader behind a first keyword, and the rules that start with it. -/
def Opens (w : String) (read : List Char → Option (Draft × List Char)) : Prop :=
  ∀ s t, keyword? w s = some t →
    Agrees (.rules (statementRules.filter (firstWord? · = some w))) StatementTree Blocked s (read t)

theorem keywords?_cons (w : String) (words : List String) (s : List Char) :
    keywords? (w :: words) s = keyword? w s >>= keywords? words := List.foldlM_cons

theorem keywords?_pair (w v : String) (s : List Char) :
    keywords? [w, v] s = keyword? w s >>= keyword? v := by
  rw [keywords?_cons]
  congr 1
  funext t
  rw [keywords?_cons]
  cases keyword? v t <;> rfl

/-- One statement with a first keyword of its own. -/
theorem Opens.one {read read' : List Char → Option (Draft × List Char)}
    (hrules : statementRules.filter (firstWord? · = some w) = [r]) (h : Begins r (w :: words) read')
    (hread : ∀ t, read t = keywords? words t >>= read') : Opens w read := by
  intro s t hw
  have hwords : keywords? (w :: words) s = keywords? words t := by
    rw [keywords?_cons, hw]
    rfl
  rw [hrules, hread]
  cases hmore : keywords? words t with
  | none => exact .missed (h.missing s (hwords.trans hmore))
  | some u => exact h.agrees s u (hwords.trans hmore)

/-- Two statements that are told apart by their second keywords. -/
theorem Opens.two {v v' : String} {r' : Rule}
    {read read₁ read₂ : List Char → Option (Draft × List Char)}
    (hrules : statementRules.filter (firstWord? · = some w) = [r, r']) (hv : isKeyword v = true)
    (hv' : isKeyword v' = true) (hne : v ≠ v') (h₁ : Begins r [w, v] read₁)
    (h₂ : Begins r' [w, v'] read₂)
    (hread : ∀ t, read t = match keyword? v t with
      | some u => read₁ u
      | none => keyword? v' t >>= read₂) : Opens w read := by
  intro s t hw
  have hpair : ∀ x, keywords? [w, x] s = keyword? x t := by
    intro x
    rw [keywords?_pair, hw]
    rfl
  rw [hrules, hread]
  cases hword : keyword? v t with
  | some u =>
    refine (h₁.agrees s u ((hpair v).trans hword)).left fun _ => h₂.missing s ?_
    exact (hpair v').trans (keyword?_none hv hv' hne hword)
  | none =>
    refine .right (h₁.missing s ((hpair v).trans hword)) ?_
    cases hword' : keyword? v' t with
    | none => exact .missed (h₂.missing s ((hpair v').trans hword'))
    | some u => exact h₂.agrees s u ((hpair v').trans hword')

theorem opens_all : ∀ o ∈ openings, Opens o.1 o.2 := by
  refine List.forall_mem_cons.2 ⟨?_, List.forall_mem_cons.2 ⟨?_, List.forall_mem_cons.2 ⟨?_,
    List.forall_mem_cons.2 ⟨?_, List.forall_mem_cons.2 ⟨?_, List.forall_mem_cons.2 ⟨?_,
      List.forall_mem_cons.2 ⟨?_, List.forall_mem_singleton.2 ?_⟩⟩⟩⟩⟩⟩⟩
  · exact .two rfl rfl rfl (by decide) begins_createNode begins_createRelationship fun _ => rfl
  · exact .two rfl rfl rfl (by decide) begins_getNode begins_getNeighbors fun _ => rfl
  · exact .two rfl rfl rfl (by decide) begins_updateNode begins_updateRelationship fun _ => rfl
  · exact .two rfl rfl rfl (by decide) begins_deleteNode begins_deleteRelationship fun _ => rfl
  · exact .one rfl begins_traverse fun _ => rfl
  · exact .one rfl begins_findMatches fun _ => rfl
  · refine .one rfl begins_exportTo fun t => ?_
    rw [keywords?_pair, bind_assoc]
    rfl
  · refine .one rfl begins_importFrom fun t => ?_
    rw [keywords?_pair, bind_assoc]
    rfl

section

variable {os : List (String × (List Char → Option (Draft × List Char)))}
  {o : String × (List Char → Option (Draft × List Char))}

/-- The reader behind the first keyword that stands there. -/
theorem findSome?_opening (hkey : ∀ o ∈ os, isKeyword o.1 = true)
    (hne : os.Pairwise fun a b => a.1 ≠ b.1) (ho : o ∈ os) (hword : keyword? o.1 s = some t) :
    (os.findSome? fun o => (keyword? o.1 s).bind o.2) = o.2 t := by
  induction os with
  | nil => cases ho
  | cons o' os ih =>
    obtain ⟨ho', hos⟩ := List.forall_mem_cons.1 hkey
    obtain ⟨hother, hne⟩ := List.pairwise_cons.1 hne
    rw [List.findSome?_cons]
    rcases List.mem_cons.1 ho with rfl | ho
    · have hnone : (os.findSome? fun o => (keyword? o.1 s).bind o.2) = none :=
        List.findSome?_eq_none_iff.2 fun x hx => by
          rw [keyword?_none ho' (hos x hx) (hother x hx) hword, Option.bind_none]
      rw [hword, Option.bind_some, hnone]
      cases o.2 t <;> rfl
    · rw [keyword?_none (hos o ho) ho' (hother o ho).symm hword, Option.bind_none]
      exact ih hos hne ho

end

theorem agrees_statement (s : List Char) :
    Agrees (.rule .statement) StatementTree Blocked s (statement? s) := by
  have hkey : ∀ o ∈ openings, isKeyword o.1 = true := by decide
  have hrules : ∀ r ∈ statementRules, r.style = .plain ∧
      ∃ o ∈ openings, firstWord? r = some o.1 := by
    decide
  have hread : statement? s = openings.findSome? fun o => (keyword? o.1 s).bind o.2 := rfl
  have hbody : Rule.body .statement = .rules statementRules := rfl
  refine .silent rfl ?_
  rw [hbody, hread]
  by_cases hword : ∃ o ∈ openings, ∃ t, keyword? o.1 s = some t
  · obtain ⟨o, ho, t, ht⟩ := hword
    rw [findSome?_opening hkey (by decide) ho ht]
    have hothers : ∀ r ∈ statementRules, decide (firstWord? r = some o.1) = false →
        Run .spaced (.rule r) (skip s) none := by
      intro r hr hne
      obtain ⟨hstyle, o', ho', hfirst⟩ := hrules r hr
      have hdiffer : o.1 ≠ o'.1 := fun heq => by
        rw [hfirst, heq] at hne
        simp at hne
      exact run_firstWord_none (hkey o' ho') hstyle hfirst
        (keyword?_none (hkey o ho) (hkey o' ho') hdiffer ht)
    have hagree := opens_all o ho s t ht
    generalize o.2 t = read at hagree ⊢
    cases hagree with
    | found hrun hrest h => exact .found (run_filter hothers hrun) hrest h
    | missed hrun => exact .missed (run_filter hothers hrun)
    | stuck hrun h => exact .stuck (run_filter hothers hrun) h
  · have hnone : ∀ o ∈ openings, keyword? o.1 s = none := fun o ho => by
      cases hread : keyword? o.1 s with
      | none => rfl
      | some t => exact absurd ⟨o, ho, t, hread⟩ hword
    have hmissed : (openings.findSome? fun o => (keyword? o.1 s).bind o.2) = none :=
      List.findSome?_eq_none_iff.2 fun o ho => by rw [hnone o ho, Option.bind_none]
    rw [hmissed]
    -- No rule can match, so all of them are left out.
    refine .missed (run_filter (q := fun _ => false) (fun r hr _ => ?_) ?_)
    · obtain ⟨hstyle, o, ho, hfirst⟩ := hrules r hr
      exact run_firstWord_none (hkey o ho) hstyle hfirst (hnone o ho)
    · exact .not_some (.nothing _ _)

end PropertyGraph.Grammar
