import PropertyGraph.Proofs.Condition
import PropertyGraph.Proofs.Pattern.Admission
import PropertyGraph.Proofs.Pattern.Matching
import PropertyGraph.Proofs.Traversal.Trail

/-! Traversing and matching. The steps of a traversal that names every label make a
template, whose slots all have variables of their own; the condition is renamed so that it
asks for the variable of the first slot of a name. The paths of the traversal are then
those of the matches that begin at its start, in the same order: both are the trails from
there, told by their ranks. -/

namespace PropertyGraph

namespace Template

variable {s : Store} {t : Template} {condition : Condition} {p : Path} {n m : Node} {x : String}

/-- The variable and the tag of every slot, in the order along a path. -/
def slots (t : Template) : List (Option String × String) :=
  (t.start.name, t.start.label) ::
    t.segments.flatMap fun (rs, ns) => [(rs.name, rs.kind), (ns.name, ns.label)]

/-- The variable of the first slot with this label or kind. -/
def variableOf (t : Template) (x : String) : String :=
  ((t.slots.find? (·.2 == x)).bind Prod.fst).getD x

/-- The template asks for the steps from a node, and gives every slot a variable. -/
structure Mirrors (t : Template) (label : String) (steps : List Step) : Prop where
  label : t.start.label = label
  steps : t.segments.map stepOf = steps
  distinct : t.Distinct

/-! ### Slots of a path -/

theorem walks_iff_follows {segments : List (RelationshipSlot × NodeSlot)}
    {hops : List (Relationship × Node)} :
    Walks s n segments hops ↔ Follows s n (segments.map stepOf) hops := by
  constructor
  · intro h
    induction h with
    | nil n => exact .nil n
    | cons hr hkind hm hlabel hjoins _ ih =>
      refine .cons hr hm ⟨hkind, hjoins, fun l hl => ?_⟩ ih
      cases hl
      exact hlabel
  · intro h
    induction segments generalizing n hops with
    | nil =>
      rw [follows_nil_iff.1 h]
      exact .nil n
    | cons segment segments ih =>
      cases h with
      | cons hr hm hserves hrest =>
        exact .cons hr hserves.kind hm (hserves.label _ rfl) hserves.joins (ih hrest)

theorem tags_of_walks {segments : List (RelationshipSlot × NodeSlot)}
    {hops : List (Relationship × Node)} (h : Walks s n segments hops) :
    (hops.flatMap fun (r, m) => [Entity.relationship r, .node m]).map Entity.tag =
      (segments.flatMap fun (rs, ns) =>
        [(rs.name, rs.kind), (ns.name, ns.label)]).map Prod.snd := by
  induction h with
  | nil n => rfl
  | cons _ hkind _ hlabel _ _ ih =>
    rw [List.flatMap_cons, List.flatMap_cons, List.map_append, List.map_append, ih]
    simp [Entity.tag, hkind, hlabel]

theorem Fits.tags_eq (h : t.Fits s p) : p.entities.map Entity.tag = t.slots.map Prod.snd := by
  rw [Path.entities, slots, List.map_cons, List.map_cons, tags_of_walks h.walks]
  simp [Entity.tag, h.start_label]

theorem zip_slots_entities {segments : List (RelationshipSlot × NodeSlot)}
    {hops : List (Relationship × Node)} (h : hops.length = segments.length) :
    ((segments.flatMap fun (rs, ns) => [(rs.name, rs.kind), (ns.name, ns.label)]).map Prod.fst).zip
        (hops.flatMap fun (r, m) => [Entity.relationship r, .node m]) =
      (segments.zip hops).flatMap filledSegment := by
  induction segments generalizing hops with
  | nil => simp
  | cons segment segments ih =>
    cases hops with
    | nil => cases h
    | cons hop hops =>
      simp only [List.zip_cons_cons, List.flatMap_cons, ← ih (Nat.succ.inj h)]
      rfl

theorem Fits.filled_eq (h : t.Fits s p) :
    t.filled p = (t.slots.map Prod.fst).zip p.entities := by
  rw [filled, ← zip_slots_entities h.walks.length_eq]
  rfl

/-! ### Names -/

/-- The first entity with a tag stands in the first slot with this tag. -/
theorem find?_tag_of_mem {slots : List (Option String × String)} {entities : List Entity}
    (h : entities.map Entity.tag = slots.map Prod.snd) (hx : x ∈ slots.map Prod.snd) :
    ∃ name e, slots.find? (·.2 == x) = some (name, x) ∧ entities.find? (·.tag == x) = some e ∧
      (name, e) ∈ (slots.map Prod.fst).zip entities := by
  induction slots generalizing entities with
  | nil => cases hx
  | cons slot slots ih =>
    obtain ⟨name, tag⟩ := slot
    cases entities with
    | nil => cases h
    | cons e entities =>
      obtain ⟨htag, htags⟩ := List.cons.inj h
      by_cases heq : tag = x
      · subst heq
        exact ⟨name, e, by simp, by simp [htag], List.mem_cons_self⟩
      · have hrest := (List.mem_cons.1 hx).resolve_left (Ne.symm heq)
        obtain ⟨name', e', hslot, hentity, hmem⟩ := ih htags hrest
        refine ⟨name', e', ?_, ?_, List.mem_cons_of_mem _ hmem⟩
        · rw [List.find?_cons_of_neg (by simpa using heq), hslot]
        · rw [List.find?_cons_of_neg (by simpa [htag] using heq), hentity]

theorem map_fst_slots_perm (t : Template) :
    (t.slots.map Prod.fst).Perm (t.nodeNames ++ t.relationshipNames) := by
  have hsegments : ∀ segments : List (RelationshipSlot × NodeSlot),
      ((segments.flatMap fun (rs, ns) => [(rs.name, rs.kind), (ns.name, ns.label)]).map
        Prod.fst).Perm (segments.map (·.2.name) ++ segments.map (·.1.name)) := by
    intro segments
    induction segments with
    | nil => exact .refl _
    | cons segment segments ih =>
      simp only [List.flatMap_cons, List.map_cons, List.cons_append, List.nil_append]
      refine (List.Perm.swap _ _ _).trans (.cons _ ?_)
      exact (List.Perm.cons _ ih).trans List.perm_middle.symm
  simp only [slots, nodeNames, nodeSlots, relationshipNames, relationshipSlots, List.map_cons,
    List.map_map, List.cons_append]
  exact (hsegments t.segments).cons _

theorem Distinct.variableOf_mem (h : t.Distinct) (hx : x ∈ t.slots.map Prod.snd) :
    ∃ y, t.slots.find? (·.2 == x) = some (some y, x) ∧ t.variableOf x = y := by
  obtain ⟨slot, hslot⟩ : ∃ slot, t.slots.find? (·.2 == x) = some slot := by
    rw [← Option.isSome_iff_exists, List.find?_isSome]
    obtain ⟨slot, hmem, rfl⟩ := List.mem_map.1 hx
    exact ⟨slot, hmem, beq_self_eq_true _⟩
  obtain ⟨name, tag⟩ := slot
  have htag : tag = x := by simpa using List.find?_some hslot
  have hname : name ∈ t.nodeNames ++ t.relationshipNames :=
    t.map_fst_slots_perm.mem_iff.1 (List.mem_map.2 ⟨_, List.mem_of_find?_eq_some hslot, rfl⟩)
  obtain ⟨y, rfl⟩ := Option.ne_none_iff_exists'.1 fun hnone => h.named (hnone ▸ hname)
  exact ⟨y, htag ▸ hslot, by rw [variableOf, hslot]; rfl⟩

/-- What the variable of a name is bound to is what the name denotes on the path. -/
theorem bindings_variableOf (hs : s.Invariant) (hcheck : t.check s condition = .ok ())
    (hdistinct : t.Distinct) (hfits : t.Fits s p) (hx : x ∈ t.slots.map Prod.snd) :
    (t.matchOf p).bindings.get? (t.variableOf x) = p.environment x := by
  obtain ⟨name, e, hslot, hentity, hmem⟩ := find?_tag_of_mem hfits.tags_eq hx
  obtain ⟨y, hy, hvariable⟩ := hdistinct.variableOf_mem hx
  cases hslot.symm.trans hy
  rw [← hfits.filled_eq] at hmem
  rw [hvariable, (binds_matchOf hs hcheck hfits).get? y e hmem, p.environment_eq_find?, hentity]

theorem eval_rename_variableOf (hs : s.Invariant) (hcheck : t.check s condition = .ok ())
    (hdistinct : t.Distinct) (hfits : t.Fits s p) {c : Condition}
    (hnames : ∀ x ∈ c.mentions, x ∈ t.slots.map Prod.snd) :
    (c.rename t.variableOf).eval (t.matchOf p).environment = c.eval p.environment := by
  rw [Condition.eval_rename]
  refine Condition.eval_congr fun x hx => ?_
  exact bindings_variableOf hs hcheck hdistinct hfits (hnames x hx)

end Template

/-! ### Mirrored steps -/

namespace Template.Mirrors

variable {s : Store} {t : Template} {label : String} {steps : List Step}

theorem mem_tags (h : t.Mirrors label steps) {x : String}
    (hx : x = label ∨ ∃ step ∈ steps, x = step.kind ∨ step.label = some x) :
    x ∈ t.slots.map Prod.snd := by
  rw [slots, List.map_cons, List.mem_cons, h.label]
  refine hx.imp_right ?_
  rintro ⟨step, hstep, htag⟩
  rw [← h.steps] at hstep
  obtain ⟨⟨rs, ns⟩, hsegment, rfl⟩ := List.mem_map.1 hstep
  rw [List.map_flatMap, List.mem_flatMap]
  refine ⟨(rs, ns), hsegment, ?_⟩
  simpa [stepOf, eq_comm] using htag

/-- The template of known tags is admitted, with a condition on its tags. -/
theorem check (h : t.Mirrors label steps) (hlabel : s.hasLabel label)
    (hknown : ∀ step ∈ steps, s.hasKind step.kind ∧ ∀ l ∈ step.label, s.hasLabel l)
    {c : Condition} (hnames : ∀ x ∈ c.mentions, x ∈ t.slots.map Prod.snd) :
    t.check s (c.rename t.variableOf) = .ok () := by
  have hsegments : ∀ segment ∈ t.segments,
      s.hasKind segment.1.kind ∧ s.hasLabel segment.2.label := by
    intro segment hsegment
    obtain ⟨hkind, hlabels⟩ := hknown (stepOf segment) (h.steps ▸ List.mem_map_of_mem hsegment)
    exact ⟨hkind, hlabels _ rfl⟩
  refine h.distinct.check ?_ ?_ ?_
  · refine List.forall_mem_cons.2 ⟨h.label ▸ hlabel, ?_⟩
    exact List.forall_mem_map.2 fun segment hsegment => (hsegments segment hsegment).2
  · exact List.forall_mem_map.2 fun segment hsegment => (hsegments segment hsegment).1
  · rw [Condition.mentions_rename, List.forall_mem_map]
    intro x hx
    obtain ⟨y, hslot, hvariable⟩ := h.distinct.variableOf_mem (hnames x hx)
    rw [hvariable]
    exact t.map_fst_slots_perm.mem_iff.1
      (List.mem_map.2 ⟨_, List.mem_of_find?_eq_some hslot, rfl⟩)

end Template.Mirrors

namespace Store

variable {s : Store} {n : Node} {t : Template} {steps : List Step} {c : Condition} {p : Path}

/-- The matches of a mirroring template that begin at a node are made of the trails from
there. -/
theorem Invariant.exists_match_iff (h : s.Invariant) (hn : n ∈ s.nodeList)
    (hmirrors : t.Mirrors n.label steps)
    (hcheck : t.check s (c.rename t.variableOf) = .ok ())
    (hnames : ∀ x ∈ c.mentions, x ∈ t.slots.map Prod.snd) :
    (∃ m, s.IsMatch t (c.rename t.variableOf) m ∧ m.path.start = n ∧ m.path = p) ↔
      s.IsTrail n steps c p := by
  constructor
  · rintro ⟨m, ⟨hfits, hbinds, hholds⟩, hstart, rfl⟩
    obtain ⟨-, -, hwalks⟩ := hmirrors.distinct.fits_iff.1 hfits
    rw [Template.eq_matchOf h hcheck hfits hbinds,
      Template.eval_rename_variableOf h hcheck hmirrors.distinct hfits hnames] at hholds
    refine ⟨hstart, ?_, Path.eval_environment_iff.1 hholds⟩
    rw [← hmirrors.steps, ← hstart]
    exact Template.walks_iff_follows.1 hwalks
  · rintro ⟨rfl, hfollows, hholds⟩
    rw [← hmirrors.steps] at hfollows
    have hfits : t.Fits s p := hmirrors.distinct.fits_iff.2
      ⟨hn, hmirrors.label.symm, Template.walks_iff_follows.2 hfollows⟩
    refine ⟨t.matchOf p, ⟨hfits, Template.binds_matchOf h hcheck hfits, ?_⟩, rfl, rfl⟩
    rw [Template.eval_rename_variableOf h hcheck hmirrors.distinct hfits hnames]
    exact Path.eval_environment_iff.2 hholds

/-- Traversing along steps that name all labels gives the paths of the matches that begin
at the start, in their order. -/
theorem traverse_eq_findMatches (h : s.Reachable) (hn : n ∈ s.nodeList) {limit : Nat}
    (hlimit : steps.length ≤ limit) (hmirrors : t.Mirrors n.label steps)
    (hknown : ∀ step ∈ steps, s.hasKind step.kind ∧ ∀ l ∈ step.label, s.hasLabel l)
    (hnames : ∀ x ∈ c.mentions,
      x = n.label ∨ ∃ step ∈ steps, x = step.kind ∨ step.label = some x) :
    ∃ found, s.findMatches t (c.rename t.variableOf) = .ok found ∧
      s.traverse n.key steps c limit =
        .ok ((found.filter fun m => decide (m.path.start = n)).map (·.path)) := by
  have hs := h.invariant
  have htags := fun x hx => hmirrors.mem_tags (hnames x hx)
  have hcheck := hmirrors.check (hs.hasLabel_of_mem hn) hknown htags
  have hlast : (Path.mk n []).last ∈ s.nodeList := hn
  refine ⟨_, hs.findMatches_eq hcheck, ?_⟩
  rw [hs.traverse_eq hn hlimit]
  refine congrArg Except.ok (eq_of_pairwise_rank (s := s) ?_ ?_ fun p => ?_)
  · exact (hs.pairwise_trails hlast).filter _
  · exact List.pairwise_map.2 ((hs.pairwise_report _).filter _)
  · rw [hs.mem_filter_trails_iff hn, ← hs.exists_match_iff hn hmirrors hcheck htags]
    simp only [List.mem_map, List.mem_filter, decide_eq_true_iff, hs.mem_report_iff hcheck,
      and_assoc]

/-- People and whom they know. -/
def knowing : Template :=
  ⟨⟨some "a", "Person"⟩, [(⟨some "r", "KNOWS", .outgoing⟩, ⟨some "b", "Person"⟩)]⟩

theorem mirrors_knowing : knowing.Mirrors "Person" [⟨"KNOWS", .outgoing, some "Person"⟩] :=
  ⟨rfl, rfl, by decide, by decide⟩

theorem traverse_eq_findMatches_knowing :
    ∃ found, acquaintances.findMatches knowing (.comparison "a" "id" .eq (.integer 1)) = .ok found ∧
      acquaintances.traverse ⟨"Person", 1⟩ [⟨"KNOWS", .outgoing, some "Person"⟩]
          (.comparison "Person" "id" .eq (.integer 1)) 4 =
        .ok ((found.filter fun m => decide (m.path.start = ⟨⟨"Person", 1⟩, ∅⟩)).map (·.path)) := by
  have hlimit : 1 ≤ 4 := by decide
  refine traverse_eq_findMatches (n := ⟨⟨"Person", 1⟩, ∅⟩)
    (c := .comparison "Person" "id" .eq (.integer 1)) reachable_acquaintances (by decide)
    hlimit mirrors_knowing (by decide) ?_
  intro x hx
  exact .inl (List.mem_singleton.1 hx)

example : (acquaintances.traverse ⟨"Person", 1⟩ [⟨"KNOWS", .outgoing, some "Person"⟩]
    (.comparison "Person" "id" .eq (.integer 1)) 4).map (·.map (·.describe)) =
      .ok [["Person:1", "KNOWS", "Person:1"], ["Person:1", "KNOWS", "Person:2"]] := by
  decide +kernel

end Store

end PropertyGraph
