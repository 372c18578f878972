import Mathlib.Data.List.Nodup
import PropertyGraph.Proofs.Pattern.Declaration
import PropertyGraph.Proofs.Pattern.Fit

/-! Templates in which every slot has a variable of its own. No two declarations get in
each other's way, so such a template is admitted if its tags are known and the condition
asks for its variables only; and no slot repeats another one, so every walk along its
segments fits. -/

namespace PropertyGraph

namespace Template

variable {s : Store} {t : Template} {condition : Condition} {p : Path}

/-- Every slot has a variable, and no variable two slots. -/
structure Distinct (t : Template) : Prop where
  named : none ∉ t.nodeNames ++ t.relationshipNames
  nodup : (t.nodeNames ++ t.relationshipNames).Nodup

theorem map_fst_uses (t : Template) :
    t.uses.map Prod.fst = t.nodeNames ++ t.relationshipNames := by
  rw [uses, List.map_append, List.map_map, List.map_map]
  rfl

theorem Distinct.check (h : t.Distinct) (hlabels : ∀ slot ∈ t.nodeSlots, s.hasLabel slot.label)
    (hkinds : ∀ slot ∈ t.relationshipSlots, s.hasKind slot.kind)
    (hnames : ∀ x ∈ condition.mentions, some x ∈ t.nodeNames ++ t.relationshipNames) :
    t.check s condition = .ok () := by
  refine check_eq_ok_iff.2 ⟨fun use huse => ?_, fun x a b ha hb => ?_, fun x hx => ?_⟩
  · rcases mem_uses_iff.1 huse with ⟨slot, hslot, rfl⟩ | ⟨slot, hslot, rfl⟩
    · exact hlabels slot hslot
    · exact hkinds slot hslot
  · have huses : (t.uses.map Prod.fst).Nodup := t.map_fst_uses ▸ h.nodup
    exact congrArg Prod.snd (List.inj_on_of_nodup_map huses ha hb rfl)
  · obtain ⟨⟨name, role⟩, huse, rfl⟩ := List.mem_map.1 (t.map_fst_uses ▸ hnames x hx)
    exact ⟨role, huse⟩

/-! ### Fitting -/

theorem sameNamed_of_nodup {κ : Type} {names : List (Option String)} (h : names.Nodup)
    (ids : List κ) : SameNamed names ids := by
  intro i j x a b hi hj ha hb
  obtain ⟨hi', hxi⟩ := List.getElem?_eq_some_iff.1 hi
  obtain ⟨hj', hxj⟩ := List.getElem?_eq_some_iff.1 hj
  have hij : i = j := (List.Nodup.getElem_inj_iff h).1 (hxi.trans hxj.symm)
  subst hij
  exact Option.some.inj (ha.symm.trans hb)

theorem Distinct.fits_iff (h : t.Distinct) : t.Fits s p ↔
    p.start ∈ s.nodeList ∧ p.start.label = t.start.label ∧ Walks s p.start t.segments p.hops := by
  obtain ⟨hnodes, hrelationships, -⟩ := List.nodup_append.1 h.nodup
  constructor
  · intro hfits
    exact ⟨hfits.start_mem, hfits.start_label, hfits.walks⟩
  · rintro ⟨hmem, hlabel, hwalks⟩
    exact ⟨hmem, hlabel, hwalks, sameNamed_of_nodup hnodes _, sameNamed_of_nodup hrelationships _⟩

end Template

end PropertyGraph
