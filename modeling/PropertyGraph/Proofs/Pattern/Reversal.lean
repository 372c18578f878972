import Mathlib.Data.List.Nodup
import PropertyGraph.Proofs.Pattern.Matching

/-! Templates read backwards. The slots of a template can be listed from the last to the first
if every relationship slot is turned round. A path fits such a template exactly if it fits the
template when it is read from its own end, and the slots of one name are the same slots in
either order, so both bind the variables in the same way. What differs is the order in which
the search comes upon the matches, and the order in which a match binds its variables. -/

namespace PropertyGraph

/-! ### Chains -/

section Chains

variable {α β : Type}

/-- The item at the end of a chain that starts at an item. -/
def chainEnd : α → List (β × α) → α
  | a, [] => a
  | _, (_, c) :: rest => chainEnd c rest

/-- The links of a chain from its end to the item that it starts at. -/
def backwards : α → List (β × α) → List (β × α)
  | _, [] => []
  | a, (b, c) :: rest => backwards c rest ++ [(b, a)]

@[simp] theorem chainEnd_concat (a : α) (l : List (β × α)) (b : β) (c : α) :
    chainEnd a (l ++ [(b, c)]) = c := by
  induction l generalizing a with
  | nil => rfl
  | cons link rest ih => exact ih link.2

/-- Backwards a chain ends where it starts. -/
theorem chainEnd_backwards (a : α) (l : List (β × α)) :
    chainEnd (chainEnd a l) (backwards a l) = a := by
  cases l with
  | nil => rfl
  | cons link rest => exact chainEnd_concat ..

theorem map_fst_backwards (a : α) (l : List (β × α)) :
    (backwards a l).map Prod.fst = (l.map Prod.fst).reverse := by
  induction l generalizing a with
  | nil => rfl
  | cons link rest ih => simp [backwards, ih]

theorem cons_map_snd_backwards (a : α) (l : List (β × α)) :
    chainEnd a l :: (backwards a l).map Prod.snd = (a :: l.map Prod.snd).reverse := by
  induction l generalizing a with
  | nil => rfl
  | cons link rest ih =>
    rw [backwards, List.map_append, ← List.cons_append, chainEnd, ih]
    simp

/-- A chain is told by its items and what links them. -/
theorem chain_ext {a a' : α} {l l' : List (β × α)}
    (hitems : a :: l.map Prod.snd = a' :: l'.map Prod.snd)
    (hlinks : l.map Prod.fst = l'.map Prod.fst) : a = a' ∧ l = l' := by
  obtain ⟨ha, hsnd⟩ := List.cons.inj hitems
  refine ⟨ha, ?_⟩
  rw [List.zip_of_prod hlinks hsnd, ← List.zip_of_prod rfl rfl]

end Chains

/-! ### Paths and templates -/

namespace Path

/-- The path from its last node to its first. -/
def reversed (p : Path) : Path := ⟨chainEnd p.start p.hops, backwards p.start p.hops⟩

@[simp] theorem nodes_reversed (p : Path) : p.reversed.nodes = p.nodes.reverse :=
  cons_map_snd_backwards p.start p.hops

@[simp] theorem relationships_reversed (p : Path) :
    p.reversed.relationships = p.relationships.reverse :=
  map_fst_backwards p.start p.hops

theorem ext_parts {p q : Path} (hnodes : p.nodes = q.nodes)
    (hrelationships : p.relationships = q.relationships) : p = q := by
  obtain ⟨hstart, hhops⟩ := chain_ext hnodes hrelationships
  cases p
  cases q
  cases hstart
  cases hhops
  rfl

@[simp] theorem reversed_reversed (p : Path) : p.reversed.reversed = p :=
  ext_parts (by simp) (by simp)

end Path

/-- Outgoing and incoming exchanged. -/
def Direction.reversed : Direction → Direction
  | .outgoing => .incoming
  | .incoming => .outgoing
  | .both => .both

@[simp] theorem Direction.reversed_reversed (d : Direction) : d.reversed.reversed = d := by
  cases d <;> rfl

theorem Relationship.joins_reversed_iff {r : Relationship} {d : Direction} {a b : NodeKey} :
    r.Joins d.reversed a b ↔ r.Joins d b a := by
  cases d with
  | outgoing => exact joins_outgoing_iff_incoming.symm
  | incoming => exact joins_outgoing_iff_incoming
  | both => simp [Joins, Direction.reversed, and_comm, or_comm]

def RelationshipSlot.reversed (slot : RelationshipSlot) : RelationshipSlot :=
  { slot with direction := slot.direction.reversed }

namespace Template

variable {t t' : Template}

/-- The slots from the last to the first, with every relationship slot turned round. -/
def reversed (t : Template) : Template where
  start := chainEnd t.start t.segments
  segments := (backwards t.start t.segments).map (Prod.map RelationshipSlot.reversed id)

@[simp] theorem nodeSlots_reversed (t : Template) : t.reversed.nodeSlots = t.nodeSlots.reverse := by
  rw [nodeSlots, reversed, List.map_map]
  exact cons_map_snd_backwards t.start t.segments

@[simp] theorem relationshipSlots_reversed (t : Template) :
    t.reversed.relationshipSlots =
      (t.relationshipSlots.map RelationshipSlot.reversed).reverse := by
  rw [relationshipSlots, relationshipSlots, ← List.map_reverse, ← map_fst_backwards t.start,
    reversed, List.map_map, List.map_map]
  rfl

/-- A template is told by its slots. -/
theorem ext_slots (hnodes : t.nodeSlots = t'.nodeSlots)
    (hrelationships : t.relationshipSlots = t'.relationshipSlots) : t = t' := by
  obtain ⟨hstart, hsegments⟩ := chain_ext hnodes hrelationships
  cases t
  cases t'
  cases hstart
  cases hsegments
  rfl

@[simp] theorem reversed_reversed (t : Template) : t.reversed.reversed = t := by
  refine ext_slots (by simp) ?_
  simp [List.map_reverse, Function.comp_def, RelationshipSlot.reversed]

theorem nodeNames_reversed (t : Template) : t.reversed.nodeNames = t.nodeNames.reverse := by
  simp [nodeNames]

theorem relationshipNames_reversed (t : Template) :
    t.reversed.relationshipNames = t.relationshipNames.reverse := by
  simp [relationshipNames, Function.comp_def, RelationshipSlot.reversed]

end Template

/-! ### Walks -/

section Walks

variable {s : Store} {m : Node} {segments : List (RelationshipSlot × NodeSlot)}
  {hops : List (Relationship × Node)}

theorem Walks.concat (h : Walks s m segments hops) {n : Node} {r : Relationship}
    {rs : RelationshipSlot} {ns : NodeSlot} (hr : r ∈ s.relationshipList) (hkind : r.kind = rs.kind)
    (hn : n ∈ s.nodeList) (hlabel : n.label = ns.label)
    (hjoins : r.Joins rs.direction (chainEnd m hops).key n.key) :
    Walks s m (segments ++ [(rs, ns)]) (hops ++ [(r, n)]) := by
  induction h with
  | nil m => exact .cons hr hkind hn hlabel hjoins (.nil n)
  | cons hr' hkind' hn' hlabel' hjoins' _ ih =>
    exact .cons hr' hkind' hn' hlabel' hjoins' (ih hjoins)

/-- A walk backwards follows the segments backwards. The node that it started from has become
the node of a hop, so its label is asked for now. -/
theorem Walks.backwards (h : Walks s m segments hops) {slot : NodeSlot} (hm : m ∈ s.nodeList)
    (hlabel : m.label = slot.label) : Walks s (chainEnd m hops)
      ((backwards slot segments).map (Prod.map RelationshipSlot.reversed id))
      (backwards m hops) := by
  induction h generalizing slot with
  | nil m => exact .nil m
  | cons hr hkind hn hlabel' hjoins _ ih =>
    -- the first hop comes last, taken from the node that the rest started from
    rw [PropertyGraph.backwards, List.map_append]
    refine (ih hn hlabel').concat hr hkind hm hlabel ?_
    rw [chainEnd_backwards]
    exact Relationship.joins_reversed_iff.2 hjoins

theorem Walks.label_chainEnd (h : Walks s m segments hops) {slot : NodeSlot}
    (hlabel : m.label = slot.label) : (chainEnd m hops).label = (chainEnd slot segments).label := by
  induction h generalizing slot with
  | nil m => exact hlabel
  | cons _ _ _ hlabel' _ _ ih => exact ih hlabel'

end Walks

/-! ### Names -/

theorem SameNamed.reverse {κ : Type} {names : List (Option String)} {ids : List κ}
    (h : SameNamed names ids) (hlength : names.length = ids.length) :
    SameNamed names.reverse ids.reverse := by
  intro i j x a b hi hj ha hb
  have hi' : i < names.length := by
    simpa using (List.getElem?_eq_some_iff.1 hi).1
  have hj' : j < names.length := by
    simpa using (List.getElem?_eq_some_iff.1 hj).1
  rw [List.getElem?_reverse hi'] at hi
  rw [List.getElem?_reverse hj'] at hj
  rw [List.getElem?_reverse (hlength ▸ hi'), ← hlength] at ha
  rw [List.getElem?_reverse (hlength ▸ hj'), ← hlength] at hb
  exact h _ _ x a b hi hj ha hb

theorem mem_zip_reverse_iff {α β : Type} {l : List α} {l' : List β}
    (hlength : l.length = l'.length) {x : α × β} :
    x ∈ l.reverse.zip l'.reverse ↔ x ∈ l.zip l' := by
  have hzip : l.reverse.zip l'.reverse = (l.zip l').reverse :=
    (List.reverse_zipWith hlength).symm
  rw [hzip, List.mem_reverse]

namespace Template

variable {s : Store} {t : Template} {condition : Condition} {p : Path}

theorem Fits.length_nodes (h : t.Fits s p) : t.nodeNames.length = p.nodes.length := by
  simp [nodeNames, nodeSlots, Path.nodes, h.walks.length_eq]

theorem Fits.length_relationships (h : t.Fits s p) :
    t.relationshipNames.length = p.relationships.length := by
  simp [relationshipNames, relationshipSlots, Path.relationships, h.walks.length_eq]

theorem Fits.reversed (h : t.Fits s p) : t.reversed.Fits s p.reversed where
  start_mem := by
    have hstart : p.reversed.start ∈ p.reversed.nodes := List.mem_cons_self
    rw [Path.nodes_reversed, List.mem_reverse] at hstart
    exact h.mem.1 _ hstart
  start_label := h.walks.label_chainEnd h.start_label
  walks := h.walks.backwards h.start_mem h.start_label
  consistent := by
    constructor
    · rw [nodeNames_reversed, Path.nodes_reversed, List.map_reverse]
      exact h.consistent.nodes.reverse (by rw [h.length_nodes, List.length_map])
    · rw [relationshipNames_reversed, Path.relationships_reversed, List.map_reverse]
      exact h.consistent.relationships.reverse (by rw [h.length_relationships, List.length_map])

/-- In either order the same names stand for the same entities. -/
theorem Fits.mem_filled_reversed_iff (h : t.Fits s p) {name : Option String} {e : Entity} :
    (name, e) ∈ t.reversed.filled p.reversed ↔ (name, e) ∈ t.filled p := by
  rw [mem_filled_iff, mem_filled_iff, nodeNames_reversed, Path.nodes_reversed,
    relationshipNames_reversed, Path.relationships_reversed]
  simp only [mem_zip_reverse_iff h.length_nodes, mem_zip_reverse_iff h.length_relationships]

/-! ### Admission -/

theorem mem_uses_reversed_iff {use : Option String × Role} :
    use ∈ t.reversed.uses ↔ use ∈ t.uses := by
  simp [mem_uses_iff, RelationshipSlot.reversed]

theorem Admissible.reversed (h : t.Admissible s condition) :
    t.reversed.Admissible s condition where
  known use huse := h.known use (mem_uses_reversed_iff.1 huse)
  oneRole x a b ha hb :=
    h.oneRole x a b (mem_uses_reversed_iff.1 ha) (mem_uses_reversed_iff.1 hb)
  declared x hx := by
    obtain ⟨role, hrole⟩ := h.declared x hx
    exact ⟨role, mem_uses_reversed_iff.2 hrole⟩

theorem admissible_reversed_iff :
    t.reversed.Admissible s condition ↔ t.Admissible s condition := by
  refine ⟨fun h => ?_, .reversed⟩
  have h' := h.reversed
  rwa [reversed_reversed] at h'

/-- The match that the reversed template makes of the same entities. -/
def reverseMatch (t : Template) (m : Match) : Match := t.reversed.matchOf m.path.reversed

end Template

/-! ### Matches -/

namespace Store

variable {s : Store} {t : Template} {condition : Condition} {m : Match}

theorem IsMatch.environment_reverseMatch (h : s.IsMatch t condition m) (hs : s.Invariant)
    (hadmissible : t.Admissible s condition) :
    (t.reverseMatch m).environment = m.environment := by
  have hfits := h.fits.reversed
  have hbinds := Template.binds_matchOf hs (Template.check_eq_ok_iff.2 hadmissible.reversed) hfits
  funext x
  ext e
  rw [h.binds.environment_eq_some_iff h.fits.walks.length_eq, ← h.fits.mem_filled_reversed_iff]
  exact hbinds.environment_eq_some_iff hfits.walks.length_eq

theorem IsMatch.reversed (h : s.IsMatch t condition m) (hs : s.Invariant)
    (hadmissible : t.Admissible s condition) :
    s.IsMatch t.reversed condition (t.reverseMatch m) where
  fits := h.fits.reversed
  binds := Template.binds_matchOf hs (Template.check_eq_ok_iff.2 hadmissible.reversed)
    h.fits.reversed
  holds := by
    rw [h.environment_reverseMatch hs hadmissible]
    exact h.holds

/-- Backwards the same matches are found, in some order. -/
theorem Invariant.perm_reversed (hs : s.Invariant) {found found' : List Match}
    (hfound : s.findMatches t condition = .ok found)
    (hfound' : s.findMatches t.reversed condition = .ok found') :
    found'.Perm (found.map t.reverseMatch) := by
  have hadmissible := hs.accepts_iff.1 ⟨found, hfound⟩
  have hpaths : ((found.map t.reverseMatch).map (·.path)).Nodup := by
    have hinjective : Function.Injective Path.reversed :=
      Function.LeftInverse.injective Path.reversed_reversed
    have hreversed := (hs.nodup_found hfound).map hinjective
    rwa [List.map_map] at hreversed ⊢
  -- the ranks of reversed paths are ordered otherwise, so only members can be compared
  refine (List.perm_ext_iff_of_nodup (hs.nodup_found hfound').of_map hpaths.of_map).2 fun m => ?_
  rw [hs.mem_found_iff hfound', List.mem_map]
  constructor
  · intro hm
    have hback := hm.reversed hs hadmissible.reversed
    rw [Template.reversed_reversed] at hback
    refine ⟨_, (hs.mem_found_iff hfound).2 hback, ?_⟩
    have hcheck := Template.check_eq_ok_iff.2 hadmissible.reversed
    rw [Template.eq_matchOf hs hcheck hm.fits hm.binds]
    simp [Template.reverseMatch, Template.matchOf]
  · rintro ⟨m, hm, rfl⟩
    exact ((hs.mem_found_iff hfound).1 hm).reversed hs hadmissible

/-- Matching is symmetric. With its slots listed backwards and every relationship slot turned
round, a template is accepted exactly if it was before, and then its matches are those of
before with their nodes and relationships in the opposite order, each with the same variables
for the same entities. -/
theorem findMatches_reversed (h : s.Reachable) (t : Template) (condition : Condition) :
    (s.Accepts t.reversed condition ↔ s.Accepts t condition) ∧
    ∀ found found', s.findMatches t condition = .ok found →
      s.findMatches t.reversed condition = .ok found' →
      (found'.map fun m => (m.path.nodes, m.path.relationships, m.environment)).Perm
        (found.map fun m =>
          (m.path.nodes.reverse, m.path.relationships.reverse, m.environment)) := by
  have hs := h.invariant
  constructor
  · rw [hs.accepts_iff, hs.accepts_iff, Template.admissible_reversed_iff]
  · intro found found' hfound hfound'
    have hadmissible := hs.accepts_iff.1 ⟨found, hfound⟩
    have hsame : ((found.map t.reverseMatch).map fun m =>
        (m.path.nodes, m.path.relationships, m.environment)) = found.map fun m =>
          (m.path.nodes.reverse, m.path.relationships.reverse, m.environment) := by
      rw [List.map_map]
      refine List.map_congr_left fun m hm => ?_
      have henvironment := ((hs.mem_found_iff hfound).1 hm).environment_reverseMatch hs hadmissible
      have hpath : (t.reverseMatch m).path = m.path.reversed := rfl
      simp [henvironment, hpath]
    rw [← hsame]
    exact (hs.perm_reversed hfound hfound').map _

/-- One node stands in both slots of the template, whichever comes first. -/
theorem findMatches_reversed_selfKnowing : ∃ found found',
    acquaintances.findMatches selfKnowing .always = .ok found ∧
    acquaintances.findMatches selfKnowing.reversed .always = .ok found' ∧
    (found'.map fun m => (m.path.nodes, m.path.relationships, m.environment)).Perm
      (found.map fun m =>
        (m.path.nodes.reverse, m.path.relationships.reverse, m.environment)) := by
  obtain ⟨haccepts, hperm⟩ := findMatches_reversed reachable_acquaintances selfKnowing .always
  have hfound := reachable_acquaintances.invariant.findMatches_eq check_selfKnowing
  obtain ⟨found', hfound'⟩ := haccepts.2 ⟨_, hfound⟩
  exact ⟨_, found', hfound, hfound', hperm _ _ hfound hfound'⟩

end Store

end PropertyGraph
