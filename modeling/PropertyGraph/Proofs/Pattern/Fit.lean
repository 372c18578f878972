import PropertyGraph.Pattern.Search
import PropertyGraph.Proofs.Store.Scan

/-! When a path fits a template. It starts at a node of the first label, every hop follows
its segment, and slots of one name hold the same entity. The search tests the names one
level at a time, against the first earlier slot of the name only; that is enough, since
the levels before have been tested in the same way. -/

namespace PropertyGraph

/-- From a node the hops follow the segments, one by one. -/
inductive Walks (s : Store) :
    Node → List (RelationshipSlot × NodeSlot) → List (Relationship × Node) → Prop where
  | nil (m : Node) : Walks s m [] []
  | cons {m n : Node} {r : Relationship} {rs : RelationshipSlot} {ns : NodeSlot}
      {segments : List (RelationshipSlot × NodeSlot)} {hops : List (Relationship × Node)} :
      r ∈ s.relationshipList → r.kind = rs.kind → n ∈ s.nodeList → n.label = ns.label →
      r.Joins rs.direction m.key n.key → Walks s n segments hops →
      Walks s m ((rs, ns) :: segments) ((r, n) :: hops)

/-- Places of one name hold the same. The last places may still be open. -/
def SameNamed {κ : Type} (names : List (Option String)) (ids : List κ) : Prop :=
  ∀ (i j : Nat) x a b, names[i]? = some (some x) → names[j]? = some (some x) →
    ids[i]? = some a → ids[j]? = some b → a = b

namespace Template

def nodeNames (t : Template) : List (Option String) := t.nodeSlots.map (·.name)

def relationshipNames (t : Template) : List (Option String) := t.relationshipSlots.map (·.name)

/-- Node slots of one name hold one node and relationship slots one relationship. -/
structure Consistent (t : Template) (nodes : List Node) (relationships : List Relationship) :
    Prop where
  nodes : SameNamed t.nodeNames (nodes.map (·.key))
  relationships : SameNamed t.relationshipNames (relationships.map (·.id))

structure Fits (s : Store) (t : Template) (p : Path) : Prop where
  start_mem : p.start ∈ s.nodeList
  start_label : p.start.label = t.start.label
  walks : Walks s p.start t.segments p.hops
  consistent : t.Consistent p.nodes p.relationships

end Template

theorem Walks.length_eq {s : Store} {m : Node} {segments : List (RelationshipSlot × NodeSlot)}
    {hops : List (Relationship × Node)} (h : Walks s m segments hops) :
    hops.length = segments.length := by
  induction h with
  | nil => rfl
  | cons _ _ _ _ _ _ ih => rw [List.length_cons, List.length_cons, ih]

theorem Walks.hop_mem {s : Store} {m : Node} {segments : List (RelationshipSlot × NodeSlot)}
    {hops : List (Relationship × Node)} (h : Walks s m segments hops) :
    ∀ hop ∈ hops, hop.1 ∈ s.relationshipList ∧ hop.2 ∈ s.nodeList := by
  induction h with
  | nil => nofun
  | cons hr _ hn _ _ _ ih => exact List.forall_mem_cons.2 ⟨⟨hr, hn⟩, ih⟩

/-- A path that fits consists of nodes and relationships of the store. -/
theorem Template.Fits.mem {s : Store} {t : Template} {p : Path} (h : t.Fits s p) :
    (∀ n ∈ p.nodes, n ∈ s.nodeList) ∧ ∀ r ∈ p.relationships, r ∈ s.relationshipList := by
  constructor
  · refine List.forall_mem_cons.2 ⟨h.start_mem, ?_⟩
    exact List.forall_mem_map.2 fun hop hhop => (h.walks.hop_mem hop hhop).2
  · exact List.forall_mem_map.2 fun hop hhop => (h.walks.hop_mem hop hhop).1

theorem SameNamed.eq_of_mem_zip {α κ : Type} {names : List (Option String)} {l : List α}
    {f : α → κ} (h : SameNamed names (l.map f)) {x : String} {a b : α}
    (ha : (some x, a) ∈ names.zip l) (hb : (some x, b) ∈ names.zip l) : f a = f b := by
  obtain ⟨i, hi⟩ := List.mem_iff_getElem?.1 ha
  obtain ⟨j, hj⟩ := List.mem_iff_getElem?.1 hb
  obtain ⟨hxi, hai⟩ := List.getElem?_zip_eq_some.1 hi
  obtain ⟨hxj, hbj⟩ := List.getElem?_zip_eq_some.1 hj
  exact h i j x _ _ hxi hxj (by rw [List.getElem?_map, hai]; rfl)
    (by rw [List.getElem?_map, hbj]; rfl)

/-! ### Aliases -/

section Aliases

variable {κ : Type} {names : List (Option String)} {ids : List κ} {d i : Nat} {x : String} {k : κ}

theorem alias_eq_some_iff : ((aliases names)[d]?).join = some i ↔
    ∃ x, names[d]? = some (some x) ∧ (names.take d).findIdx? (· == some x) = some i := by
  rw [aliases, List.getElem?_mapIdx]
  rcases names[d]? with _ | _ | x <;> simp

/-- An alias is an earlier place of the same name. -/
theorem lt_of_alias (h : ((aliases names)[d]?).join = some i) :
    i < d ∧ ∃ x, names[d]? = some (some x) ∧ names[i]? = some (some x) := by
  obtain ⟨x, hd, hi⟩ := alias_eq_some_iff.1 h
  obtain ⟨hlt, hx, -⟩ := List.findIdx?_eq_some_iff_getElem.1 hi
  rw [List.length_take] at hlt
  rw [List.getElem_take, beq_iff_eq] at hx
  exact ⟨by omega, x, hd, List.getElem?_eq_some_iff.2 ⟨by omega, hx⟩⟩

/-- A place that is not the first of its name has an alias. -/
theorem exists_alias (hi : names[i]? = some (some x)) (hd : names[d]? = some (some x))
    (hlt : i < d) : ∃ j, ((aliases names)[d]?).join = some j ∧ names[j]? = some (some x) := by
  have hmem : some x ∈ names.take d :=
    List.mem_iff_getElem?.2 ⟨i, by rw [List.getElem?_take_of_lt hlt, hi]⟩
  cases hfind : (names.take d).findIdx? (· == some x) with
  | none =>
    have hno := List.findIdx?_eq_none_iff.1 hfind (some x) hmem
    simp at hno
  | some j =>
    have halias := alias_eq_some_iff.2 ⟨x, hd, hfind⟩
    obtain ⟨-, y, hy, hj⟩ := lt_of_alias halias
    cases hd.symm.trans hy
    exact ⟨j, halias, hj⟩

theorem getElem?_concat_eq_some_iff {a : κ} :
    (ids ++ [k])[i]? = some a ↔ ids[i]? = some a ∨ (i = ids.length ∧ k = a) := by
  rw [List.getElem?_append]
  by_cases h : i < ids.length
  · simp [h, Nat.ne_of_lt h]
  · have hnone : ids[i]? = none := List.getElem?_eq_none (Nat.le_of_not_lt h)
    rw [if_neg h, hnone, List.getElem?_singleton]
    by_cases heq : i = ids.length
    · simp [heq]
    · simp [heq, show i - ids.length ≠ 0 by omega]

/-- Filling the next place keeps places of one name the same exactly if it takes what its
alias holds. -/
theorem sameNamed_concat_iff : SameNamed names (ids ++ [k]) ↔ SameNamed names ids ∧
    ∀ i, ((aliases names)[ids.length]?).join = some i → ids[i]? = some k := by
  constructor
  · intro h
    have hold : ∀ {i : Nat} {a}, ids[i]? = some a → (ids ++ [k])[i]? = some a := fun ha =>
      getElem?_concat_eq_some_iff.2 (.inl ha)
    refine ⟨fun i j x a b hi hj ha hb => h i j x a b hi hj (hold ha) (hold hb), fun i hi => ?_⟩
    obtain ⟨hlt, x, hlast, hx⟩ := lt_of_alias hi
    have ha := List.getElem?_eq_getElem hlt
    have hk : (ids ++ [k])[ids.length]? = some k :=
      getElem?_concat_eq_some_iff.2 (.inr ⟨rfl, rfl⟩)
    rw [ha, h i ids.length x _ k hx hlast (hold ha) hk]
  · rintro ⟨h, halias⟩
    -- the last place compared with an earlier one of its name goes through its alias
    have hlast : ∀ {i : Nat} {x a}, names[i]? = some (some x) → names[ids.length]? = some (some x) →
        ids[i]? = some a → a = k := by
      intro i x a hi hx ha
      obtain ⟨j, hj, hjx⟩ := exists_alias hi hx (List.getElem?_eq_some_iff.1 ha).1
      exact h i j x a k hi hjx ha (halias j hj)
    intro i j x a b hi hj ha hb
    rcases getElem?_concat_eq_some_iff.1 ha with ha | ⟨rfl, rfl⟩ <;>
      rcases getElem?_concat_eq_some_iff.1 hb with hb | ⟨rfl, rfl⟩
    · exact h i j x a b hi hj ha hb
    · exact hlast hi hj ha
    · exact (hlast hj hi hb).symm
    · rfl

theorem sameNamed_of_append {rest : List κ} (h : SameNamed names (ids ++ rest)) :
    SameNamed names ids := by
  have hold : ∀ {i : Nat} {a}, ids[i]? = some a → (ids ++ rest)[i]? = some a := fun ha =>
    (List.getElem?_append_left (List.getElem?_eq_some_iff.1 ha).1).trans ha
  exact fun i j x a b hi hj ha hb => h i j x a b hi hj (hold ha) (hold hb)

end Aliases

end PropertyGraph
