import PropertyGraph.Proofs.Pattern.Declaration
import PropertyGraph.Proofs.Pattern.Fit

/-! What a match binds. Every declared variable is bound, in the order of first slots, to
what the path holds in a slot of its name. Which of its slots does not matter: a template
that was admitted gives a name to nodes only or to relationships only, and slots of one
name hold one identity, which only one entity of a store has. -/

namespace PropertyGraph

namespace Template

variable {s : Store} {t : Template} {condition : Condition} {p : Path} {x : String} {e : Entity}

/-- The names of two slots that follow each other, with what the path holds there. -/
def filledSegment : (RelationshipSlot × NodeSlot) × (Relationship × Node) →
    List (Option String × Entity)
  | ((rs, ns), (r, n)) => [(rs.name, .relationship r), (ns.name, .node n)]

/-- The slots along a path: their names and what the path holds there. -/
def filled (t : Template) (p : Path) : List (Option String × Entity) :=
  (t.start.name, .node p.start) :: (t.segments.zip p.hops).flatMap filledSegment

/-- The declared variables in the order of their first slots. -/
def declared (t : Template) : List String :=
  ((t.start.name :: t.segments.flatMap fun (rs, ns) => [rs.name, ns.name]).filterMap id).eraseDups

/-- The match binds the declared variables to what its path holds in their slots. -/
structure Binds (t : Template) (m : Match) : Prop where
  keys : m.bindings.keys = t.declared
  get? : ∀ x e, (some x, e) ∈ t.filled m.path → m.bindings.get? x = some e

/-! ### The bindings of a path -/

/-- The entities of the slots that have a name. -/
def named (l : List (Option String × Entity)) : List (String × Entity) :=
  l.filterMap fun (name, e) => name.map (·, e)

theorem mem_named_iff {l : List (Option String × Entity)} :
    (x, e) ∈ named l ↔ (some x, e) ∈ l := by
  rw [named, List.mem_filterMap]
  constructor
  · rintro ⟨⟨name, e'⟩, hmem, heq⟩
    obtain ⟨y, rfl, hy⟩ := Option.map_eq_some_iff.1 heq
    cases hy
    exact hmem
  · intro hmem
    exact ⟨(some x, e), hmem, rfl⟩

theorem map_fst_named (l : List (Option String × Entity)) :
    (named l).map Prod.fst = (l.map Prod.fst).filterMap id := by
  rw [named, List.map_filterMap, List.filterMap_map]
  refine List.filterMap_congr fun (name, e) _ => ?_
  cases name <;> rfl

theorem foldl_named_cons (m : OrderedMap String Entity) (name : Option String) (e : Entity)
    (l : List (Option String × Entity)) :
    (named ((name, e) :: l)).foldl (fun m e => m.insertNew e.1 e.2) m =
      (named l).foldl (fun m e => m.insertNew e.1 e.2) (bindVariable m name e) := by
  cases name <;> rfl

theorem bindHops_eq (m : OrderedMap String Entity)
    (segments : List (RelationshipSlot × NodeSlot)) (hops : List (Relationship × Node)) :
    bindHops m segments hops = (named ((segments.zip hops).flatMap filledSegment)).foldl
      (fun m e => m.insertNew e.1 e.2) m := by
  induction segments generalizing m hops with
  | nil => rfl
  | cons segment segments ih =>
    cases hops with
    | nil => rfl
    | cons hop hops =>
      rw [bindHops, ih, List.zip_cons_cons, List.flatMap_cons, filledSegment, List.cons_append,
        List.cons_append, List.nil_append, foldl_named_cons, foldl_named_cons]

theorem bindings_matchOf (t : Template) (p : Path) : (t.matchOf p).bindings =
    (named (t.filled p)).foldl (fun m e => m.insertNew e.1 e.2) ∅ := by
  rw [matchOf, bindHops_eq, filled, foldl_named_cons]

theorem map_fst_filled (h : p.hops.length = t.segments.length) : (t.filled p).map Prod.fst =
    t.start.name :: t.segments.flatMap fun (rs, ns) => [rs.name, ns.name] := by
  rw [filled, List.map_cons, List.map_flatMap]
  have hsegments : t.segments = (t.segments.zip p.hops).map Prod.fst := by
    rw [List.map_fst_zip (Nat.le_of_eq h.symm)]
  conv => rhs; rw [hsegments, List.flatMap_map]
  rfl

theorem keys_matchOf (h : p.hops.length = t.segments.length) :
    (t.matchOf p).bindings.keys = t.declared := by
  rw [bindings_matchOf, OrderedMap.keys_collect, map_fst_named, map_fst_filled h]
  rfl

theorem mem_declared_iff (h : p.hops.length = t.segments.length) :
    x ∈ t.declared ↔ ∃ e, (some x, e) ∈ t.filled p := by
  rw [declared, ← map_fst_filled h, List.mem_eraseDups, List.mem_filterMap]
  simp

/-! ### One entity for a name -/

/-- In an admitted template no name is given to a node and to a relationship. -/
theorem names_disjoint (h : t.check s condition = .ok ()) (hn : some x ∈ t.nodeNames)
    (hr : some x ∈ t.relationshipNames) : False := by
  obtain ⟨slot, hslot, hname⟩ := List.mem_map.1 hn
  obtain ⟨slot', hslot', hname'⟩ := List.mem_map.1 hr
  have hnode : (some x, .node slot.label) ∈ t.uses :=
    mem_uses_iff.2 (.inl ⟨slot, hslot, by rw [hname]⟩)
  have hrelationship : (some x, .relationship slot'.kind) ∈ t.uses :=
    mem_uses_iff.2 (.inr ⟨slot', hslot', by rw [hname']⟩)
  cases (check_eq_ok_iff.1 h).oneRole x _ _ hnode hrelationship

/-- A filled slot is a node slot with a node of the path in its place, or a relationship
slot with a relationship. -/
theorem mem_filled_iff {name : Option String} : (name, e) ∈ t.filled p ↔
    (∃ n, e = .node n ∧ (name, n) ∈ t.nodeNames.zip p.nodes) ∨
      ∃ r, e = .relationship r ∧ (name, r) ∈ t.relationshipNames.zip p.relationships := by
  have hnodes : t.nodeNames.zip p.nodes = (t.start.name, p.start) ::
      (t.segments.zip p.hops).map fun x => (x.1.2.name, x.2.2) := by
    simp [nodeNames, nodeSlots, Path.nodes, List.zip_map, Prod.map]
  have hrelationships : t.relationshipNames.zip p.relationships =
      (t.segments.zip p.hops).map fun x => (x.1.1.name, x.2.1) := by
    simp [relationshipNames, relationshipSlots, Path.relationships, List.zip_map, Prod.map]
  rw [hnodes, hrelationships, filled, List.mem_cons, List.mem_flatMap]
  simp only [List.mem_cons, List.mem_map]
  constructor
  · rintro (h | ⟨⟨⟨rs, ns⟩, r, n⟩, hmem, h⟩)
    · cases h
      exact .inl ⟨p.start, rfl, .inl rfl⟩
    · simp only [filledSegment, List.mem_cons, List.not_mem_nil, or_false] at h
      rcases h with h | h
      · cases h
        exact .inr ⟨r, rfl, _, hmem, rfl⟩
      · cases h
        exact .inl ⟨n, rfl, .inr ⟨_, hmem, rfl⟩⟩
  · rintro (⟨n, rfl, h | ⟨x, hmem, h⟩⟩ | ⟨r, rfl, x, hmem, h⟩) <;> cases h
    · exact .inl rfl
    · exact .inr ⟨x, hmem, by simp [filledSegment]⟩
    · exact .inr ⟨x, hmem, by simp [filledSegment]⟩

/-- Slots of one name hold one entity. -/
theorem filled_unique (hs : s.Invariant) (hcheck : t.check s condition = .ok ())
    (hfits : t.Fits s p) {e' : Entity} (he : (some x, e) ∈ t.filled p)
    (he' : (some x, e') ∈ t.filled p) : e = e' := by
  obtain ⟨hnodes, hrelationships⟩ := hfits.mem
  rcases mem_filled_iff.1 he with ⟨n, rfl, hn⟩ | ⟨r, rfl, hr⟩ <;>
    rcases mem_filled_iff.1 he' with ⟨m, rfl, hm⟩ | ⟨q, rfl, hq⟩
  · have hkey := hfits.consistent.nodes.eq_of_mem_zip hn hm
    rw [hs.node_ext (hnodes n (List.of_mem_zip hn).2) (hnodes m (List.of_mem_zip hm).2) hkey]
  · exact (names_disjoint hcheck (List.of_mem_zip hn).1 (List.of_mem_zip hq).1).elim
  · exact (names_disjoint hcheck (List.of_mem_zip hm).1 (List.of_mem_zip hr).1).elim
  · have hid := hfits.consistent.relationships.eq_of_mem_zip hr hq
    rw [hs.relationship_ext (hrelationships r (List.of_mem_zip hr).2)
      (hrelationships q (List.of_mem_zip hq).2) hid]

theorem binds_matchOf (hs : s.Invariant) (hcheck : t.check s condition = .ok ())
    (hfits : t.Fits s p) : t.Binds (t.matchOf p) where
  keys := keys_matchOf hfits.walks.length_eq
  get? x e he := by
    rw [bindings_matchOf]
    exact OrderedMap.get?_collect (mem_named_iff.2 he) fun e' he' =>
      filled_unique hs hcheck hfits (mem_named_iff.1 he') he

/-- A variable stands for what the path holds in its slots, and no other name for anything. -/
theorem Binds.environment_eq_some_iff {m : Match} (h : t.Binds m)
    (hlength : m.path.hops.length = t.segments.length) :
    m.environment x = some e ↔ (some x, e) ∈ t.filled m.path := by
  constructor
  · intro he
    have hx : x ∈ t.declared :=
      h.keys ▸ OrderedMap.mem_keys_iff.2 (OrderedMap.contains_iff.2 ⟨e, he⟩)
    obtain ⟨e', he'⟩ := (mem_declared_iff hlength).1 hx
    have hsame : m.environment x = some e' := h.get? x e' he'
    rwa [Option.some.inj (he.symm.trans hsame)]
  · exact h.get? x e

/-- Nothing else binds the variables of the path in that way. -/
theorem eq_matchOf (hs : s.Invariant) (hcheck : t.check s condition = .ok ()) {m : Match}
    (hfits : t.Fits s m.path) (h : t.Binds m) : m = t.matchOf m.path := by
  have hpath := binds_matchOf hs hcheck hfits
  have hbindings : m.bindings = (t.matchOf m.path).bindings := by
    refine OrderedMap.ext_get? (h.keys.trans hpath.keys.symm) fun x hx => ?_
    obtain ⟨e, he⟩ := (mem_declared_iff hfits.walks.length_eq).1 (h.keys ▸ hx)
    rw [h.get? x e he, hpath.get? x e he]
  calc m = ⟨m.bindings, m.path⟩ := rfl
    _ = t.matchOf m.path := by rw [hbindings]; rfl

end Template

end PropertyGraph
