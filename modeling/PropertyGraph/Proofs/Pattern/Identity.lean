import PropertyGraph.Proofs.Entity
import PropertyGraph.Proofs.Pattern.Matching

/-! Selecting by id. The ids of entities are integers, integers are compared exactly, and the
name `id` always denotes the own id of an entity. So a comparison with an id keeps the matches
that bind the variable to the entity of that id. It does not steer the search: a condition
that is added by AND only leaves out some of the matches that are found without it. -/

namespace PropertyGraph

/-! ### The condition -/

/-- The variable stands for an entity of the id. -/
def Condition.hasId (x : String) (id : Nat) : Condition :=
  .comparison x "id" .eq (.integer (.ofNat id))

theorem Condition.eval_hasId {s : Store} (h : s.Invariant) {env : Environment} {x : String}
    {e : Entity} (hx : env x = some e) (he : e.Live s) {id : Nat} (hid : id ≤ greatestId) :
    (hasId x id).eval env = true ↔ e.id = id := by
  rw [hasId, eval, hx, Option.bind_some, he.property?_id h, ← ofNat_eq_ofNat_iff (he.id_le h) hid]
  simp [Operator.holds, Value.looseEq]

/-! ### Conditions that are added -/

/-- The paths of a plan do not depend on its condition. -/
theorem explore_condition (s : Store) (t : Template) (c d : Condition)
    (segments : List (RelationshipSlot × NodeSlot)) (chosen : Choices) (candidate : Candidate) :
    explore s (.make t c) segments chosen candidate =
      explore s (.make t d) segments chosen candidate := by
  induction segments generalizing chosen candidate with
  | nil => rfl
  | cons segment rest ih =>
    simp only [explore, ih]
    rfl

namespace Store

variable {s : Store} {t : Template} {c d : Condition} {x label : String} {id : Nat}

theorem paths_condition (s : Store) (t : Template) (c d : Condition) :
    s.paths (.make t c) = s.paths (.make t d) := by
  simp only [paths, explore_condition s t c d]
  rfl

/-- A condition that is added by AND leaves the matches that it holds of, in their order. -/
theorem Invariant.findMatches_and (h : s.Invariant) {found : List Match}
    (hfound : s.findMatches t c = .ok found) (hcheck : t.check s (c.and d) = .ok ()) :
    s.findMatches t (c.and d) = .ok (found.filter fun m => d.eval m.environment) := by
  have hc := Template.check_eq_ok_iff.2 (h.accepts_iff.1 ⟨found, hfound⟩)
  cases hfound.symm.trans (h.findMatches_eq hc)
  rw [h.findMatches_eq hcheck, paths_condition s t (c.and d) c, Plan.report, Plan.report,
    List.filter_filter]
  simp only [Plan.make, Condition.eval, Bool.and_comm]

/-! ### One node -/

/-- The pattern of a single node. -/
def single (x label : String) : Template := ⟨⟨some x, label⟩, []⟩

/-- What the pattern of a single node finds in a node. -/
def singleMatch (x : String) (n : Node) : Match := ⟨.ofList [(x, .node n)], ⟨n, []⟩⟩

theorem environment_singleMatch (x : String) (n : Node) :
    (singleMatch x n).environment x = some (.node n) := by
  rw [Match.environment, singleMatch, OrderedMap.get?_singleton, if_pos rfl]

theorem paths_single (s : Store) (x label : String) (c : Condition) :
    s.paths (.make (single x label) c) = (s.nodesLabeled label).map fun n => ⟨n, []⟩ :=
  List.map_eq_flatMap.symm

theorem check_single (h : s.hasLabel label = true) :
    (single x label).check s (.hasId x id) = .ok () := by
  refine Template.check_eq_ok_iff.2 ⟨?_, ?_, ?_⟩
  · exact List.forall_mem_singleton.2 h
  · rintro y _ _ hrole hrole'
    cases List.mem_singleton.1 hrole
    cases List.mem_singleton.1 hrole'
    rfl
  · exact List.forall_mem_singleton.2 ⟨_, List.mem_singleton_self _⟩

theorem Invariant.hasNode_eq (h : s.Invariant) (key : NodeKey) :
    s.hasNode key = (s.node? key).isSome := by
  rw [Bool.eq_iff_iff, h.hasNode_iff, Option.isSome_iff_exists]
  simp only [h.node?_eq_some_iff]

/-- Of the nodes of a label at most one has an id. -/
theorem Invariant.filter_id (h : s.Invariant) (label : String) (id : Nat) :
    ((s.nodesLabeled label).filter fun n => decide (n.key.id = id)) =
      (s.node? ⟨label, id⟩).toList := by
  have hmem : ∀ n, n ∈ (s.nodesLabeled label).filter (fun n => decide (n.key.id = id)) ↔
      s.node? ⟨label, id⟩ = some n := by
    intro n
    rw [List.mem_filter, h.mem_nodesLabeled_iff, decide_eq_true_iff, h.node?_eq_some_iff, and_assoc]
    refine and_congr_right fun _ => ⟨?_, fun hkey => ?_⟩
    · rintro ⟨rfl, rfl⟩
      rfl
    · rw [Node.label, hkey]
      exact ⟨rfl, rfl⟩
  have hnodup : ((s.nodesLabeled label).filter fun n => decide (n.key.id = id)).Nodup := by
    rw [h.nodesLabeled_eq_filter]
    exact (h.nodup_nodeList.filter _).filter _
  cases hfind : s.node? ⟨label, id⟩ with
  | none =>
    refine List.eq_nil_iff_forall_not_mem.2 fun n hn => ?_
    cases hfind.symm.trans ((hmem n).1 hn)
  | some m =>
    refine List.perm_singleton.1 ((List.perm_ext_iff_of_nodup hnodup (by simp)).2 fun n => ?_)
    rw [hmem, hfind, Option.some.injEq, List.mem_singleton, eq_comm]

/-- The pattern of a single node, with its id, finds the node of that identity. -/
theorem Invariant.findMatches_single (h : s.Invariant) (hlabel : s.hasLabel label = true)
    (hid : id ≤ greatestId) : s.findMatches (single x label) (.hasId x id) =
      .ok ((s.node? ⟨label, id⟩).toList.map (singleMatch x)) := by
  have heval : ∀ n ∈ s.nodesLabeled label,
      (Condition.hasId x id).eval (singleMatch x n).environment = decide (n.key.id = id) := by
    intro n hn
    have hlive : (Entity.node n).Live s := (h.mem_nodesLabeled_iff.1 hn).1
    rw [Bool.eq_iff_iff, Condition.eval_hasId h (environment_singleMatch x n) hlive hid,
      decide_eq_true_iff, Entity.id]
  rw [h.findMatches_eq (check_single hlabel), paths_single, Plan.report, List.map_map,
    ← h.filter_id, ← List.filter_congr heval, List.filter_map]
  rfl

/-! ### One relationship -/

/-- A relationship variable stands for a relationship of the store. -/
theorem IsMatch.exists_relationship {m : Match} (hm : s.IsMatch t c m)
    (hx : some x ∈ t.relationshipNames) :
    ∃ r ∈ s.relationshipList, m.environment x = some (.relationship r) := by
  have hlength : m.path.relationships.length = t.relationshipNames.length := by
    simp [Path.relationships, Template.relationshipNames, Template.relationshipSlots,
      hm.fits.walks.length_eq]
  obtain ⟨i, hi, hname⟩ := List.mem_iff_getElem.1 hx
  have hfilled : (some x, m.path.relationships[i]) ∈
      t.relationshipNames.zip m.path.relationships :=
    List.mem_iff_getElem.2 ⟨i, by simp; omega, by rw [List.getElem_zip, hname]⟩
  refine ⟨m.path.relationships[i], hm.fits.mem.2 _ (List.of_mem_zip hfilled).2, ?_⟩
  exact (hm.binds.environment_eq_some_iff hm.fits.walks.length_eq).2
    (Template.mem_filled_iff.2 (.inr ⟨_, rfl, hfilled⟩))

/-- A template that is admitted is admitted with a condition on a relationship variable
besides. -/
theorem check_and_hasId (hcheck : t.check s c = .ok ()) (hx : some x ∈ t.relationshipNames)
    (id : Nat) : t.check s (c.and (.hasId x id)) = .ok () := by
  obtain ⟨hknown, hrole, hdeclared⟩ := Template.check_eq_ok_iff.1 hcheck
  obtain ⟨slot, hslot, hname⟩ := List.mem_map.1 hx
  have huse : (some x, Role.relationship slot.kind) ∈ t.uses :=
    Template.mem_uses_iff.2 (.inr ⟨slot, hslot, by rw [hname]⟩)
  refine Template.check_eq_ok_iff.2 ⟨hknown, hrole, List.forall_mem_append.2 ⟨hdeclared, ?_⟩⟩
  exact List.forall_mem_singleton.2 ⟨_, huse⟩

/-- The id of a relationship variable leaves the matches that bind it to the relationship of
that identity. -/
theorem Invariant.findMatches_and_hasId (h : s.Invariant) (hcheck : t.check s c = .ok ())
    (hx : some x ∈ t.relationshipNames) (hid : id ≤ greatestId) {found : List Match}
    (hfound : s.findMatches t c = .ok found) : s.findMatches t (c.and (.hasId x id)) =
      .ok (found.filter fun m => (s.relationship? id).any fun r =>
        decide (m.environment x = some (.relationship r))) := by
  rw [h.findMatches_and hfound (check_and_hasId hcheck hx id)]
  refine congrArg Except.ok (List.filter_congr fun m hm => ?_)
  obtain ⟨r, hr, henv⟩ := ((h.mem_found_iff hfound).1 hm).exists_relationship hx
  rw [Bool.eq_iff_iff, Condition.eval_hasId h henv hr hid, Option.any_eq_true]
  constructor
  · rintro rfl
    exact ⟨r, h.relationship?_eq_some_iff.2 ⟨hr, rfl⟩, decide_eq_true henv⟩
  · rintro ⟨q, hq, heq⟩
    cases henv.symm.trans (of_decide_eq_true heq)
    exact (h.relationship?_eq_some_iff.1 hq).2

/-! ### Selection -/

/-- Selecting by id is selecting by identity. With its id, the pattern of a single node finds
the node of that identity if there is one and nothing otherwise. With the id of a relationship
variable, a template finds those of its matches that bind the variable to the relationship of
that identity, whatever this one carries. No entity of a store lacks an id, and none shows
another one. -/
theorem findMatches_hasId (h : s.Reachable) :
    (∀ label x id, s.hasLabel label = true → id ≤ greatestId →
      (s.hasNode ⟨label, id⟩ = true → ∃ n, s.node? ⟨label, id⟩ = some n ∧
        (singleMatch x n).environment x = some (.node n) ∧
        s.findMatches (single x label) (.hasId x id) = .ok [singleMatch x n]) ∧
      (s.hasNode ⟨label, id⟩ = false →
        s.findMatches (single x label) (.hasId x id) = .ok [])) ∧
    (∀ t c x id, t.check s c = .ok () → some x ∈ t.relationshipNames → id ≤ greatestId →
      ∃ found, s.findMatches t c = .ok found ∧
        (∀ m ∈ found, ∃ r ∈ s.relationshipList, m.environment x = some (.relationship r)) ∧
        s.findMatches t (c.and (.hasId x id)) =
          .ok (found.filter fun m => (s.relationship? id).any fun r =>
            decide (m.environment x = some (.relationship r)))) ∧
    ∀ e : Entity, e.Live s → e.property? "id" = some (.integer (.ofNat e.id)) ∧
      (Int64.ofNat e.id).toInt = e.id := by
  have hs := h.invariant
  refine ⟨fun label x id hlabel hid => ?_, fun t c x id hcheck hx hid => ?_, fun e he => ?_⟩
  · rw [hs.hasNode_eq, hs.findMatches_single hlabel hid]
    cases s.node? ⟨label, id⟩ with
    | none => exact ⟨nofun, fun _ => rfl⟩
    | some n => exact ⟨fun _ => ⟨n, rfl, environment_singleMatch x n, rfl⟩, nofun⟩
  · obtain ⟨found, hfound⟩ := hs.accepts_iff.2 (Template.check_eq_ok_iff.1 hcheck)
    refine ⟨found, hfound, fun m hm => ?_, hs.findMatches_and_hasId hcheck hx hid hfound⟩
    exact ((hs.mem_found_iff hfound).1 hm).exists_relationship hx
  · exact ⟨he.property?_id hs, toInt_ofNat_of_le (he.id_le hs)⟩

/-- Pairs of people one of whom knows the other one. -/
def knowingPair : Template :=
  ⟨⟨some "a", "Person"⟩, [(⟨some "r", "KNOWS", .outgoing⟩, ⟨some "b", "Person"⟩)]⟩

theorem findMatches_hasId_misleading :
    (∃ n, misleading.node? ⟨"Person", 2⟩ = some n ∧
      misleading.findMatches (single "a" "Person") (.hasId "a" 2) = .ok [singleMatch "a" n]) ∧
    misleading.findMatches (single "a" "Person") (.hasId "a" 3) = .ok [] ∧
    (∃ found, misleading.findMatches knowingPair .always = .ok found ∧
      misleading.findMatches knowingPair (.and .always (.hasId "r" 1)) =
        .ok (found.filter fun m => (misleading.relationship? 1).any fun r =>
          decide (m.environment "r" = some (.relationship r)))) ∧
    ∀ e : Entity, e.Live misleading → e.property? "id" = some (.integer (.ofNat e.id)) := by
  obtain ⟨hnodes, hrelationships, hlive⟩ := findMatches_hasId reachable_misleading
  refine ⟨?_, ?_, ?_, fun e he => (hlive e he).1⟩
  · obtain ⟨n, hn, -, hfound⟩ := (hnodes "Person" "a" 2 (by decide) (by decide)).1 (by decide)
    exact ⟨n, hn, hfound⟩
  · exact (hnodes "Person" "a" 3 (by decide) (by decide)).2 (by decide)
  · obtain ⟨found, hfound, -, hand⟩ :=
      hrelationships knowingPair .always "r" 1 rfl (by decide) (by decide)
    exact ⟨found, hfound, hand⟩

end Store

end PropertyGraph
