import PropertyGraph.Proofs.Pattern.Matching
import PropertyGraph.Proofs.Store.Era
import PropertyGraph.Proofs.Store.Remainder

/-! Tags over time. A tag is known from the first entity that is inserted with it, by itself
or with a document, until the store starts over; what is deleted in the meantime does not
matter, and what fails inserts nothing. So the history of a store tells which templates it
accepts, and a template that it has accepted is accepted as long as it does not start over. -/

namespace PropertyGraph

/-- The roles of the entries. -/
def Document.roles (d : Document) : List Role :=
  d.nodes.map (fun e => .node e.label) ++ d.relationships.map fun e => .relationship e.kind

/-- The roles of the entities that the operation inserts if it goes through. -/
def Operation.roles : Operation → List Role
  | .createNode label _ _ => [.node label]
  | .recoverNode n => [.node n.label]
  | .createRelationship kind _ _ _ => [.relationship kind]
  | .recoverRelationship r => [.relationship r.kind]
  | .load d => d.roles
  | _ => []

namespace Store

variable {s t : Store} {role : Role} {op : Operation}

/-! ### One insertion -/

theorem knows_empty (role : Role) : empty.knows role = false := by cases role <;> rfl

theorem knows_insertNode (s : Store) (n : Node) (role : Role) :
    (s.insertNode n).knows role = true ↔ s.knows role = true ∨ role = .node n.label := by
  cases role with
  | node label =>
    rw [knows, hasLabel, insertNode, OrderedMap.contains_update_iff, knows, hasLabel,
      Role.node.injEq, @eq_comm String label]
  | relationship kind => simp [knows, hasKind, insertNode]

theorem knows_insertRelationship (s : Store) (r : Relationship) (a b : Nat) (role : Role) :
    (s.insertRelationship r a b).knows role = true ↔
      s.knows role = true ∨ role = .relationship r.kind := by
  cases role with
  | node label => simp [knows, hasLabel, insertRelationship]
  | relationship kind =>
    rw [knows, hasKind, insertRelationship, OrderedMap.contains_update_iff, knows, hasKind,
      Role.relationship.injEq, @eq_comm String kind]

theorem knows_detach (s : Store) (e : Nat) (role : Role) :
    (s.detach e).knows role = s.knows role := by
  cases role with
  | node label => exact hasLabel_detach s e label
  | relationship kind => exact hasKind_detach s e kind

theorem knows_removeNode (s : Store) (key : NodeKey) (i : Nat) (n : Node) (role : Role) :
    (s.removeNode key i n).knows role = s.knows role := by
  cases role with
  | node label => exact hasLabel_removeNode s key i n label
  | relationship kind => exact hasKind_removeNode s key i n kind

/-! ### Documents -/

theorem knows_addNode {e : NodeEntry} (h : Document.addNode s e = .ok t) (role : Role) :
    t.knows role = true ↔ s.knows role = true ∨ role = .node e.label := by
  obtain ⟨n, hn, hr⟩ := bind_eq_ok_iff.1 h
  obtain ⟨-, -, -, rfl⟩ := Change.run_recoverNode_eq_ok_iff.1 (run_of_apply hr)
  have hlabel : n.label = e.label := by
    obtain ⟨properties, -, hn⟩ := bind_eq_ok_iff.1 hn
    cases hn
    rfl
  rw [knows_insertNode, hlabel]

theorem knows_addRelationship {e : RelationshipEntry} (h : Document.addRelationship s e = .ok t)
    (role : Role) : t.knows role = true ↔ s.knows role = true ∨ role = .relationship e.kind := by
  obtain ⟨r, hr, hrun⟩ := bind_eq_ok_iff.1 h
  obtain ⟨a, b, -, -, -, -, -, rfl⟩ :=
    Change.run_recoverRelationship_eq_ok_iff.1 (run_of_apply hrun)
  have hkind : r.kind = e.kind := by
    obtain ⟨properties, -, hr⟩ := bind_eq_ok_iff.1 hr
    cases hr
    rfl
  rw [knows_insertRelationship, hkind]
  rfl

theorem knows_foldlM {α : Type} {f : Store → α → Except StoreError Store} {roleOf : α → Role}
    (hf : ∀ s a t, f s a = .ok t → ∀ role,
      t.knows role = true ↔ s.knows role = true ∨ role = roleOf a)
    {l : List α} (h : l.foldlM f s = .ok t) (role : Role) :
    t.knows role = true ↔ s.knows role = true ∨ role ∈ l.map roleOf := by
  induction l generalizing s with
  | nil =>
    cases h
    simp
  | cons a rest ih =>
    obtain ⟨u, hu, hrest⟩ := foldlM_cons_eq_ok_iff.1 h
    rw [ih hrest, hf s a u hu, List.map_cons, List.mem_cons, or_assoc]

theorem knows_toStore {d : Document} (h : d.toStore = .ok t) (role : Role) :
    t.knows role = true ↔ role ∈ d.roles := by
  obtain ⟨s, hs, ht⟩ := bind_eq_ok_iff.1 h
  rw [knows_foldlM (fun _ _ _ h => knows_addRelationship h) ht,
    knows_foldlM (fun _ _ _ h => knows_addNode h) hs, knows_empty, Document.roles, List.mem_append]
  simp

/-! ### One operation -/

open Change in
/-- After an operation that goes through, what it inserts is known besides what was known
before, unless the store has started over. -/
theorem knows_of_run {x : Unit} (hr : op.change.run s = .ok x t) (role : Role) :
    t.knows role = true ↔ role ∈ op.roles ∨ (op.restarts = false ∧ s.knows role = true) := by
  cases op with
  | createNode label id properties =>
    obtain ⟨_, _, hr, h'⟩ := run_bind_eq_ok_iff.1 hr
    cases h'
    obtain ⟨-, rfl, -, -, rfl⟩ := run_createNode_eq_ok_iff.1 hr
    rw [knows_insertNode]
    simp [Operation.roles, Operation.restarts, Node.label, or_comm]
  | updateNode key patch =>
    obtain ⟨i, n, -, -, -, rfl⟩ := run_updateNode_eq_ok_iff.1 hr
    simp [Operation.roles, Operation.restarts, knows, hasLabel, hasKind]
  | deleteNode key =>
    obtain ⟨_, _, hr, h'⟩ := run_bind_eq_ok_iff.1 hr
    cases h'
    obtain ⟨i, -, -, rfl⟩ := run_deleteNode_eq_ok_iff.1 hr
    simp [Operation.roles, Operation.restarts, knows_removeNode]
  | createRelationship kind source target properties =>
    obtain ⟨_, _, hr, h'⟩ := run_bind_eq_ok_iff.1 hr
    cases h'
    obtain ⟨a, b, -, -, -, rfl, -, rfl⟩ := run_createRelationship_eq_ok_iff.1 hr
    rw [knows_insertRelationship]
    simp [Operation.roles, Operation.restarts, or_comm, knows, hasLabel, hasKind]
  | updateRelationship id patch =>
    obtain ⟨e, r, -, -, -, rfl⟩ := run_updateRelationship_eq_ok_iff.1 hr
    simp [Operation.roles, Operation.restarts, knows, hasLabel, hasKind]
  | deleteRelationship id =>
    obtain ⟨_, _, hr, h'⟩ := run_bind_eq_ok_iff.1 hr
    cases h'
    obtain ⟨e, -, -, rfl⟩ := run_deleteRelationship_eq_ok_iff.1 hr
    simp [Operation.roles, Operation.restarts, knows_detach]
  | recoverNode n =>
    obtain ⟨-, -, -, rfl⟩ := run_recoverNode_eq_ok_iff.1 hr
    rw [knows_insertNode]
    simp [Operation.roles, Operation.restarts, or_comm]
  | recoverRelationship r =>
    obtain ⟨a, b, -, -, -, -, -, rfl⟩ := run_recoverRelationship_eq_ok_iff.1 hr
    rw [knows_insertRelationship]
    simp [Operation.roles, Operation.restarts, or_comm, knows, hasLabel, hasKind]
  | clear =>
    cases hr
    simp [Operation.roles, Operation.restarts, knows_empty]
  | load d =>
    obtain ⟨u, hd, hset⟩ := run_require_bind_eq_ok_iff.1 hr
    cases hset
    simp [Operation.roles, Operation.restarts, knows_toStore hd, hd, Except.isOk, Except.toBool]

/-- A store starts over by operations that go through only. -/
theorem restarts_of_error {e : StoreError} (hr : op.change.run s = .error e t) :
    op.restarts = false := by
  cases op with
  | clear => cases hr
  | load d =>
    cases hd : d.toStore with
    | error why =>
      rw [Operation.restarts, hd]
      rfl
    | ok u => cases hr.symm.trans (run_load hd)
  | _ => rfl

end Store

/-! ### Histories -/

/-- The operation goes through, and inserts an entity of the role. -/
def Operation.Inserts (op : Operation) (s : Store) (role : Role) : Prop :=
  (∃ t, op.change.run s = .ok () t) ∧ role ∈ op.roles

/-- An entity of the role was inserted, and the store has not started over since. -/
def Inserted (ops : List Operation) (role : Role) : Prop :=
  ∃ before op since, ops = before ++ op :: since ∧ op.Inserts (Store.history before) role ∧
    ∀ o ∈ since, o.restarts = false

theorem Inserted.append {ops more : List Operation} {role : Role} (h : Inserted ops role)
    (hmore : ∀ op ∈ more, op.restarts = false) : Inserted (ops ++ more) role := by
  obtain ⟨before, op, since, rfl, hop, hsince⟩ := h
  refine ⟨before, op, since ++ more, by simp, hop, ?_⟩
  exact List.forall_mem_append.2 ⟨hsince, hmore⟩

theorem inserted_concat_iff {ops : List Operation} {op : Operation} {role : Role} :
    Inserted (ops ++ [op]) role ↔
      op.Inserts (Store.history ops) role ∨ (op.restarts = false ∧ Inserted ops role) := by
  constructor
  · rintro ⟨before, o, since, hops, ho, hsince⟩
    -- either the last operation inserts, or it is one of those since then
    rcases List.eq_nil_or_concat' since with rfl | ⟨front, last, rfl⟩
    · obtain ⟨rfl, hlast⟩ := List.append_inj' hops rfl
      cases hlast
      exact .inl ho
    · rw [← List.cons_append, ← List.append_assoc] at hops
      obtain ⟨rfl, hlast⟩ := List.append_inj' hops rfl
      cases hlast
      obtain ⟨hfront, hop⟩ := List.forall_mem_append.1 hsince
      exact .inr ⟨hop op (List.mem_singleton_self op), before, o, front, rfl, ho, hfront⟩
  · rintro (hop | ⟨hop, hins⟩)
    · exact ⟨ops, op, [], rfl, hop, nofun⟩
    · exact hins.append (List.forall_mem_singleton.2 hop)

namespace Store

/-- What one operation makes known; one that fails leaves the store as it was. -/
theorem knows_after_iff (s : Store) (op : Operation) (role : Role) :
    (op.change.after s).knows role = true ↔
      op.Inserts s role ∨ (op.restarts = false ∧ s.knows role = true) := by
  unfold Change.after
  split
  · next x t hr =>
    have hins : op.Inserts s role ↔ role ∈ op.roles := and_iff_right ⟨t, hr⟩
    rw [hins, knows_of_run hr]
  · next e t hr =>
    have hnone : ¬ op.Inserts s role := by
      rintro ⟨⟨u, hu⟩, -⟩
      cases hr.symm.trans hu
    obtain rfl : t = s := atomic_operation op s e t hr
    simp [hnone, restarts_of_error hr]

/-- A store knows the tags of what was inserted since it last started over. -/
theorem knows_history_iff (ops : List Operation) (role : Role) :
    (history ops).knows role = true ↔ Inserted ops role := by
  induction ops using List.reverseRecOn with
  | nil =>
    refine iff_of_false (Bool.eq_false_iff.1 (knows_empty role)) ?_
    rintro ⟨before, op, since, hnil, -⟩
    simp at hnil
  | append_singleton ops op ih =>
    rw [history_concat, knows_after_iff, ih, inserted_concat_iff]

/-- After every history the known tags are those of what was inserted since the store last
started over. A template is accepted exactly if all its tags are known, every variable stands
in slots of one label or of one kind only and the condition asks for variables of the
template; otherwise it is refused as a pattern. What is accepted stays accepted until the
store starts over, whatever else is done or fails. -/
theorem accepts_history (ops : List Operation) :
    (∀ label, (history ops).hasLabel label = true ↔ Inserted ops (.node label)) ∧
    (∀ kind, (history ops).hasKind kind = true ↔ Inserted ops (.relationship kind)) ∧
    ∀ T condition,
      ((history ops).Accepts T condition ↔ T.Admissible (history ops) condition) ∧
      (¬ T.Admissible (history ops) condition →
        ∃ fault, (history ops).findMatches T condition = .error (.pattern fault)) ∧
      ∀ more : List Operation, (∀ op ∈ more, op.restarts = false) →
        (history ops).Accepts T condition → (history (ops ++ more)).Accepts T condition := by
  refine ⟨fun label => knows_history_iff ops (.node label),
    fun kind => knows_history_iff ops (.relationship kind), fun T condition =>
    ⟨(invariant_history ops).accepts_iff, findMatches_of_not_admissible, fun more hmore h => ?_⟩⟩
  obtain ⟨hknown, hone, hdeclared⟩ := (invariant_history ops).accepts_iff.1 h
  refine (invariant_history _).accepts_iff.2 ⟨fun use huse => ?_, hone, hdeclared⟩
  have hins := (knows_history_iff ops use.2).1 (hknown use huse)
  exact (knows_history_iff _ use.2).2 (hins.append hmore)

/-- A label stays known after its only node is deleted. -/
theorem accepts_after_deletion : Accepts
    (history ([.createNode "Person" none ∅] ++ [.deleteNode ⟨"Person", 1⟩]))
    ⟨⟨some "a", "Person"⟩, []⟩ .always := by
  have haccepts := ((accepts_history [.createNode "Person" none ∅]).2.2
    ⟨⟨some "a", "Person"⟩, []⟩ .always).1.2 (Template.check_eq_ok_iff.1 rfl)
  exact ((accepts_history [.createNode "Person" none ∅]).2.2 _ _).2.2 _
    (List.forall_mem_singleton.2 rfl) haccepts

end Store

end PropertyGraph
