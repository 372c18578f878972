import PropertyGraph.Pattern
import PropertyGraph.Proofs.Condition
import PropertyGraph.Proofs.Except
import PropertyGraph.Proofs.OrderedMap

/-! Which templates are admitted. A template uses its names in roles, and the uses are
declared one after the other, those in node slots first. A declaration is compared with the
first one of its name only; that is enough, since all uses before it have kept the role of
the first one. So a template is admitted exactly if its tags are known, no name has two roles
and the condition asks for names in use. -/

namespace PropertyGraph

/-- Whether the store knows the tag that makes the role. -/
def Store.knows (s : Store) : Role → Bool
  | .node label => s.hasLabel label
  | .relationship kind => s.hasKind kind

def Role.unknown : Role → PatternFault
  | .node label => .unknownLabel label
  | .relationship kind => .unknownKind kind

namespace Roles

variable {roles roles' : Roles} {uses done : List (Option String × Role)} {name : Option String}
  {role : Role} {s : Store}

/-- The variables have the roles that they are used in. -/
def Records (roles : Roles) (uses : List (Option String × Role)) : Prop :=
  ∀ x role, OrderedMap.get? roles x = some role ↔ (some x, role) ∈ uses

/-- No variable is used in two roles. -/
def OneRole (uses : List (Option String × Role)) : Prop :=
  ∀ x a b, (some x, a) ∈ uses → (some x, b) ∈ uses → a = b

theorem records_empty : Records ∅ [] := fun _ _ => by simp

/-! ### One declaration -/

namespace Records

theorem oneRole (h : roles.Records uses) : OneRole uses := fun x a b ha hb =>
  Option.some.inj (((h x a).2 ha).symm.trans ((h x b).2 hb))

theorem declare (h : roles.Records uses) (hd : roles.declare name role = .ok roles') :
    roles'.Records (uses ++ [(name, role)]) := by
  intro x v
  rw [List.mem_append, List.mem_singleton, ← h x v]
  unfold Roles.declare at hd
  split at hd
  · cases hd
    simp
  · next y =>
    split at hd
    · next hnone =>
      cases hd
      rw [OrderedMap.get?_insert]
      by_cases hxy : y = x
      · subst hxy
        simp [hnone, eq_comm]
      · simp [hxy, Ne.symm hxy]
    · next known hknown =>
      split at hd
      · next hrole =>
        cases hd
        refine ⟨.inl, ?_⟩
        rintro (hx | hx)
        · exact hx
        · cases hx
          rw [hknown, hrole]
      · split at hd <;> cases hd

theorem exists_declare (h : roles.Records uses)
    (hsame : ∀ x known, name = some x → (some x, known) ∈ uses → known = role) :
    ∃ roles', roles.declare name role = .ok roles' := by
  unfold Roles.declare
  split
  · exact ⟨_, rfl⟩
  · next x =>
    split
    · exact ⟨_, rfl⟩
    · next known hknown =>
      rw [if_pos (hsame x known rfl ((h x known).1 hknown))]
      exact ⟨_, rfl⟩

end Records

/-! ### All declarations -/

/-- Declares a use if the store knows its tag. -/
def declareUse (s : Store) (roles : Roles) (use : Option String × Role) :
    Except PatternFault Roles :=
  if s.knows use.2 then roles.declare use.1 use.2 else .error use.2.unknown

theorem Records.foldlM (h : roles.Records done)
    (hd : uses.foldlM (declareUse s) roles = .ok roles') :
    (∀ use ∈ uses, s.knows use.2 = true) ∧ roles'.Records (done ++ uses) := by
  induction uses generalizing roles done with
  | nil =>
    cases hd
    exact ⟨nofun, by rwa [List.append_nil]⟩
  | cons use rest ih =>
    obtain ⟨next, hnext, hrest⟩ := foldlM_cons_eq_ok_iff.1 hd
    unfold declareUse at hnext
    split at hnext
    · next hknown =>
      obtain ⟨hall, hrecords⟩ := ih (h.declare hnext) hrest
      exact ⟨List.forall_mem_cons.2 ⟨hknown, hall⟩, by rwa [List.append_cons]⟩
    · cases hnext

theorem Records.exists_foldlM (h : roles.Records done) (hone : OneRole (done ++ uses))
    (hknown : ∀ use ∈ uses, s.knows use.2 = true) :
    ∃ roles', uses.foldlM (declareUse s) roles = .ok roles' := by
  induction uses generalizing roles done with
  | nil => exact ⟨roles, rfl⟩
  | cons use rest ih =>
    obtain ⟨name, role⟩ := use
    obtain ⟨huse, hrest⟩ := List.forall_mem_cons.1 hknown
    have hsame : ∀ x known, name = some x → (some x, known) ∈ done → known = role := by
      rintro x known rfl hmem
      exact hone x known role (List.mem_append_left _ hmem)
        (List.mem_append_right _ List.mem_cons_self)
    obtain ⟨next, hnext⟩ := h.exists_declare hsame
    rw [List.append_cons] at hone
    obtain ⟨roles', hroles'⟩ := ih (h.declare hnext) hone hrest
    exact ⟨roles', foldlM_cons_eq_ok_iff.2 ⟨next, (if_pos huse).trans hnext, hroles'⟩⟩

end Roles

namespace Template

variable {s : Store} {t : Template} {condition : Condition}

/-- The names of all slots in their roles, node slots first. -/
def uses (t : Template) : List (Option String × Role) :=
  t.nodeSlots.map (fun slot => (slot.name, .node slot.label)) ++
    t.relationshipSlots.map fun slot => (slot.name, .relationship slot.kind)

theorem mem_uses_iff {use : Option String × Role} : use ∈ t.uses ↔
    (∃ slot ∈ t.nodeSlots, (slot.name, .node slot.label) = use) ∨
      ∃ slot ∈ t.relationshipSlots, (slot.name, .relationship slot.kind) = use := by
  rw [uses, List.mem_append, List.mem_map, List.mem_map]

theorem roles_eq (s : Store) (t : Template) :
    t.roles s = t.uses.foldlM (Roles.declareUse s) ∅ := by
  simp only [uses, List.foldlM_append, List.foldlM_map]
  rfl

/-- The label or kind of every slot is known, every variable stands only in slots of one
label or only in slots of one kind, and the variables of the condition stand in slots. -/
structure Admissible (s : Store) (t : Template) (condition : Condition) : Prop where
  known : ∀ use ∈ t.uses, s.knows use.2 = true
  oneRole : Roles.OneRole t.uses
  declared : ∀ x ∈ condition.mentions, ∃ role, (some x, role) ∈ t.uses

theorem check_eq_ok_iff : t.check s condition = .ok () ↔ t.Admissible s condition := by
  rw [check, roles_eq]
  constructor
  · intro h
    obtain ⟨roles, hroles, hnames⟩ := bind_eq_ok_iff.1 h
    obtain ⟨hknown, hrecords⟩ := Roles.records_empty.foldlM hroles
    rw [List.nil_append] at hrecords
    refine ⟨hknown, hrecords.oneRole, fun x hx => ?_⟩
    split at hnames
    · cases hnames
    · next hfind =>
      have hcontains := List.find?_eq_none.1 hfind x (Condition.mem_variableNames.2 hx)
      rw [Bool.not_eq_true, Bool.not_eq_false'] at hcontains
      obtain ⟨role, hrole⟩ := OrderedMap.contains_iff.1 hcontains
      exact ⟨role, (hrecords x role).1 hrole⟩
  · rintro ⟨hknown, hone, hdeclared⟩
    obtain ⟨roles, hroles⟩ : ∃ roles, t.uses.foldlM (Roles.declareUse s) ∅ = .ok roles :=
      Roles.records_empty.exists_foldlM hone hknown
    obtain ⟨-, hrecords⟩ := Roles.records_empty.foldlM hroles
    rw [List.nil_append] at hrecords
    have hnone : (condition.variableNames.find? fun x => !(OrderedMap.contains roles x)) =
        none := by
      refine List.find?_eq_none.2 fun x hx => ?_
      obtain ⟨role, hrole⟩ := hdeclared x (Condition.mem_variableNames.1 hx)
      rw [OrderedMap.contains_iff.2 ⟨role, (hrecords x role).2 hrole⟩]
      decide
    rw [hroles, ok_bind, hnone]

end Template

end PropertyGraph
