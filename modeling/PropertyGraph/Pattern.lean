import PropertyGraph.Execution
import PropertyGraph.Path

/-! Patterns: a node slot followed by segments of a relationship slot and a node slot.
Slots may be named, and slots of one name stand for the same entity. Before a search
a pattern is checked against the store and the condition. -/

namespace PropertyGraph

structure NodeSlot where
  name : Option String
  label : String
deriving DecidableEq

/-- `direction` is relative to the node slot before it. -/
structure RelationshipSlot where
  name : Option String
  kind : String
  direction : Direction
deriving DecidableEq

structure Template where
  start : NodeSlot
  segments : List (RelationshipSlot × NodeSlot)
deriving DecidableEq

namespace Template

def nodeSlots (t : Template) : List NodeSlot := t.start :: t.segments.map Prod.snd

def relationshipSlots (t : Template) : List RelationshipSlot := t.segments.map Prod.fst

end Template

/-! ### Admission -/

/-- What a variable is declared as. -/
inductive Role where
  | node (label : String)
  | relationship (kind : String)
deriving DecidableEq

abbrev Roles := OrderedMap String Role

namespace Roles

/-- A variable may be declared again only in the same role. -/
def declare (roles : Roles) (name : Option String) (role : Role) :
    Except PatternFault Roles :=
  match name with
  | none => .ok roles
  | some x =>
    match OrderedMap.get? roles x with
    | none => .ok (OrderedMap.insert roles x role)
    | some known =>
      if known = role then .ok roles
      else match known, role with
        | .node _, .node _ => .error (.conflictingLabels x)
        | .relationship _, .relationship _ => .error (.conflictingKinds x)
        | _, _ => .error (.nodeAndRelationship x)

end Roles

namespace Template

def declareNode (s : Store) (roles : Roles) (slot : NodeSlot) : Except PatternFault Roles :=
  if s.hasLabel slot.label then roles.declare slot.name (.node slot.label)
  else .error (.unknownLabel slot.label)

def declareRelationship (s : Store) (roles : Roles) (slot : RelationshipSlot) :
    Except PatternFault Roles :=
  if s.hasKind slot.kind then roles.declare slot.name (.relationship slot.kind)
  else .error (.unknownKind slot.kind)

/-- The roles of a template's variables: the node slots are declared first, then the
relationship slots. -/
def roles (s : Store) (t : Template) : Except PatternFault Roles := do
  let roles ← t.nodeSlots.foldlM (declareNode s) ∅
  t.relationshipSlots.foldlM (declareRelationship s) roles

/-- Admits a template whose tags are known, whose variables have one role each, and
which declares the variables of the condition. -/
def check (s : Store) (t : Template) (condition : Condition) : Except PatternFault Unit := do
  let roles ← t.roles s
  match condition.variableNames.find? fun x => !(OrderedMap.contains roles x) with
  | some x => .error (.undeclared x)
  | none => .ok ()

end Template

/-! ### Matches -/

/-- A path that fits a template, with the entities bound to its variables. -/
structure Match where
  bindings : OrderedMap String Entity
  path : Path
deriving DecidableEq

namespace Match

def environment (m : Match) : Environment := m.bindings.get?

end Match

namespace Template

/-- Binds a variable unless it is bound already. -/
def bindVariable (m : OrderedMap String Entity) (name : Option String) (e : Entity) :
    OrderedMap String Entity :=
  match name with
  | some x => m.insertNew x e
  | none => m

/-- Binds the variables of segments to the hops in their places. -/
def bindHops (m : OrderedMap String Entity) :
    List (RelationshipSlot × NodeSlot) → List (Relationship × Node) → OrderedMap String Entity
  | (rs, ns) :: segments, (r, n) :: hops =>
    bindHops (bindVariable (bindVariable m rs.name (.relationship r)) ns.name (.node n))
      segments hops
  | _, _ => m

/-- The match that a path makes. -/
def matchOf (t : Template) (p : Path) : Match :=
  ⟨bindHops (bindVariable ∅ t.start.name (.node p.start)) t.segments p.hops, p⟩

end Template

end PropertyGraph
