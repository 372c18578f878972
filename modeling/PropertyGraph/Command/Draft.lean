import PropertyGraph.Command

/-! Drafts: what the text of a command says before its numbers and keys are checked.
A draft still holds every integer and id as digits and a property block as the list
that was written. Settling a draft converts these from left to right; it fails at the
first integer or id that is out of range and at the first repeated key. -/

namespace PropertyGraph

/-- Why a draft stands for no command. -/
inductive CommandFault where
  | integerTooLarge (literal : String)
  | integerTooSmall (literal : String)
  | idTooLarge (digits : String)
  | repeatedKey (name : String)
deriving DecidableEq

def CommandFault.message : CommandFault → String
  | .integerTooLarge l => "invalid integer '" ++ l ++ "': number too large to fit in target type"
  | .integerTooSmall l => "invalid integer '" ++ l ++ "': number too small to fit in target type"
  | .idTooLarge d => "invalid id '" ++ d ++ "': number too large to fit in target type"
  | .repeatedKey name => "duplicate property key '" ++ name ++ "'"

/-- Why a text is no command. -/
inductive CommandError where
  | unreadable
  | fault (fault : CommandFault)
deriving DecidableEq

def CommandError.message : CommandError → String
  | .unreadable => "Parse error:"
  | .fault f => "Semantic error: " ++ f.message

namespace Draft

/-! ### Values and bags -/

inductive Literal where
  | text (s : String)
  | integer (negative : Bool) (digits : List Char)
  | float (x : Double)
  | boolean (b : Bool)
  | array (items : List Literal)

def settleInteger (negative : Bool) (digits : List Char) : Except CommandFault Value :=
  let n := Digits.toNat digits
  if negative then
    match Value.int64? (-(n : Int)) with
    | some i => .ok (.integer i)
    | none => .error (.integerTooSmall (String.ofList ('-' :: digits)))
  else
    match Value.int64? n with
    | some i => .ok (.integer i)
    | none => .error (.integerTooLarge (String.ofList digits))

namespace Literal

mutual

def settle : Literal → Except CommandFault Value
  | .text s => .ok (.text s)
  | .integer negative digits => settleInteger negative digits
  | .float x => .ok (.float x)
  | .boolean b => .ok (.boolean b)
  | .array items => (settleItems items).map .array

def settleItems : List Literal → Except CommandFault (List Value)
  | [] => .ok []
  | l :: rest => do
    let v ← settle l
    let vs ← settleItems rest
    .ok (v :: vs)

end

end Literal

/-- Adds the properties of a block to a bag. -/
def settleBag (b : Bag) : List (String × Literal) → Except CommandFault Bag
  | [] => .ok b
  | (name, l) :: rest => do
    let v ← l.settle
    if b.contains name then .error (.repeatedKey name)
    else settleBag (b.insert name v) rest

/-! ### Identities -/

def settleId (digits : List Char) : Except CommandFault Nat :=
  let n := Digits.toNat digits
  if n < UInt64.size then .ok n else .error (.idTooLarge (String.ofList digits))

structure Ref where
  label : String
  digits : List Char
deriving DecidableEq

def Ref.settle (r : Ref) : Except CommandFault NodeKey := do
  let id ← settleId r.digits
  .ok ⟨r.label, id⟩

/-! ### Conditions -/

/-- A comparison or a chain in parentheses. -/
inductive Term where
  | comparison (name property : String) (op : Operator) (literal : Literal)
  | group (first : Term) (rest : List (Condition.Joint × Term))

namespace Term

mutual

def settle : Term → Except CommandFault Condition
  | .comparison x p op l => do
    let v ← l.settle
    .ok (.comparison x p op v)
  | .group first rest => do
    let first ← settle first
    let rest ← settleRest rest
    .ok (.ofChain first rest)

def settleRest :
    List (Condition.Joint × Term) → Except CommandFault (List (Condition.Joint × Condition))
  | [] => .ok []
  | (joint, t) :: rest => do
    let c ← settle t
    let rest ← settleRest rest
    .ok ((joint, c) :: rest)

end

end Term

/-- Terms joined by AND and OR. -/
structure Chain where
  first : Term
  rest : List (Condition.Joint × Term)

def Chain.settle (c : Chain) : Except CommandFault Condition :=
  (Term.group c.first c.rest).settle

/-- A condition may be left out. -/
def settleCondition : Option Chain → Except CommandFault Condition
  | none => .ok .always
  | some c => c.settle

end Draft

/-! ### Commands -/

inductive Draft where
  | createNode (label : String) (properties : List (String × Draft.Literal))
  | createRelationship (kind : String) (source target : Draft.Ref)
      (properties : List (String × Draft.Literal))
  | getNode (ref : Draft.Ref)
  | getNeighbors (ref : Draft.Ref) (kind : Option String) (direction : Direction)
  | updateNode (ref : Draft.Ref) (properties : List (String × Draft.Literal))
  | deleteNode (ref : Draft.Ref)
  | updateRelationship (kind : String) (source target : Draft.Ref)
      (properties : List (String × Draft.Literal))
  | deleteRelationship (digits : List Char)
  | traverse (start : Draft.Ref) (steps : List Step) (condition : Option Draft.Chain)
  | findMatches (template : Template) (condition : Option Draft.Chain)
  | exportTo (path : String)
  | importFrom (path : String)

namespace Draft

/-- The command that a draft stands for. -/
def settle : Draft → Except CommandFault Command
  | .createNode label properties => do
    let properties ← settleBag ∅ properties
    .ok (.createNode label properties)
  | .createRelationship kind source target properties => do
    let source ← source.settle
    let target ← target.settle
    let properties ← settleBag ∅ properties
    .ok (.createRelationship kind source target properties)
  | .getNode ref => do
    let key ← ref.settle
    .ok (.getNode key)
  | .getNeighbors ref kind direction => do
    let key ← ref.settle
    .ok (.getNeighbors key kind direction)
  | .updateNode ref properties => do
    let key ← ref.settle
    let properties ← settleBag ∅ properties
    .ok (.updateNode key properties)
  | .deleteNode ref => do
    let key ← ref.settle
    .ok (.deleteNode key)
  | .updateRelationship kind source target properties => do
    let source ← source.settle
    let target ← target.settle
    let properties ← settleBag ∅ properties
    .ok (.updateRelationship kind source target properties)
  | .deleteRelationship digits => do
    let id ← settleId digits
    .ok (.deleteRelationship id)
  | .traverse start steps condition => do
    let start ← start.settle
    let condition ← settleCondition condition
    .ok (.traverse start steps condition)
  | .findMatches template condition => do
    let condition ← settleCondition condition
    .ok (.findMatches template condition)
  | .exportTo path => .ok (.exportTo path)
  | .importFrom path => .ok (.importFrom path)

end Draft

end PropertyGraph
