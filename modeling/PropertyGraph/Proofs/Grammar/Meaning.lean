import Mathlib.Algebra.Group.Int.Defs
import Mathlib.Algebra.Group.Nat.Defs
import PropertyGraph.Command.Draft
import PropertyGraph.Proofs.Grammar.Run

/-! What trees stand for. A tree is taken apart by the rules of its parts, and wherever
something is missing or has another rule than the grammar puts there, that is a fault of the
tree. Numbers are read from their digits, the escapes of quoted texts are resolved, and a block
may not repeat a key. -/

namespace PropertyGraph.Grammar

/-- Why a tree stands for nothing. -/
inductive TreeFault where
  /-- A number is out of range or a key is repeated. -/
  | fault (fault : CommandFault)
  | missing (what : String)
  | empty (what : String)
  /-- The operators and terms of a condition do not alternate. -/
  | brokenChain
  | unrecognizedCommand (rule : Rule)
  | unknownDirection (text : String)
  | unknownOperator (text : String)
  | unexpectedTerm (rule : Rule)
  | unexpectedOperator (rule : Rule)
  | unexpectedValue (rule : Rule)
  | invalidInteger (text : String)
  | invalidFloat (text : String)
  | invalidId (text : String)
  | danglingEscape

/-- What there has to be. -/
def required {α : Type} (x : Option α) (what : String) : Except TreeFault α :=
  match x with
  | none => .error (.missing what)
  | some a => .ok a

/-! ### Numbers -/

inductive DigitsFault where
  | tooLarge
  | invalid

/-- Digits behind a natural, up to a greatest one. -/
def readDigits (greatest : Nat) : Nat → List Char → Except DigitsFault Nat
  | n, [] => .ok n
  | n, c :: s =>
    if c.isDigit then
      let n := 10 * n + (c.toNat - '0'.toNat)
      if n ≤ greatest then readDigits greatest n s else .error .tooLarge
    else .error .invalid

/-- A run of digits that is not empty. -/
def readNatural (greatest : Nat) : List Char → Except DigitsFault Nat
  | [] => .error .invalid
  | s => readDigits greatest 0 s

/-- A sign in front may be left out. -/
def readSign : List Char → Bool × List Char
  | '-' :: s => (true, s)
  | '+' :: s => (false, s)
  | s => (false, s)

def readInteger (text : List Char) : Except TreeFault Value :=
  let (negative, s) := readSign text
  match readNatural (if negative then 2 ^ 63 else 2 ^ 63 - 1) s with
  | .ok n => .ok (.integer (.ofInt (if negative then -n else n)))
  | .error .tooLarge => .error (.fault (if negative then .integerTooSmall (String.ofList text)
      else .integerTooLarge (String.ofList text)))
  | .error .invalid => .error (.invalidInteger (String.ofList text))

def withoutPlus : List Char → List Char
  | '+' :: s => s
  | s => s

/-- Ids have no minus sign. -/
def readId (text : List Char) : Except TreeFault Nat :=
  match readNatural (2 ^ 64 - 1) (withoutPlus text) with
  | .ok n => .ok n
  | .error .tooLarge => .error (.fault (.idTooLarge (String.ofList text)))
  | .error .invalid => .error (.invalidId (String.ofList text))

/-- Infinity and the not-a-number are written in words, in any letter case. -/
def readSpecial? (negative : Bool) (s : List Char) : Option Double :=
  match String.ofList (s.map Char.toLower) with
  | "inf" | "infinity" => some (.ofRank negative infinityRank)
  | "nan" => some .nan
  | _ => none

/-- The exponent that the rest of a numeral spells; none is zero. -/
def readExponent? : List Char → Option Int
  | [] => some 0
  | c :: s =>
    if c.toUpper = 'E' then
      let (small, s) := readSign s
      match Digits.split s with
      | (d :: ds, []) =>
        let e : Int := Digits.toNat (d :: ds)
        some (if small then -e else e)
      | _ => none
    else none

/-- The digits behind a point, if one follows. -/
def readFraction : List Char → List Char × List Char
  | '.' :: s => Digits.split s
  | s => ([], s)

/-- Digits before or after a point, and an exponent or none. -/
def readFloat? (text : List Char) : Option Double :=
  let (negative, s) := readSign text
  let (whole, behind) := Digits.split s
  let (fraction, rest) := readFraction behind
  if whole = [] ∧ fraction = [] then readSpecial? negative s
  else (readExponent? rest).map fun e =>
    .ofDecimal negative (Digits.toNat (whole ++ fraction)) (e - fraction.length)

/-! ### Quoted texts -/

/-- A text with its escapes resolved. -/
def resolve : List Char → Except TreeFault (List Char)
  | [] => .ok []
  | ['\\'] => .error .danglingEscape
  | '\\' :: 'n' :: s => (resolve s).map ('\n' :: ·)
  | '\\' :: 't' :: s => (resolve s).map ('\t' :: ·)
  | '\\' :: 'r' :: s => (resolve s).map ('\r' :: ·)
  | '\\' :: c :: s => (resolve s).map (c :: ·)
  | c :: s => (resolve s).map (c :: ·)

/-- The text between the quotes. -/
def quoted (inner : List Tree) : Except TreeFault String :=
  (resolve ((inner.head?.map Tree.text).getD [])).map String.ofList

/-! ### Values and properties -/

mutual

/-- The value of a tree that holds one. -/
def value : Tree → Except TreeFault Value
  | ⟨_, _, []⟩ => .error (.missing "value")
  | ⟨_, _, t :: _⟩ => literal t

def literal : Tree → Except TreeFault Value
  | ⟨.string, _, inner⟩ => (quoted inner).map .text
  | ⟨.integer, text, _⟩ => readInteger text
  | ⟨.float, text, _⟩ =>
    match readFloat? text with
    | some x => .ok (.float x)
    | none => .error (.invalidFloat (String.ofList text))
  | ⟨.boolean, text, _⟩ => .ok (.boolean (text.map Char.toUpper == "TRUE".toList))
  | ⟨.array, _, inner⟩ => (items inner).map .array
  | ⟨r, _, _⟩ => .error (.unexpectedValue r)

def items : List Tree → Except TreeFault (List Value)
  | [] => .ok []
  | t :: rest =>
    if t.rule = .value then do
      let v ← value t
      let vs ← items rest
      .ok (v :: vs)
    else items rest

end

/-- What is found of a property: its key and its value. -/
def addPart (found : Option String × Option Value) (t : Tree) :
    Except TreeFault (Option String × Option Value) :=
  match t.rule with
  | .key => .ok (some (String.ofList t.text), found.2)
  | .string => (quoted t.inner).map fun name => (some name, found.2)
  | .value => (value t).map fun v => (found.1, some v)
  | _ => .ok found

def keyAndValue (parts : List Tree) : Except TreeFault (Option String × Option Value) :=
  parts.foldlM addPart (none, none)

def addProperty (b : Bag) (t : Tree) : Except TreeFault Bag :=
  if t.rule = .property then do
    let (name, v) ← keyAndValue t.inner
    let name ← required name "property key"
    if b.contains name then .error (.fault (.repeatedKey name))
    else do
      let v ← required v "property value"
      .ok (b.insert name v)
  else .ok b

/-- The bag of a property block. -/
def bag (inner : List Tree) : Except TreeFault Bag := inner.foldlM addProperty ∅

/-! ### Conditions -/

def operatorOf (text : List Char) : Except TreeFault Operator :=
  match String.ofList text with
  | "<" => .ok .lt
  | "<=" => .ok .le
  | ">" => .ok .gt
  | ">=" => .ok .ge
  | "=" | "==" => .ok .eq
  | "!=" | "<>" => .ok .ne
  | other => .error (.unknownOperator other)

/-- What was found of a comparison. -/
structure ComparisonParts where
  name : Option String := none
  property : Option String := none
  operator : Option Operator := none
  value : Option Value := none

def ComparisonParts.addName (p : ComparisonParts) (t : Tree) : ComparisonParts :=
  match t.rule with
  | .variable => { p with name := some (String.ofList t.text) }
  | .key => { p with property := some (String.ofList t.text) }
  | _ => p

def ComparisonParts.add (p : ComparisonParts) (t : Tree) : Except TreeFault ComparisonParts :=
  match t.rule with
  | .propertyRef => .ok (t.inner.foldl addName p)
  | .operator => (operatorOf t.text).map fun op => { p with operator := some op }
  | .value => (Grammar.value t).map fun v => { p with value := some v }
  | _ => .ok p

def comparison (inner : List Tree) : Except TreeFault Condition := do
  let p ← inner.foldlM ComparisonParts.add {}
  let name ← required p.name "variable"
  let property ← required p.property "property"
  let op ← required p.operator "comparison operator"
  let v ← required p.value "literal"
  .ok (.comparison name property op v)

def jointOf (t : Tree) : Except TreeFault Condition.Joint :=
  match t.rule with
  | .and => .ok .and
  | .or => .ok .or
  | r => .error (.unexpectedOperator r)

mutual

def term : Tree → Except TreeFault Condition
  | ⟨.comparison, _, inner⟩ => comparison inner
  | ⟨.condition, _, inner⟩ => condition inner
  | ⟨r, _, _⟩ => .error (.unexpectedTerm r)

/-- Terms with operators between them. -/
def condition : List Tree → Except TreeFault Condition
  | [] => .error .brokenChain
  | t :: rest => do
    let c ← term t
    let more ← moreTerms rest
    .ok (.ofChain c more)

def moreTerms : List Tree → Except TreeFault (List (Condition.Joint × Condition))
  | [] => .ok []
  | [_] => .error .brokenChain
  | op :: t :: rest => do
    let c ← term t
    let joint ← jointOf op
    let more ← moreTerms rest
    .ok ((joint, c) :: more)

end

/-- The condition among some trees. -/
def conditionIn (ts : List Tree) (what : String) : Except TreeFault Condition :=
  match ts.find? (·.rule = .condition) with
  | none => .error (.empty what)
  | some t => condition t.inner

/-! ### Parts of statements -/

/-- What is found of a node: the first label and the first id. -/
def addKeyPart (found : Option String × Option Nat) (t : Tree) :
    Except TreeFault (Option String × Option Nat) :=
  match t.rule with
  | .label => .ok (found.1.or (some (String.ofList t.text)), found.2)
  | .nodeId =>
    if found.2.isSome then .ok found else (readId t.text).map fun n => (found.1, some n)
  | _ => .ok found

def nodeKey (parts : List Tree) : Except TreeFault NodeKey := do
  let (label, id) ← parts.foldlM addKeyPart (none, none)
  let label ← required label "node label"
  let id ← required id "node id"
  .ok ⟨label, id⟩

def directionOf (text : List Char) : Except TreeFault Direction :=
  match String.ofList (text.map Char.toUpper) with
  | "OUTGOING" => .ok .outgoing
  | "INCOMING" => .ok .incoming
  | "BOTH" => .ok .both
  | other => .error (.unknownDirection other)

/-- The text of the last tree of a rule. -/
def lastOf? (r : Rule) (ts : List Tree) : Option String :=
  (ts.findRev? (·.rule = r)).map fun t => String.ofList t.text

/-- The kind in an arrow. -/
def kindOf? (ts : List Tree) : Option String :=
  (ts.find? (·.rule = .kind)).map fun t => String.ofList t.text

/-- What is found of a step. -/
structure StepParts where
  kind : Option String := none
  direction : Direction := .outgoing
  label : Option String := none

def StepParts.add (p : StepParts) (t : Tree) : StepParts :=
  match t.rule with
  | .outArrow => { p with kind := kindOf? t.inner }
  | .inArrow => { p with kind := kindOf? t.inner, direction := .incoming }
  | .label => { p with label := some (String.ofList t.text) }
  | _ => p

def step (parts : List Tree) : Except TreeFault Step := do
  let p := parts.foldl StepParts.add {}
  let kind ← required p.kind "relationship type"
  .ok ⟨kind, p.direction, p.label⟩

def nodeSlot (parts : List Tree) : Except TreeFault NodeSlot := do
  let label ← required (lastOf? .label parts) "node label"
  .ok ⟨lastOf? .variable parts, label⟩

def relationshipSlot (direction : Direction) (parts : List Tree) :
    Except TreeFault RelationshipSlot := do
  let kind ← required (lastOf? .kind parts) "relationship type"
  .ok ⟨lastOf? .variable parts, kind, direction⟩

/-- What is found of a segment. -/
def addSegmentPart (found : Option RelationshipSlot × Option NodeSlot) (t : Tree) :
    Except TreeFault (Option RelationshipSlot × Option NodeSlot) :=
  match t.rule with
  | .outEdge => (relationshipSlot .outgoing t.inner).map fun r => (some r, found.2)
  | .inEdge => (relationshipSlot .incoming t.inner).map fun r => (some r, found.2)
  | .nodeSlot => (nodeSlot t.inner).map fun n => (found.1, some n)
  | _ => .ok found

def segment (parts : List Tree) : Except TreeFault (RelationshipSlot × NodeSlot) := do
  let (relationship, node) ← parts.foldlM addSegmentPart (none, none)
  let relationship ← required relationship "relationship pattern"
  let node ← required node "node pattern"
  .ok (relationship, node)

def path (parts : List Tree) : Except TreeFault String := do
  let t ← required ((parts.find? (·.rule = .filePath)).bind (·.inner.head?)) "file path"
  match t.rule with
  | .string => quoted t.inner
  | _ => .ok (String.ofList t.text)

/-! ### Statements -/

/-- What is found of a node to create. -/
def addNodePart (found : Option String × Bag) (t : Tree) : Except TreeFault (Option String × Bag) :=
  match t.rule with
  | .label => .ok (some (String.ofList t.text), found.2)
  | .properties => (bag t.inner).map fun b => (found.1, b)
  | _ => .ok found

def createNode (parts : List Tree) : Except TreeFault Command := do
  let (label, properties) ← parts.foldlM addNodePart (none, ∅)
  let label ← required label "node label"
  .ok (.createNode label properties)

/-- What was found of a relationship. -/
structure RelationshipParts where
  kind : Option String := none
  ends : List NodeKey := []
  properties : Bag := ∅

def RelationshipParts.add (p : RelationshipParts) (t : Tree) :
    Except TreeFault RelationshipParts :=
  match t.rule with
  | .kind => .ok { p with kind := some (String.ofList t.text) }
  | .nodeRef => (nodeKey t.inner).map fun k => { p with ends := p.ends ++ [k] }
  | .properties => (bag t.inner).map fun b => { p with properties := b }
  | _ => .ok p

/-- The statements that name a relationship by its ends, with their constructor. -/
def relationship (make : String → NodeKey → NodeKey → Bag → Command) (parts : List Tree) :
    Except TreeFault Command := do
  let p ← parts.foldlM RelationshipParts.add {}
  let source ← required p.ends[0]? "FROM node"
  let target ← required p.ends[1]? "TO node"
  let kind ← required p.kind "relationship type"
  .ok (make kind source target p.properties)

/-- What is found of the filters of neighbours. -/
def addFilter (found : Option String × Direction) (t : Tree) :
    Except TreeFault (Option String × Direction) :=
  match t.rule with
  | .kind => .ok (some (String.ofList t.text), found.2)
  | .direction => (directionOf t.text).map fun d => (found.1, d)
  | _ => .ok found

def getNeighbors (parts : List Tree) : Except TreeFault Command := do
  let key ← nodeKey parts
  let (kind, direction) ← parts.foldlM addFilter (none, .outgoing)
  .ok (.getNeighbors key kind direction)

def updateNode (parts : List Tree) : Except TreeFault Command := do
  let key ← nodeKey parts
  let properties ← match parts.find? (·.rule = .properties) with
    | none => .ok ∅
    | some t => bag t.inner
  .ok (.updateNode key properties)

def deleteRelationship (parts : List Tree) : Except TreeFault Command := do
  let t ← required (parts.find? (·.rule = .relationshipId)) "relationship id"
  let id ← readId t.text
  .ok (.deleteRelationship id)

/-- What was found of a traversal. -/
structure TraversalParts where
  start : Option NodeKey := none
  steps : List Step := []
  condition : Condition := .always

def TraversalParts.add (p : TraversalParts) (t : Tree) : Except TreeFault TraversalParts :=
  match t.rule with
  | .nodeRef => (nodeKey t.inner).map fun k => { p with start := some k }
  | .step => (Grammar.step t.inner).map fun x => { p with steps := p.steps ++ [x] }
  | .whereClause =>
    (conditionIn t.inner "WHERE clause").map fun c => { p with condition := c }
  | _ => .ok p

def traverse (parts : List Tree) : Except TreeFault Command := do
  let p ← parts.foldlM TraversalParts.add {}
  let start ← required p.start "start node"
  .ok (.traverse start p.steps p.condition)

/-- What was found of a pattern. -/
structure PatternParts where
  start : Option NodeSlot := none
  segments : List (RelationshipSlot × NodeSlot) := []
  condition : Condition := .always

def PatternParts.add (p : PatternParts) (t : Tree) : Except TreeFault PatternParts :=
  match t.rule with
  | .nodeSlot => (nodeSlot t.inner).map fun n => { p with start := some n }
  | .segment => (Grammar.segment t.inner).map fun x => { p with segments := p.segments ++ [x] }
  | .whereClause =>
    (conditionIn t.inner "WHERE clause").map fun c => { p with condition := c }
  | _ => .ok p

def findMatches (parts : List Tree) : Except TreeFault Command := do
  let p ← parts.foldlM PatternParts.add {}
  let start ← required p.start "start node pattern"
  .ok (.findMatches ⟨start, p.segments⟩ p.condition)

def statement : Tree → Except TreeFault Command
  | ⟨.createNode, _, parts⟩ => createNode parts
  | ⟨.createRelationship, _, parts⟩ => relationship .createRelationship parts
  | ⟨.getNode, _, parts⟩ => (nodeKey parts).map .getNode
  | ⟨.getNeighbors, _, parts⟩ => getNeighbors parts
  | ⟨.updateNode, _, parts⟩ => updateNode parts
  | ⟨.deleteNode, _, parts⟩ => (nodeKey parts).map .deleteNode
  | ⟨.updateRelationship, _, parts⟩ => relationship .updateRelationship parts
  | ⟨.deleteRelationship, _, parts⟩ => deleteRelationship parts
  | ⟨.traverse, _, parts⟩ => traverse parts
  | ⟨.findMatches, _, parts⟩ => findMatches parts
  | ⟨.exportTo, _, parts⟩ => (path parts).map .exportTo
  | ⟨.importFrom, _, parts⟩ => (path parts).map .importFrom
  | ⟨r, _, _⟩ => .error (.unrecognizedCommand r)

/-- The command of a whole text. -/
def command (t : Tree) : Except TreeFault Command :=
  match t.inner with
  | [] => .error (.empty "command")
  | s :: _ => statement s

/-- The condition of a whole text. -/
def soleCondition (t : Tree) : Except TreeFault Condition := conditionIn t.inner "condition"

/-! ### Defects -/

/-- The integer that an optional minus sign and digits spell. -/
def integerOf : List Char → Int
  | '-' :: digits => -(Digits.toNat digits : Int)
  | digits => Digits.toNat digits

/-- The key of a property, bare or quoted. -/
def keyOf? (t : Tree) : Option String :=
  match t.inner with
  | ⟨.key, text, _⟩ :: _ => some (String.ofList text)
  | ⟨.string, _, inner⟩ :: _ => (quoted inner).toOption
  | _ => none

/-- The tree is an id or an integer out of range, or a block where two keys are the same
text. -/
inductive Tree.IsDefect : Tree → Prop where
  | nodeId {digits : List Char} {inner : List Tree} : 2 ^ 64 ≤ Digits.toNat digits →
    IsDefect ⟨.nodeId, digits, inner⟩
  | relationshipId {digits : List Char} {inner : List Tree} : 2 ^ 64 ≤ Digits.toNat digits →
    IsDefect ⟨.relationshipId, digits, inner⟩
  | integer {text : List Char} {inner : List Tree} :
    integerOf text < -2 ^ 63 ∨ 2 ^ 63 ≤ integerOf text → IsDefect ⟨.integer, text, inner⟩
  | properties {text : List Char} {inner : List Tree} : ¬ (inner.filterMap keyOf?).Nodup →
    IsDefect ⟨.properties, text, inner⟩

/-- There is a defect in the tree, at any depth. -/
inductive Tree.HasDefect : Tree → Prop where
  | here {t : Tree} : t.IsDefect → t.HasDefect
  | inside {t u : Tree} : u ∈ t.inner → u.HasDefect → t.HasDefect

end PropertyGraph.Grammar
