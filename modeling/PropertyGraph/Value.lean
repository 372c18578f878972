import PropertyGraph.Double.Numeral
import PropertyGraph.OrderedMap

/-! Property values and bags of named values. A value is a text, a 64-bit integer, a
double, a boolean or an array of values; arrays nest and may mix kinds. A bag keeps
its properties in insertion order. -/

namespace PropertyGraph

inductive Value where
  | text (s : String)
  | integer (n : Int64)
  | float (x : Double)
  | boolean (b : Bool)
  | array (items : List Value)

/-- Properties by name, in insertion order. -/
abbrev Bag := OrderedMap String Value

namespace Value

instance : Inhabited Value := ⟨.boolean false⟩

mutual

def decEq : (a b : Value) → Decidable (a = b)
  | .text s, .text t => decidable_of_iff (s = t) (by simp)
  | .integer m, .integer n => decidable_of_iff (m = n) (by simp)
  | .float x, .float y => decidable_of_iff (x = y) (by simp)
  | .boolean b, .boolean c => decidable_of_iff (b = c) (by simp)
  | .array xs, .array ys => @decidable_of_iff _ (xs = ys) (by simp) (decEqItems xs ys)
  | .text _, .integer _ | .text _, .float _ | .text _, .boolean _ | .text _, .array _
  | .integer _, .text _ | .integer _, .float _ | .integer _, .boolean _ | .integer _, .array _
  | .float _, .text _ | .float _, .integer _ | .float _, .boolean _ | .float _, .array _
  | .boolean _, .text _ | .boolean _, .integer _ | .boolean _, .float _ | .boolean _, .array _
  | .array _, .text _ | .array _, .integer _ | .array _, .float _ | .array _, .boolean _ =>
    isFalse nofun

def decEqItems : (xs ys : List Value) → Decidable (xs = ys)
  | [], [] => isTrue rfl
  | [], _ :: _ | _ :: _, [] => isFalse nofun
  | x :: xs, y :: ys =>
    @decidable_of_iff _ (x = y ∧ xs = ys) (by simp)
      (@instDecidableAnd _ _ (decEq x y) (decEqItems xs ys))

end

instance : DecidableEq Value := decEq

/-! ### Views -/

def text? : Value → Option String
  | .text s => some s
  | _ => none

def integer? : Value → Option Int64
  | .integer n => some n
  | _ => none

def float? : Value → Option Double
  | .float x => some x
  | _ => none

def boolean? : Value → Option Bool
  | .boolean b => some b
  | _ => none

def items? : Value → Option (List Value)
  | .array items => some items
  | _ => none

/-- Integers and floats are both numbers; an integer is rounded to a double. -/
def number? : Value → Option Double
  | .integer n => some (.ofInt n.toInt)
  | .float x => some x
  | _ => none

/-! ### Storable values -/

mutual

/-- The first float of a value, at any depth, that is not finite. -/
def nonFinite? : Value → Option Double
  | .float x => if x.isFinite then none else some x
  | .array items => nonFiniteItem? items
  | _ => none

def nonFiniteItem? : List Value → Option Double
  | [] => none
  | v :: rest => (nonFinite? v).or (nonFiniteItem? rest)

end

/-- The 64-bit integer equal to `n`, if there is one. -/
def int64? (n : Int) : Option Int64 :=
  if -0x8000000000000000 ≤ n ∧ n < 0x8000000000000000 then some (.ofInt n) else none

/-! ### Display -/

mutual

/-- Text stands between double quotes as it is. -/
def display : Value → String
  | .text s => "\"" ++ s ++ "\""
  | .integer n => String.ofList (Digits.ofInt n.toInt)
  | .float x => Double.displayFormat.write x
  | .boolean b => if b then "true" else "false"
  | .array items => "[" ++ displayItems items ++ "]"

def displayItems : List Value → String
  | [] => ""
  | [v] => display v
  | v :: rest => display v ++ ", " ++ displayItems rest

end

end Value

/-! ### Objections -/

/-- Greatest id of a node or relationship: ids read as integer values. -/
def greatestId : Nat := 0x7fffffffffffffff

/-- Why a property cannot be stored. -/
inductive Objection where
  | emptyName
  | partOfIdentity
  | idTooLarge (id : Nat)
  | notAnId (value : Value)
  | nonFinite (x : Double)
  | nullValue
  | nestedObject
deriving DecidableEq

namespace Objection

def message : Objection → String
  | .emptyName => "property names must not be empty"
  | .partOfIdentity => "the id is part of the node identity"
  | .idTooLarge id => s!"id {id} exceeds the maximum of {greatestId}"
  | .notAnId value => "node id must be a non-negative integer, got " ++ value.display
  | .nonFinite x =>
    "non-finite float " ++ Double.displayFormat.write x ++ " is not supported"
  | .nullValue => "null values are not supported"
  | .nestedObject => "nested objects are not supported"

end Objection

def Value.objection? (v : Value) : Option Objection := v.nonFinite?.map .nonFinite

end PropertyGraph
