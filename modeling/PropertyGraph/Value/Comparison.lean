import PropertyGraph.Value

/-! Comparison of values across kinds. Text compares with text by code points,
numbers with numbers, booleans and arrays for equality only; everything else is
incomparable. Two integers compare exactly, an integer and a float as doubles. -/

namespace PropertyGraph

namespace Value

def numbersAgree (a b : Value) : Option Bool := do
  let x ← a.number?
  let y ← b.number?
  some (x.sameNumber y)

mutual

/-- Equality, where it makes sense. -/
def looseEq : Value → Value → Option Bool
  | .text s, .text t => some (s == t)
  | .integer m, .integer n => some (m == n)
  | .boolean b, .boolean c => some (b == c)
  | .array xs, .array ys => some (looseEqItems xs ys)
  | a, b => numbersAgree a b

/-- Arrays are equal when they have equal items in the same places. -/
def looseEqItems : List Value → List Value → Bool
  | [], [] => true
  | x :: xs, y :: ys => looseEq x y == some true && looseEqItems xs ys
  | _, _ => false

end

/-- Order of numbers and of texts. -/
def looseCompare : Value → Value → Option Ordering
  | .text s, .text t => some (compareOfLessAndEq s t)
  | .integer m, .integer n => some (compare m.toInt n.toInt)
  | a, b => do
    let x ← a.number?
    let y ← b.number?
    x.compare? y

mutual

/-- Equality of kind and content; floats agree as numbers. -/
def sameContent : Value → Value → Bool
  | .text s, .text t => s == t
  | .integer m, .integer n => m == n
  | .float x, .float y => x.sameNumber y
  | .boolean b, .boolean c => b == c
  | .array xs, .array ys => sameItems xs ys
  | _, _ => false

def sameItems : List Value → List Value → Bool
  | [], [] => true
  | x :: xs, y :: ys => sameContent x y && sameItems xs ys
  | _, _ => false

end

end Value

/-! ### Operators -/

inductive Operator where
  | lt | le | gt | ge | eq | ne
deriving DecidableEq, Repr

namespace Operator

def symbol : Operator → String
  | .lt => "<"
  | .le => "<="
  | .gt => ">"
  | .ge => ">="
  | .eq => "="
  | .ne => "!="

/-- Whether an operator holds between two values. Between incomparable values none
does, not even `!=`. -/
def holds (op : Operator) (a b : Value) : Bool :=
  match op with
  | .eq => a.looseEq b == some true
  | .ne => a.looseEq b == some false
  | .lt => a.looseCompare b == some .lt
  | .le => a.looseCompare b == some .lt || a.looseCompare b == some .eq
  | .gt => a.looseCompare b == some .gt
  | .ge => a.looseCompare b == some .gt || a.looseCompare b == some .eq

end Operator

end PropertyGraph
