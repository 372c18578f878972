import PropertyGraph.Double

/-! JSON values. Numbers are integers or doubles, as their text was; an object keeps
its members in order. -/

namespace PropertyGraph

inductive JsonNumber where
  | integer (n : Int)
  | float (x : Double)
deriving DecidableEq

inductive Json where
  | null
  | boolean (b : Bool)
  | number (n : JsonNumber)
  | string (s : String)
  | array (items : List Json)
  | object (members : List (String × Json))

namespace Json

instance : Inhabited Json := ⟨.null⟩

def ofNat (n : Nat) : Json := .number (.integer n)

end Json

end PropertyGraph
