import PropertyGraph.Value
import PropertyGraph.Json.Source

/-! Values in JSON. An integer keeps its kind when 64 bits hold it and becomes a
double otherwise; null and objects are no values. There are two readers: one takes
an evaluated JSON value and says what is wrong with it, the other takes the syntax
tree and tries the kinds of value one after the other. -/

namespace PropertyGraph.Value

mutual

/-- A float that is not finite has no numeral and becomes null. -/
def toJson : Value → Json
  | .text s => .string s
  | .integer n => .number (.integer n.toInt)
  | .float x => if x.isFinite then .number (.float x) else .null
  | .boolean b => .boolean b
  | .array items => .array (itemsToJson items)

def itemsToJson : List Value → List Json
  | [] => []
  | v :: rest => toJson v :: itemsToJson rest

end

def ofNumber : JsonNumber → Value
  | .integer n =>
    match int64? n with
    | some i => .integer i
    | none => .float (.ofInt n)
  | .float x => .float x

mutual

def ofJson : Json → Except Objection Value
  | .string s => .ok (.text s)
  | .boolean b => .ok (.boolean b)
  | .number n =>
    match (ofNumber n).objection? with
    | some why => .error why
    | none => .ok (ofNumber n)
  | .array items => (itemsOfJson items).map .array
  | .null => .error .nullValue
  | .object _ => .error .nestedObject

def itemsOfJson : List Json → Except Objection (List Value)
  | [] => .ok []
  | x :: xs => do
    let v ← ofJson x
    let vs ← itemsOfJson xs
    .ok (v :: vs)

end

/-! ### From the syntax tree -/

def textOf? : Json.Source → Option Value
  | .string t => t.map .text
  | _ => none

def integerOf? : Json.Source → Option Value
  | .number l =>
    match l.value? with
    | some (.integer n) => (int64? n).map .integer
    | _ => none
  | _ => none

def floatOf? : Json.Source → Option Value
  | .number l =>
    match l.value? with
    | some (.integer n) => some (.float (.ofInt n))
    | some (.float x) => some (.float x)
    | none => none
  | _ => none

def booleanOf? : Json.Source → Option Value
  | .boolean b => some (.boolean b)
  | _ => none

mutual

/-- The first kind of value that a tree can be read as, in the order text, integer,
float, boolean, array. -/
def ofSource? (room : Nat) : Json.Source → Option Value
  | .array items =>
    match room with
    | 0 => none
    | room + 1 => (itemsOfSource? room items).map .array
  | s => textOf? s <|> integerOf? s <|> floatOf? s <|> booleanOf? s

def itemsOfSource? (room : Nat) : List Json.Source → Option (List Value)
  | [] => some []
  | x :: xs => do
    let v ← ofSource? room x
    let vs ← itemsOfSource? room xs
    some (v :: vs)

end

end PropertyGraph.Value
