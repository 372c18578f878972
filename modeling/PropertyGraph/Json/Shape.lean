import PropertyGraph.Json.Source

/-! Structures in JSON. A structure of named fields is written as an object, whose
unknown members are passed over, or as an array of the fields in order. A field that
is given twice is an error, and null does not stand for a field that is missing. -/

namespace PropertyGraph.Json.Source

/-- The fields that were given, with the room left for what is inside them. -/
structure Fields where
  given : List (String × Source)
  room : Nat

namespace Fields

def get? (f : Fields) (name : String) : Option Source := f.given.lookup name

/-- A field that must be there. -/
def required {α : Type} (f : Fields) (name : String) (read : Nat → Source → Option α) :
    Option α :=
  (f.get? name).bind (read f.room)

/-- A field that may be missing. -/
def optional {α : Type} (f : Fields) (name : String) (absent : α)
    (read : Nat → Source → Option α) : Option α :=
  match f.get? name with
  | none => some absent
  | some s => read f.room s

end Fields

/-- The known members of an object; every key has to be a text. -/
def knownMembers? (names : List String) :
    List (Option String × Source) → Option (List (String × Source))
  | [] => some []
  | (key, s) :: rest => do
    let key ← key
    let rest ← knownMembers? names rest
    if key ∈ names then
      if rest.any (·.1 == key) then none else some ((key, s) :: rest)
    else some rest

/-- The fields of a structure with these field names. -/
def fields? (names : List String) (room : Nat) : Source → Option Fields
  | .object members =>
    match room with
    | 0 => none
    | room + 1 => (knownMembers? names members).map (⟨·, room⟩)
  | .array items =>
    match room with
    | 0 => none
    | room + 1 => if items.length ≤ names.length then some ⟨names.zip items, room⟩ else none
  | _ => none

def text? (_room : Nat) : Source → Option String
  | .string text => text
  | _ => none

/-- An integer literal of 64 bits without a sign. -/
def word64? (_room : Nat) : Source → Option Nat
  | .number l =>
    match l.value? with
    | some (.integer n) => if 0 ≤ n ∧ n < UInt64.size then some n.toNat else none
    | _ => none
  | _ => none

/-- An array of values that are read alike. -/
def listOf? {α : Type} (read : Nat → Source → Option α) (room : Nat) : Source → Option (List α)
  | .array items =>
    match room with
    | 0 => none
    | room + 1 => items.mapM (read room)
  | _ => none

/-- The members of an object as a map: a repeated key keeps its first place and its
last value. -/
def mapOf? {α : Type} (read : Nat → Source → Option α) (room : Nat) :
    Source → Option (OrderedMap String α)
  | .object members =>
    match room with
    | 0 => none
    | room + 1 => do
      let entries ← members.mapM fun (key, s) => do
        let key ← key
        let x ← read room s
        some (key, x)
      some (.ofList entries)
  | _ => none

end PropertyGraph.Json.Source
