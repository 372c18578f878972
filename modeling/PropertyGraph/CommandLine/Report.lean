import PropertyGraph.Json.Layout
import PropertyGraph.Output
import PropertyGraph.Table

/-! Outputs as they are printed: as JSON records or as tables. -/

namespace PropertyGraph

/-! ### Cells -/

/-- A string as it is, anything else in compact JSON. -/
def Json.plain : Json → String
  | .string s => s
  | x => x.compact

namespace Cell

/-- The members that say what an object is. -/
def identifying : List String := ["id", "type", "from", "to"]

/-- What the object of a node or relationship is. -/
def head? (members : List (String × Json)) : Option String := do
  let kind ← members.lookup "type"
  match members.lookup "id" with
  | some id => some (kind.plain ++ ":" ++ id.compact)
  | none => do
    let source ← members.lookup "from"
    let target ← members.lookup "to"
    some ("[" ++ kind.plain ++ "] " ++ source.compact ++ " -> " ++ target.compact)

/-- A value in a cell. The object of a node or relationship says first what it is, and
then lists its other members if it has any. -/
def ofJson : Json → String
  | .object members =>
    match head? members with
    | none => (Json.object members).compact
    | some head =>
      match members.filter fun (name, _) => !identifying.contains name with
      | [] => head
      | rest => head ++ " " ++ (Json.object rest).compact
  | x => x.plain

end Cell

/-! ### Tables -/

namespace Output

def bindingsCell (bindings : List (String × String)) : String :=
  ", ".intercalate (bindings.map fun (x, e) => x ++ "=" ++ e)

/-- The row of a path; a match also has a cell for its variables. -/
def pathRow (number : Nat) (r : PathRecord) : List String :=
  [toString number, " ".intercalate r.path] ++ (r.bindings.map bindingsCell).toList

def pathHeader (records : List PathRecord) : List String :=
  if records.any (·.bindings.isSome) then ["#", "path", "bindings"] else ["#", "path"]

/-- The table of an output that has one. -/
def table? : Output → Option Table
  | .paths records =>
    some ⟨pathHeader records, records.zipIdx.map fun (r, i) => pathRow (i + 1) r⟩
  | .neighbors records =>
    some ⟨["node", "relationship"],
      records.map fun r => [Cell.ofJson r.node, Cell.ofJson r.relationship]⟩
  | .node (.object members) =>
    some ⟨["property", "value"], members.map fun (name, x) => [name, Cell.ofJson x]⟩
  | _ => none

/-- The number of results in a table. -/
def resultCount : Output → Nat
  | .paths records => records.length
  | .neighbors records => records.length
  | _ => 1

/-- An output as a table, if it has one and there are results, else in one line. -/
def asTable (o : Output) : String :=
  match o.table? with
  | none => o.summary ++ "\n"
  | some t =>
    if o.resultCount = 0 then "(no results)\n"
    else t.draw ++ "\n" ++ s!"{o.resultCount} row(s)\n"

def asJson (o : Output) : String := (Json.array o.records).pretty ++ "\n"

end Output

inductive Format where
  | table
  | json
deriving DecidableEq

namespace Format

def ofName? (name : String) : Option Format :=
  [("table", table), ("json", json)].lookup name

def print (format : Format) (o : Output) : String :=
  match format with
  | .table => o.asTable
  | .json => o.asJson

end Format

end PropertyGraph
