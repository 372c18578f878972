import PropertyGraph.Command.Literal

/-! Conditions in command texts. A property is written `variable.property` without
blanks. -/

namespace PropertyGraph.Draft

/-- The operators in the order in which they are tried. -/
def operatorSymbols : List (String × Operator) :=
  [("<=", .le), (">=", .ge), ("==", .eq), ("!=", .ne), ("<>", .ne), ("<", .lt), (">", .gt),
    ("=", .eq)]

def operator? (s : List Char) : Option (Operator × List Char) :=
  operatorSymbols.findSome? fun (symbol, op) => (Token.symbol? symbol s).map (op, ·)

def comparison? (s : List Char) : Option (Term × List Char) := do
  let (name, s) ← Token.word? s
  match s with
  | '.' :: s =>
    let (property, s) ← Token.wordHere? s
    let (op, s) ← operator? s
    let (l, s) ← value? s
    some (.comparison name property op l, s)
  | _ => none

def joint? (s : List Char) : Option (Condition.Joint × List Char) :=
  match Token.keyword? "AND" s with
  | some s => some (.and, s)
  | none => (Token.keyword? "OR" s).map fun s => (.or, s)

mutual

/-- A term at the front of a text. The nesting of the text bounds the fuel that is
needed. -/
def term? : Nat → List Char → Option (Term × List Char)
  | 0, _ => none
  | fuel + 1, s =>
    match Token.symbol? "(" s with
    | some s => do
      let (first, s) ← term? fuel s
      let (rest, s) ← restOfChain? fuel s
      let s ← Token.symbol? ")" s
      some (.group first rest, s)
    | none => comparison? s

/-- Joints and terms as long as a joint follows. -/
def restOfChain? : Nat → List Char → Option (List (Condition.Joint × Term) × List Char)
  | 0, _ => none
  | fuel + 1, s =>
    match joint? s with
    | none => some ([], s)
    | some (joint, s) => do
      let (t, s) ← term? fuel s
      let (rest, s) ← restOfChain? fuel s
      some ((joint, t) :: rest, s)

end

def chain? (s : List Char) : Option (Chain × List Char) := do
  let (first, t) ← term? (fuelFor s) s
  let (rest, t) ← restOfChain? (fuelFor s) t
  some (⟨first, rest⟩, t)

/-- A WHERE clause that may be left out. -/
def clause? (s : List Char) : Option (Option Chain × List Char) :=
  match Token.keyword? "WHERE" s with
  | none => some (none, s)
  | some s => (chain? s).map fun r => (some r.1, r.2)

/-- A text that is one condition and nothing else. -/
def readChain (s : List Char) : Option Chain := do
  let (c, rest) ← chain? s
  if (Blank.skip rest).isEmpty then some c else none

end PropertyGraph.Draft

namespace PropertyGraph

/-- The condition that a text says. -/
def Condition.read (text : String) : Except CommandError Condition :=
  match Draft.readChain (Blank.trimChars text.toList) with
  | none => .error .unreadable
  | some c => c.settle.mapError .fault

end PropertyGraph
