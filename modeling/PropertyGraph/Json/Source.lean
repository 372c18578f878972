import PropertyGraph.Json.Number
import PropertyGraph.OrderedMap
import PropertyGraph.Text.Blank

/-! The syntax tree of a JSON text. Parts that nobody asks for only have to be well
formed, so numbers are kept as literals and a string with half of a surrogate pair
is kept without a text; both matter once the value is asked for. Nesting is bounded
for values that are asked for, counted from the outside. -/

namespace PropertyGraph.Json

inductive Source where
  | null
  | boolean (b : Bool)
  | number (literal : NumberLiteral)
  | string (text : Option String)
  | array (items : List Source)
  | object (members : List (Option String × Source))

namespace Source

instance : Inhabited Source := ⟨.null⟩

/-! ### Strings -/

def isHighHalf (n : Nat) : Bool := 0xd800 ≤ n && n < 0xdc00
def isLowHalf (n : Nat) : Bool := 0xdc00 ≤ n && n < 0xe000

/-- The character of a surrogate pair. -/
def pairChar (high low : Nat) : Char :=
  Char.ofNat (0x10000 + (high - 0xd800) * 0x400 + (low - 0xdc00))

def simpleEscape? : Char → Option Char
  | '"' => some '"'
  | '\\' => some '\\'
  | '/' => some '/'
  | 'b' => some '\x08'
  | 'f' => some '\x0c'
  | 'n' => some '\n'
  | 'r' => some '\r'
  | 't' => some '\t'
  | _ => none

/-- A piece of a string: a character, or half of a surrogate pair. -/
inductive Piece where
  | char (c : Char)
  | half (unit : Nat)
deriving DecidableEq

def Piece.ofUnit (n : Nat) : Piece :=
  if isHighHalf n || isLowHalf n then .half n else .char (Char.ofNat n)

/-- The text of some pieces; a half that is not followed by its other half has
none. -/
def join? : List Piece → Option (List Char)
  | [] => some []
  | .char c :: rest => (join? rest).map (c :: ·)
  | .half high :: .half low :: rest =>
    if isHighHalf high && isLowHalf low then (join? rest).map (pairChar high low :: ·) else none
  | .half _ :: _ => none

/-- The pieces of a string after its opening quote, and what follows the closing
quote. -/
def readPieces : List Char → Option (List Piece × List Char)
  | [] => none
  | '"' :: rest => some ([], rest)
  | '\\' :: 'u' :: a :: b :: c :: d :: rest => do
    let unit ← Digits.ofHex? [a, b, c, d]
    let (pieces, rest) ← readPieces rest
    some (.ofUnit unit :: pieces, rest)
  | '\\' :: c :: rest => do
    let c ← simpleEscape? c
    let (pieces, rest) ← readPieces rest
    some (.char c :: pieces, rest)
  | c :: rest =>
    if c.toNat < 32 then none
    else do
      let (pieces, rest) ← readPieces rest
      some (.char c :: pieces, rest)

/-- The text of a string, if it is one, and what follows the closing quote. -/
def readString (s : List Char) : Option (Option String × List Char) := do
  let (pieces, rest) ← readPieces s
  some ((join? pieces).map String.ofList, rest)

/-! ### Values -/

/-- A keyword at the front of a text. -/
def word? (w : String) (s : List Char) : Option (List Char) :=
  w.toList.isPrefixOf? s

def readKey (s : List Char) : Option (Option String × List Char) :=
  match Blank.skip s with
  | '"' :: s => do
    let (key, s) ← readString s
    match Blank.skip s with
    | ':' :: s => some (key, s)
    | _ => none
  | _ => none

mutual

/-- The value at the front of a text and what follows it. The nesting of the text
bounds the fuel that is needed. -/
def readValue : Nat → List Char → Option (Source × List Char)
  | 0, _ => none
  | fuel + 1, s =>
    match Blank.skip s with
    | '"' :: s => (readString s).map fun r => (.string r.1, r.2)
    | '[' :: s =>
      match Blank.skip s with
      | ']' :: s => some (.array [], s)
      | s => (readItems fuel s).map fun r => (.array r.1, r.2)
    | '{' :: s =>
      match Blank.skip s with
      | '}' :: s => some (.object [], s)
      | s => (readMembers fuel s).map fun r => (.object r.1, r.2)
    | 'n' :: s => (word? "ull" s).map fun r => (.null, r)
    | 't' :: s => (word? "rue" s).map fun r => (.boolean true, r)
    | 'f' :: s => (word? "alse" s).map fun r => (.boolean false, r)
    | s => (NumberLiteral.read s).map fun r => (.number r.1, r.2)

/-- Items up to the closing bracket. -/
def readItems : Nat → List Char → Option (List Source × List Char)
  | 0, _ => none
  | fuel + 1, s => do
    let (x, s) ← readValue fuel s
    match Blank.skip s with
    | ',' :: s => (readItems fuel s).map fun r => (x :: r.1, r.2)
    | ']' :: s => some ([x], s)
    | _ => none

/-- Members up to the closing brace. -/
def readMembers : Nat → List Char → Option (List (Option String × Source) × List Char)
  | 0, _ => none
  | fuel + 1, s => do
    let (key, s) ← readKey s
    let (x, s) ← readValue fuel s
    match Blank.skip s with
    | ',' :: s => (readMembers fuel s).map fun r => ((key, x) :: r.1, r.2)
    | '}' :: s => some ([(key, x)], s)
    | _ => none

end

def readChars (s : List Char) : Option Source := do
  let (x, rest) ← readValue (2 * s.length + 2) s
  if (Blank.skip rest).isEmpty then some x else none

/-- The tree of a text that is one JSON value and nothing else. -/
def read (text : String) : Option Source := readChars text.toList

/-! ### Evaluation -/

/-- How many arrays and objects may stand inside each other. -/
def nestingLimit : Nat := 127

mutual

/-- The value of a tree with room for so many more levels. A repeated key keeps its
first place and its last value. -/
def json? (room : Nat) : Source → Option Json
  | .null => some .null
  | .boolean b => some (.boolean b)
  | .number l => l.value?.map .number
  | .string text => text.map .string
  | .array items =>
    match room with
    | 0 => none
    | room + 1 => (jsonItems? room items).map .array
  | .object members =>
    match room with
    | 0 => none
    | room + 1 => (jsonMembers? room members).map fun ms => .object (OrderedMap.ofList ms).entries

def jsonItems? (room : Nat) : List Source → Option (List Json)
  | [] => some []
  | x :: xs => do
    let x ← json? room x
    let xs ← jsonItems? room xs
    some (x :: xs)

def jsonMembers? (room : Nat) : List (Option String × Source) → Option (List (String × Json))
  | [] => some []
  | (key, x) :: ms => do
    let key ← key
    let x ← json? room x
    let ms ← jsonMembers? room ms
    some ((key, x) :: ms)

end

end Source

/-- The value of a JSON text. -/
def read (text : String) : Option Json := do
  let s ← Source.read text
  s.json? Source.nestingLimit

end PropertyGraph.Json
