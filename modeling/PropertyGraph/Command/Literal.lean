import PropertyGraph.Command.Draft
import PropertyGraph.Command.Token

/-! Literals and property blocks of command texts. A numeral with a fraction or an
exponent is a float and is read to the nearest double. -/

namespace PropertyGraph.Draft

/-! ### Numerals -/

/-- A point and the digits after it; there must be some. -/
def fraction? : List Char → Option (List Char × List Char)
  | '.' :: s => Digits.split? s
  | _ => none

def afterExponentMark? : List Char → Option (List Char)
  | 'e' :: s => some s
  | 'E' :: s => some s
  | _ => none

def exponent? (s : List Char) : Option (Int × List Char) := do
  let s ← afterExponentMark? s
  let (negative, s) := match s with
    | '-' :: s => (true, s)
    | '+' :: s => (false, s)
    | s => (false, s)
  let (digits, s) ← Digits.split? s
  let e : Int := Digits.toNat digits
  some (if negative then -e else e, s)

/-- The double of a numeral. -/
def floatOf (negative : Bool) (whole fraction : List Char) (e : Int) : Double :=
  .ofDecimal negative (Digits.toNat (whole ++ fraction)) (e - fraction.length)

def unsigned? (negative : Bool) (s : List Char) : Option (Literal × List Char) := do
  let (whole, s) ← Digits.split? s
  match fraction? s with
  | some (fraction, s) =>
    match exponent? s with
    | some (e, s) => some (.float (floatOf negative whole fraction e), s)
    | none => some (.float (floatOf negative whole fraction 0), s)
  | none =>
    match exponent? s with
    | some (e, s) => some (.float (floatOf negative whole [] e), s)
    | none => some (.integer negative whole, s)

def numeral? : List Char → Option (Literal × List Char)
  | '-' :: s => unsigned? true s
  | s => unsigned? false s

def boolean? (s : List Char) : Option (Bool × List Char) :=
  match Token.keyword? "TRUE" s with
  | some s => some (true, s)
  | none => (Token.keyword? "FALSE" s).map fun s => (false, s)

/-! ### Values -/

mutual

/-- The literal at the front of a text and what follows it. The nesting of the text
bounds the fuel that is needed. -/
def literal? : Nat → List Char → Option (Literal × List Char)
  | 0, _ => none
  | fuel + 1, s =>
    match Blank.skip s with
    | '[' :: s =>
      match Token.symbol? "]" s with
      | some s => some (.array [], s)
      | none => (items? fuel s).map fun r => (.array r.1, r.2)
    | s =>
      match Token.quoted? s with
      | some (text, s) => some (.text text, s)
      | none =>
        match numeral? s with
        | some r => some r
        | none => (boolean? s).map fun r => (.boolean r.1, r.2)

/-- Items up to the closing bracket. -/
def items? : Nat → List Char → Option (List Literal × List Char)
  | 0, _ => none
  | fuel + 1, s => do
    let (l, s) ← literal? fuel s
    match Blank.skip s with
    | ',' :: s => (items? fuel s).map fun r => (l :: r.1, r.2)
    | ']' :: s => some ([l], s)
    | _ => none

end

/-- Enough fuel for any text of this length. -/
def fuelFor (s : List Char) : Nat := 2 * s.length + 2

def value? (s : List Char) : Option (Literal × List Char) := literal? (fuelFor s) s

/-! ### Property blocks -/

/-- A key is a word or a quoted text. -/
def key? (s : List Char) : Option (String × List Char) := (Token.word? s).or (Token.quoted? s)

def property? (s : List Char) : Option ((String × Literal) × List Char) := do
  let (key, s) ← key? s
  let s ← Token.symbol? ":" s
  let (l, s) ← value? s
  some ((key, l), s)

/-- Properties up to the closing brace. -/
def properties? : Nat → List Char → Option (List (String × Literal) × List Char)
  | 0, _ => none
  | fuel + 1, s => do
    let (p, s) ← property? s
    match Blank.skip s with
    | ',' :: s => (properties? fuel s).map fun r => (p :: r.1, r.2)
    | '\x7d' :: s => some ([p], s)
    | _ => none

/-- A property block. -/
def block? (s : List Char) : Option (List (String × Literal) × List Char) := do
  let s ← Token.symbol? "\x7b" s
  match Token.symbol? "\x7d" s with
  | some s => some ([], s)
  | none => properties? s.length s

/-- A property block that may be left out. -/
def blockIfAny? (s : List Char) : Option (List (String × Literal) × List Char) :=
  match Token.symbol? "\x7b" s with
  | none => some ([], s)
  | some _ => block? s

end PropertyGraph.Draft
