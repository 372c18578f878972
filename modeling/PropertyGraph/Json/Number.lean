import PropertyGraph.Json
import PropertyGraph.Text.Digits

/-! Number literals of JSON texts and the numbers they stand for. An integer literal
of 64 bits stays an integer. Everything else becomes a double in at most three
roundings: the leading digits that fit 64 bits are rounded to a double, which is
then multiplied or divided by a power of ten that is itself rounded. -/

namespace PropertyGraph.Json

structure NumberLiteral where
  negative : Bool
  whole : List Char
  fraction : List Char
  /-- Whether the exponent is negative, and its digits. -/
  exponent : Option (Bool × List Char)
deriving DecidableEq

namespace NumberLiteral

/-- The integer part: digits, and no zero in front of others. -/
def readWhole (s : List Char) : Option (List Char × List Char) := do
  let (digits, rest) ← Digits.split? s
  match digits with
  | '0' :: _ :: _ => none
  | _ => some (digits, rest)

def readFraction : List Char → Option (List Char × List Char)
  | '.' :: rest => Digits.split? rest
  | s => some ([], s)

def readExponent (s : List Char) : Option (Option (Bool × List Char) × List Char) :=
  let after (rest : List Char) : Option (Option (Bool × List Char) × List Char) := do
    let (negative, rest) := match rest with
      | '+' :: rest => (false, rest)
      | '-' :: rest => (true, rest)
      | rest => (false, rest)
    let (digits, rest) ← Digits.split? rest
    some (some (negative, digits), rest)
  match s with
  | 'e' :: rest => after rest
  | 'E' :: rest => after rest
  | s => some (none, s)

/-- The literal at the front of a text and what follows it. -/
def read (s : List Char) : Option (NumberLiteral × List Char) := do
  let (negative, s) := match s with
    | '-' :: s => (true, s)
    | s => (false, s)
  let (whole, s) ← readWhole s
  let (fraction, s) ← readFraction s
  let (exponent, s) ← readExponent s
  some (⟨negative, whole, fraction, exponent⟩, s)

/-! ### Value -/

/-- The greatest integer of 64 bits. -/
def largestWord : Nat := 0xffffffffffffffff

/-- Appends digits to a significand while it fits 64 bits. Returns it with the number
of digits left over. -/
def accumulate (significand : Nat) : List Char → Nat × Nat
  | [] => (significand, 0)
  | d :: rest =>
    let next := significand * 10 + (d.toNat - '0'.toNat)
    if largestWord < next then (significand, rest.length + 1) else accumulate next rest

/-- Divides by `10 ^ 308` until the exponent has a power within the doubles, or
nothing is left. -/
def scaleDown : Nat → Nat → Int → Option Nat
  | 0, _, _ => none
  | fuel + 1, rank, e =>
    if e.natAbs ≤ 308 then
      let power := Double.nearestRank (Nat.pow 10 e.natAbs) 1
      if 0 ≤ e then
        let product := Double.mulRank rank power
        if product < infinityRank then some product else none
      else some (Double.divRank rank power)
    else if rank = 0 then some 0
    else if 0 ≤ e then none
    else scaleDown fuel (Double.divRank rank (Double.nearestRank (Nat.pow 10 308) 1)) (e + 308)

/-- The rank of `significand * 10 ^ e`, none when it overflows. -/
def scaled (significand : Nat) (e : Int) : Option Nat :=
  scaleDown (e.natAbs + 1) (Double.nearestRank significand 1) e

/-- The greatest signed integer of 32 bits. -/
def largestExponent : Nat := 0x7fffffff

/-- The double of a literal with these first significant digits. An exponent of more
than 31 bits is not computed with. -/
def float? (negative : Bool) (significand : Nat) (shift : Int) :
    Option (Bool × List Char) → Option JsonNumber
  | none => (scaled significand shift).map fun rank => .float (.ofRank negative rank)
  | some (down, digits) =>
    let e := Digits.toNat digits
    if largestExponent < e then
      if significand = 0 ∨ down then some (.float (.ofRank negative 0)) else none
    else
      (scaled significand (if down then shift - e else shift + e)).map fun rank =>
        .float (.ofRank negative rank)

/-- What an integer literal of 64 bits stands for. Negative zero and integers below
the signed range are doubles. -/
def integer (negative : Bool) (n : Nat) : JsonNumber :=
  if negative then
    if n = 0 ∨ 0x8000000000000000 < n then .float (.ofRatio true n 1) else .integer (-n)
  else .integer n

/-- The number a literal stands for, none when it is beyond the doubles. -/
def value? (l : NumberLiteral) : Option JsonNumber :=
  let (significand, dropped) := accumulate 0 l.whole
  match l.fraction, l.exponent with
  | [], none =>
    if dropped = 0 then some (integer l.negative significand)
    else float? l.negative significand dropped none
  | fraction, exponent =>
    let (significand, ignored) := accumulate significand fraction
    let taken := fraction.length - ignored
    float? l.negative significand ((dropped : Int) - taken) exponent

end NumberLiteral

end PropertyGraph.Json
