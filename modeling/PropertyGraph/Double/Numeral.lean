import PropertyGraph.Double.Shortest
import PropertyGraph.Text.Digits

/-! How a double is written. Both forms take the shortest digits that read back;
they differ in where an exponent appears and in whether a whole number keeps a
fraction digit. -/

namespace PropertyGraph.Double

/-- The decisions of one written form. -/
structure NumeralFormat where
  tie : Tie
  /-- The scientific exponents that are written positionally, if not all. -/
  positional : Option (Int × Int)
  /-- Whether a whole number ends in `.0`. -/
  wholeFraction : Bool
  nan : String
  infinity : String

/-- Plain decimal at any size, and no fraction on a whole number. -/
def displayFormat : NumeralFormat := ⟨.up, none, false, "NaN", "inf"⟩

/-- Documents write exponents from `-5` to `15` positionally, with a fraction. They
have no numeral for what is not finite. -/
def documentFormat : NumeralFormat := ⟨.even, some (-5, 15), true, "null", "null"⟩

/-- Digits with the point after the first `point` of them, for any `point`. -/
def positionalChars (digits : List Char) (point : Int) (wholeFraction : Bool) : List Char :=
  if point ≤ 0 then '0' :: '.' :: (List.replicate point.natAbs '0' ++ digits)
  else
    let whole := digits.take point.toNat
    let fraction := digits.drop point.toNat
    let filled := whole ++ List.replicate (point.toNat - whole.length) '0'
    match fraction, wholeFraction with
    | [], false => filled
    | [], true => filled ++ ['.', '0']
    | _ :: _, _ => filled ++ '.' :: fraction

/-- One digit, a point if more follow, and a signed exponent of two digits or more
when positive. -/
def scientificChars (digits : List Char) (e : Int) : List Char :=
  let mantissa := match digits with
    | [] => []
    | [d] => [d]
    | d :: rest => d :: '.' :: rest
  let sign := if e < 0 then '-' else '+'
  mantissa ++ 'e' :: sign :: Digits.ofNat e.natAbs

/-- A finite magnitude. -/
def NumeralFormat.magnitude (f : NumeralFormat) (rank : Nat) : List Char :=
  if rank = 0 then positionalChars ['0'] 1 f.wholeFraction
  else
    let d := shortest f.tie rank
    let digits := Digits.ofNat d.digits
    let e := d.exponent + digits.length - 1
    let inRange := match f.positional with
      | none => true
      | some (low, high) => low ≤ e && e ≤ high
    if inRange then positionalChars digits (e + 1) f.wholeFraction
    else scientificChars digits e

def NumeralFormat.write (f : NumeralFormat) : Double → String
  | .nan => f.nan
  | .number negative rank =>
    let sign := if negative then "-" else ""
    if rank.val < infinityRank then sign ++ String.ofList (f.magnitude rank)
    else if f.positional.isSome then f.infinity
    else sign ++ f.infinity

end PropertyGraph.Double
