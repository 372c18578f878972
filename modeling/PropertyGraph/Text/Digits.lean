/-! Decimal digits of naturals and integers, as characters. -/

namespace PropertyGraph.Digits

def ofNat (n : Nat) : List Char := Nat.toDigits 10 n

def ofInt (n : Int) : List Char :=
  if n < 0 then '-' :: ofNat n.natAbs else ofNat n.natAbs

/-- The natural that a run of digits spells; the empty run spells zero. -/
def toNat (digits : List Char) : Nat := Nat.ofDigitChars 10 digits 0

@[simp] theorem toNat_ofNat (n : Nat) : toNat (ofNat n) = n := Nat.ofDigitChars_ten_toDigits

/-- The leading digits of a text and what follows them. -/
def split (s : List Char) : List Char × List Char :=
  (s.takeWhile Char.isDigit, s.dropWhile Char.isDigit)

/-- The leading digits, if there are any. -/
def split? (s : List Char) : Option (List Char × List Char) :=
  match split s with
  | ([], _) => none
  | (d :: ds, rest) => some (d :: ds, rest)

/-- The value of a hexadecimal digit. -/
def hexValue? (c : Char) : Option Nat :=
  if '0' ≤ c ∧ c ≤ '9' then some (c.toNat - 48)
  else if 'a' ≤ c ∧ c ≤ 'f' then some (c.toNat - 87)
  else if 'A' ≤ c ∧ c ≤ 'F' then some (c.toNat - 55)
  else none

/-- The natural that digits spell in a base up to sixteen. -/
def ofBase? (base : Nat) (digits : List Char) : Option Nat :=
  digits.foldlM (fun n c => do
    let d ← hexValue? c
    if d < base then some (n * base + d) else none) 0

/-- The natural that hexadecimal digits spell. -/
def ofHex? (digits : List Char) : Option Nat := ofBase? 16 digits

end PropertyGraph.Digits
