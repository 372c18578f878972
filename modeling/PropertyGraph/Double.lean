/-! Double-precision numbers as exact data. A double other than the not-a-number
has a sign and a rank, its position among the non-negative doubles counted from
zero; the ranks below `2 ^ 52` are the subnormal numbers and the last rank is
infinity. The rank is also the low 63 bits of the interchange format. Order is
order of ranks, and every result of arithmetic is an exact ratio rounded once, to
the nearest double and on a tie to the even one. -/

namespace PropertyGraph

/-- The rank of infinity: 2047 binades of `2 ^ 52` doubles come before it. -/
def infinityRank : Nat := 0x7ff0000000000000

inductive Double where
  | nan
  | number (negative : Bool) (rank : Fin 0x7ff0000000000001)
deriving DecidableEq

namespace Double

/-- The number of doubles in a binade, `2 ^ 52`. -/
def binade : Nat := 0x10000000000000

/-- The double of a sign and a rank; ranks past infinity are infinity. -/
def ofRank (negative : Bool) (rank : Nat) : Double :=
  .number negative ⟨min rank infinityRank, Nat.lt_succ_of_le (Nat.min_le_right ..)⟩

def zero : Double := ofRank false 0

def infinity : Double := ofRank false infinityRank

instance : Inhabited Double := ⟨zero⟩

def isFinite : Double → Bool
  | .nan => false
  | .number _ rank => rank.val < infinityRank

/-! ### The interchange format -/

/-- The 64 bits of a double; a not-a-number has the quiet pattern. -/
def toBits : Double → Nat
  | .nan => 0x7ff8000000000000
  | .number negative rank => (if negative then 0x8000000000000000 else 0) + rank.val

/-- The double with these 64 bits. -/
def ofBits (bits : Nat) : Double :=
  let rank := bits % 0x8000000000000000
  if infinityRank < rank then .nan else ofRank (bits / 0x8000000000000000 % 2 == 1) rank

/-! ### Exact value -/

/-- A finite rank stands for `significand * 2 ^ exponent`. -/
def significand (rank : Nat) : Nat :=
  if rank < binade then rank else binade + rank % binade

def exponent (rank : Nat) : Int :=
  if rank < binade then -1074 else (rank / binade : Nat) - 1075

/-- Numerator and denominator of the value of a finite rank. -/
def ratio (rank : Nat) : Nat × Nat :=
  match exponent rank with
  | .ofNat e => (significand rank <<< e, 1)
  | .negSucc e => (significand rank, 1 <<< (e + 1))

/-! ### Rounding -/

/-- The integer nearest to `num / den`, on a tie the even one. -/
def roundHalfEven (num den : Nat) : Nat :=
  let quotient := num / den
  let rest := num % den
  if 2 * rest < den then quotient
  else if den < 2 * rest then quotient + 1
  else quotient + quotient % 2

/-- The integer nearest to `num / (den * 2 ^ e)`. -/
def roundScaled (num den : Nat) : Int → Nat
  | .ofNat e => roundHalfEven num (den <<< e)
  | .negSucc e => roundHalfEven (num <<< (e + 1)) den

/-- Whether `2 ^ e ≤ num / den`. -/
def reachesPower (num den : Nat) : Int → Bool
  | .ofNat e => den <<< e ≤ num
  | .negSucc e => den ≤ num <<< (e + 1)

/-- The greatest `e` with `2 ^ e ≤ num / den`, for positive `num` and `den`. -/
def binaryExponent (num den : Nat) : Int :=
  let e : Int := (num.log2 : Int) - den.log2
  if reachesPower num den e then e else e - 1

/-- The rank nearest to `num / den`. The quotient is rounded in units of the last
place of its binade, and a carry out of the binade is the next rank. -/
def nearestRank (num den : Nat) : Nat :=
  if num = 0 then 0
  else
    let unit := max (binaryExponent num den - 52) (-1074)
    min ((unit + 1074).toNat * binade + roundScaled num den unit) infinityRank

/-- The double nearest to `num / den`. -/
def ofRatio (negative : Bool) (num den : Nat) : Double :=
  ofRank negative (nearestRank num den)

/-- The double nearest to an integer. -/
def ofInt (n : Int) : Double :=
  ofRatio (n < 0) n.natAbs 1

/-! ### Decimal numerals -/

/-- The number of decimal digits of `n`; zero has none. -/
def digitCount (n : Nat) : Nat :=
  if n = 0 then 0 else (Nat.toDigits 10 n).length

/-- The double nearest to `digits * 10 ^ e`. Past the exponents that decide the
answer by themselves no power is computed. -/
def ofDecimal (negative : Bool) (digits : Nat) (e : Int) : Double :=
  let top := (digitCount digits : Int) + e
  if digits = 0 ∨ top < -330 then ofRank negative 0
  else if 330 < top then ofRank negative infinityRank
  else match e with
    | .ofNat e => ofRatio negative (digits * Nat.pow 10 e) 1
    | .negSucc e => ofRatio negative digits (Nat.pow 10 (e + 1))

/-- Product of two finite ranks, rounded once. -/
def mulRank (a b : Nat) : Nat :=
  nearestRank ((ratio a).1 * (ratio b).1) ((ratio a).2 * (ratio b).2)

/-- Quotient of two finite ranks, the second one not zero, rounded once. -/
def divRank (a b : Nat) : Nat :=
  nearestRank ((ratio a).1 * (ratio b).2) ((ratio a).2 * (ratio b).1)

/-! ### Order -/

/-- The signed rank, which orders all doubles but the not-a-number. Both zeros
have key zero. -/
def key? : Double → Option Int
  | .nan => none
  | .number negative rank => some (if negative then -(rank.val : Int) else rank.val)

/-- Numeric order; none when either side is not a number. -/
def compare? (a b : Double) : Option Ordering := do
  let x ← a.key?
  let y ← b.key?
  some (compare x y)

/-- Numeric equality: the two zeros are equal, the not-a-number differs from
everything. -/
def sameNumber (a b : Double) : Bool := a.compare? b == some .eq

end Double

end PropertyGraph
