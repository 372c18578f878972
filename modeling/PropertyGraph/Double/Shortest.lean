import PropertyGraph.Double

/-! The fewest decimal digits that read back as a given double, and among those
the nearest to it. The reals that round to a double form an interval, closed when
its significand is even. For one digit, two digits and so on the two neighbours of
the double on that decimal grid are tried, and the first grid with a neighbour
inside the interval decides. -/

namespace PropertyGraph.Double

/-- A positive decimal `digits * 10 ^ exponent`. -/
structure Decimal where
  digits : Nat
  exponent : Int
deriving DecidableEq, Repr

/-- Which of two equally near decimals is taken. -/
inductive Tie where
  | up
  | even
deriving DecidableEq, Repr

/-- The reals that round to one double: all between `low / den` and `high / den`,
with the ends when `closed`; `mid / den` is the double. -/
structure Interval where
  low : Nat
  mid : Nat
  high : Nat
  den : Nat
  closed : Bool

/-- The gap below the first double of a binade is half the gap above it. -/
def interval (rank : Nat) : Interval :=
  let m := significand rank
  let below := if rank % binade = 0 ∧ 2 * binade ≤ rank then 1 else 2
  let (up, den) := match exponent rank with
    | .ofNat e => (1 <<< e, 4)
    | .negSucc e => (1, 4 <<< (e + 1))
  ⟨(4 * m - below) * up, 4 * m * up, (4 * m + 2) * up, den, m % 2 == 0⟩

/-- The greatest `k` with `10 ^ k ≤ num / den`, for positive `num` and `den`. -/
def decimalExponent (num den : Nat) : Int :=
  if den ≤ num then (digitCount (num / den) : Int) - 1
  else -(digitCount ((den - 1) / num) : Int)

/-- The scale `(s, t)` of a grid: `d * 10 ^ e = d * s / t`. -/
def gridScale : Int → Nat × Nat
  | .ofNat e => (Nat.pow 10 e, 1)
  | .negSucc e => (1, Nat.pow 10 (e + 1))

/-- Whether the grid point `d * s / t` lies in the interval. -/
def Interval.holds (i : Interval) (s t d : Nat) : Bool :=
  let x := d * s * i.den
  if i.closed then i.low * t ≤ x && x ≤ i.high * t
  else i.low * t < x && x < i.high * t

/-- The neighbours of the double on the grid of step `s / t` that read back, the
nearer one if both do. -/
def Interval.onGrid? (i : Interval) (tie : Tie) (s t : Nat) : Option Nat :=
  let d := i.mid * t / (s * i.den)
  let above := i.mid * t - d * s * i.den
  let below := (d + 1) * s * i.den - i.mid * t
  match i.holds s t d, i.holds s t (d + 1) with
  | true, false => some d
  | false, true => some (d + 1)
  | false, false => none
  | true, true =>
    if above < below then some d
    else if below < above then some (d + 1)
    else match tie with
      | .up => some (d + 1)
      | .even => some (if d % 2 = 0 then d else d + 1)

/-- Drops final zeros, at most `fuel` of them. -/
def Decimal.strip : Nat → Decimal → Decimal
  | 0, d => d
  | fuel + 1, d =>
    if d.digits ≠ 0 ∧ d.digits % 10 = 0 then strip fuel ⟨d.digits / 10, d.exponent + 1⟩ else d

/-- The shortest decimal of a finite rank other than zero. Seventeen digits
always suffice. -/
def shortest (tie : Tie) (rank : Nat) : Decimal :=
  let i := interval rank
  let top := decimalExponent i.mid i.den
  let attempt (n : Nat) : Option Decimal :=
    let e := top - (n : Int)
    let (s, t) := gridScale e
    (i.onGrid? tie s t).map (⟨·, e⟩)
  Decimal.strip 17 (((List.range 17).findSome? attempt).getD ⟨0, 0⟩)

end PropertyGraph.Double
