import Pron.Double

/-!
# Shortest decimals

The numbers that round to a given floating point number form an interval around it. Its shortest decimal is the point
of the coarsest decimal grid `10 ^ k` that lies in this interval; of two such points the nearer one. Which of two
equally near ones it is, the format says. On each grid it is enough to look at the two neighbours of the number itself.
-/

namespace Pron.Double

/-- A positive decimal: `digits * 10 ^ exponent`. -/
structure Decimal where
  digits : Nat
  exponent : Int
  deriving DecidableEq, Repr

/-- A positive number and the ends of the interval that rounds to it, as natural numbers over one denominator. The ends
belong to the interval when the significand is even. -/
structure Interval where
  low : Nat
  centre : Nat
  high : Nat
  den : Nat
  closed : Bool

namespace Interval

/-- The interval of `significand * 2 ^ exponent`, in units of the grid `10 ^ k`. The lower half of the gap is smaller
below a power of two, where the numbers lie twice as dense. -/
def around (significand : Nat) (exponent : Int) (k : Int) : Interval :=
  let below := if significand = pow2 52 ∧ minExponent < exponent then 1 else 2
  let scale := pow2 exponent.toNat * pow10 (-k).toNat
  { low := (4 * significand - below) * scale
    centre := 4 * significand * scale
    high := (4 * significand + 2) * scale
    den := 4 * pow2 (-exponent).toNat * pow10 k.toNat
    closed := significand % 2 == 0 }

/-- Whether a point of the grid lies in the interval. -/
def contains (i : Interval) (point : Nat) : Bool :=
  let scaled := point * i.den
  if i.closed then decide (i.low ≤ scaled ∧ scaled ≤ i.high) else decide (i.low < scaled ∧ scaled < i.high)

/-- The point of the grid that the interval contains next to its centre, if any. -/
def gridPoint? (tie : Tie) (i : Interval) : Option Nat :=
  let floor := i.centre / i.den
  match i.contains floor, i.contains (floor + 1) with
  | true, true => some (roundDiv tie i.centre i.den)
  | true, false => some floor
  | false, true => some (floor + 1)
  | false, false => none

end Interval

/-- Tries the grids `10 ^ k`, `10 ^ (k - 1)`, … in turn. -/
def shortestFrom (tie : Tie) (significand : Nat) (exponent : Int) : Nat → Int → Decimal
  | 0, k => ⟨0, k⟩
  | n + 1, k =>
    match (Interval.around significand exponent k).gridPoint? tie with
    | some digits => ⟨digits, k⟩
    | none => shortestFrom tie significand exponent n (k - 1)

/-- The shortest decimal that reads back as `significand * 2 ^ exponent`, for a positive significand. Seventeen digits
always suffice; the first grid tried is at most three powers of ten too coarse. -/
def shortest (tie : Tie) (significand : Nat) (exponent : Int) : Decimal :=
  shortestFrom tie significand exponent 21 ((exponent + significand.log2 + 1) * 30103 / 100000 + 2)

end Pron.Double
