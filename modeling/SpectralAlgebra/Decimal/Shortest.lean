/-!
# The shortest decimal that reads back

A positive binary number stands for every real closer to it than to its neighbours. The coarsest
decimal grid with a point in that interval gives the number with the fewest digits that reads back;
of two such points the nearer is taken, and of two equally near ones the larger.

All tests are between natural numbers: both sides are scaled until no denominators are left.
-/

namespace SpectralAlgebra

/-- The number `digits * 10 ^ exponent`. -/
structure Decimal where
  digits : Nat
  exponent : Int

namespace Decimal

/-- An interval of reals around a value: `low`, `value` and `high` count units of `2 ^ exponent`,
and the ends belong to the interval if `closed`. -/
structure Interval where
  low : Nat
  value : Nat
  high : Nat
  exponent : Int
  closed : Bool

namespace Interval

/-- The reals that round to `mantissa * 2 ^ exponent`: half a unit to either side, but a quarter
below when the numbers below lie twice as close. Ties go to the even mantissa, so the ends belong
to it. -/
def around (mantissa : Nat) (exponent : Int) (closeBelow : Bool) : Interval where
  low := 4 * mantissa - if closeBelow then 1 else 2
  value := 4 * mantissa
  high := 4 * mantissa + 2
  exponent := exponent - 2
  closed := mantissa % 2 = 0

/-- Numerator and denominator of so many units of the interval divided by `10 ^ e`. -/
def ratio (i : Interval) (units : Nat) (e : Int) : Nat × Nat :=
  (units <<< i.exponent.toNat * Nat.pow 10 (-e).toNat,
    1 <<< (-i.exponent).toNat * Nat.pow 10 e.toNat)

/-- Whether the grid point `d * 10 ^ e` lies in the interval. -/
def contains (i : Interval) (d : Nat) (e : Int) : Bool :=
  let (low, unit) := i.ratio i.low e
  let (high, _) := i.ratio i.high e
  if i.closed then low ≤ d * unit ∧ d * unit ≤ high else low < d * unit ∧ d * unit < high

/-- The point of the grid `10 ^ e` nearest to the value, if one of the value's two neighbours on
the grid lies in the interval. -/
def nearest? (i : Interval) (e : Int) : Option Decimal :=
  let (value, unit) := i.ratio i.value e
  let d := value / unit
  match i.contains d e, i.contains (d + 1) e with
  | false, false => none
  | true, false => some ⟨d, e⟩
  | false, true => some ⟨d + 1, e⟩
  | true, true => some (if 2 * (value % unit) < unit then ⟨d, e⟩ else ⟨d + 1, e⟩)

/-- The point of the first of the grids `10 ^ e`, `10 ^ (e - 1)`, … with one in the interval. -/
def coarsest (i : Interval) : Nat → Int → Option Decimal
  | 0, _ => none
  | grids + 1, e =>
    match i.nearest? e with
    | some d => some d
    | none => i.coarsest grids (e - 1)

end Interval

/-- The coarsest grid worth trying for a double: the largest is below `10 ^ 309`. -/
def topExponent : Int := 309

/-- Enough grids to come to one finer than the spacing of the smallest doubles. -/
def gridCount : Nat := 660

/-- The shortest decimal that reads back as the positive number `mantissa * 2 ^ exponent`. -/
def shortest (mantissa : Nat) (exponent : Int) (closeBelow : Bool) : Decimal :=
  ((Interval.around mantissa exponent closeBelow).coarsest gridCount topExponent).getD ⟨0, 0⟩

end Decimal

end SpectralAlgebra
