import SpectralAlgebra.Decimal.Shortest

/-!
# Plain notation

Numbers in messages are written with all their places and without an exponent, in the fewest
digits that read back. A whole number has no point, the sign of zero is kept, and the values that
are no numbers have words.
-/

namespace SpectralAlgebra

namespace Decimal

/-- The decimal in positional notation. -/
def plain (d : Decimal) : String :=
  let digits := Nat.toDigits 10 d.digits
  if 0 ≤ d.exponent then String.ofList (digits ++ List.replicate d.exponent.toNat '0')
  else
    let places := (-d.exponent).toNat
    let padded := List.replicate (places + 1 - digits.length) '0' ++ digits
    let whole := padded.length - places
    String.ofList (padded.take whole ++ '.' :: padded.drop whole)

/-- The text of the double with these bits: its exponent field and fraction without the sign. -/
def plainMagnitude (field fraction : Nat) : String :=
  if field = 2047 then (if fraction = 0 then "inf" else "NaN")
  else if field = 0 then
    if fraction = 0 then "0" else (shortest fraction (-1074) false).plain
  else (shortest (1 <<< 52 + fraction) (field - 1075) (fraction = 0 ∧ 1 < field)).plain

/-- A double in plain notation. -/
def ofFloat (x : Float) : String :=
  let bits := x.toBits.toNat
  let text := plainMagnitude (bits >>> 52 % 1 <<< 11) (bits % 1 <<< 52)
  if bits >>> 63 = 1 ∧ text ≠ "NaN" then "-" ++ text else text

end Decimal

end SpectralAlgebra
