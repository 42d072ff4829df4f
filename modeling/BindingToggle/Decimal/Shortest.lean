/-!
# Shortest decimals

A number that is kept as a binary fraction is shown with the fewest decimal digits that read back
to it. `Binary.nearest` rounds a quotient to the nearest binary fraction of 53 bits, a tie to the
even one, and `Binary.shortest` finds the decimal: it tries one digit, two digits, and so on, and of
the two neighbours on each decimal grid takes one that rounds back, if both do the nearer, and if
they are equally near the even one. All arithmetic is exact.

Models how the decoder that `from_settings` calls shows a number that it refuses.
-/

namespace BindingToggle

/-- The number `digits · 10 ^ scale`. -/
structure Decimal where
  digits : Nat
  scale : Int
  deriving DecidableEq, Repr, Inhabited

namespace Decimal

/-- The quotient of two naturals that is `n · base ^ e`. -/
def quotient (n base : Nat) (e : Int) : Nat × Nat :=
  (n * Nat.pow base e.toNat, Nat.pow base (-e).toNat)

/-- The natural nearest to a quotient; of two equally near, the even one. -/
def roundHalfEven (num den : Nat) : Nat :=
  let floor := num / den
  let twice := 2 * (num % den)
  if twice < den then floor
  else if den < twice then floor + 1
  else floor + floor % 2

/-- The number written out, with at least one digit on either side of the point. -/
def positional (d : Decimal) : String :=
  let shown := (toString d.digits).toList
  if 0 ≤ d.scale then String.ofList (shown ++ List.replicate d.scale.toNat '0') ++ ".0"
  else
    let places := (-d.scale).toNat
    let padded := List.replicate (places + 1 - shown.length) '0' ++ shown
    let whole := padded.length - places
    String.ofList (padded.take whole) ++ "." ++ String.ofList (padded.drop whole)

/-- The power of ten of the leading digit. -/
def leadingPower (d : Decimal) : Int := d.scale + ((toString d.digits).length - 1 : Nat)

/-- The number with one digit in front of the point and a signed power of ten behind; the point is
left out where no digit follows it. -/
def scientific (d : Decimal) : String :=
  let shown := (toString d.digits).toList
  let tail := shown.drop 1
  let point := if tail.isEmpty then "" else "."
  let sign := if 0 ≤ d.leadingPower then "+" else "-"
  String.ofList (shown.take 1) ++ point ++ String.ofList tail ++ "e" ++ sign ++
    toString d.leadingPower.natAbs

/-- The number with its trailing zeros moved into the scale, up to `limit` of them. -/
def strip (limit : Nat) (d : Decimal) : Decimal :=
  match limit with
  | 0 => d
  | limit + 1 =>
    if d.digits % 10 = 0 then strip limit ⟨d.digits / 10, d.scale + 1⟩ else d

end Decimal

/-- The number `mantissa · 2 ^ exponent`, with a mantissa of at most 53 bits. -/
structure Binary where
  mantissa : Nat
  exponent : Int
  deriving DecidableEq, Repr, Inhabited

namespace Binary

open Decimal

/-- The least exponent of a binary fraction. -/
def leastExponent : Int := -1074

/-- The least mantissa of full length. Only fractions of the least exponent have a smaller one. -/
def leastMantissa : Nat := Nat.pow 2 52

/-- What every mantissa is less than. -/
def mantissaBound : Nat := Nat.pow 2 53

/-- The binary fraction nearest to a quotient; of two equally near, the even one. -/
def nearest (num den : Nat) : Binary :=
  let guess : Int := (Nat.log2 num : Int) - Nat.log2 den - 52
  let (above, below) := quotient num 2 (-guess)
  let isHigh := above < den * below * leastMantissa
  let exponent := max (if isHigh then guess - 1 else guess) leastExponent
  let (scaled, unit) := quotient num 2 (-exponent)
  let mantissa := roundHalfEven scaled (den * unit)
  if mantissa = mantissaBound then ⟨leastMantissa, exponent + 1⟩ else ⟨mantissa, exponent⟩

/-- Whether a decimal lies among the numbers that round to `x`. The gap below a power of two is half
as wide as the gap above it. -/
def readsBack (x : Binary) (d : Decimal) : Bool :=
  let below := if x.mantissa = leastMantissa ∧ leastExponent < x.exponent then 1 else 2
  let (dn, dd) := quotient d.digits 10 d.scale
  let (un, ud) := quotient 1 2 (x.exponent - 2)
  let here := dn * ud
  let low := (4 * x.mantissa - below) * un * dd
  let high := (4 * x.mantissa + 2) * un * dd
  if x.mantissa % 2 = 0 then low ≤ here && here ≤ high else low < here && here < high

/-- The number of digits in front of the point; for numbers below one, less the zeros behind it. -/
def magnitude (num den : Nat) : Int :=
  if den ≤ num then ((toString (num / den)).length : Int)
  else -((List.range 400).countP fun zeros => num * Nat.pow 10 (zeros + 1) < den : Nat)

/-- The neighbour of `x` on the grid of decimals with the given scale that reads back to `x`; of
two, the nearer or, if both are equally near, the even one. -/
def onGrid? (x : Binary) (scale : Int) : Option Decimal :=
  let (num, den) := quotient x.mantissa 2 x.exponent
  let (scaled, grid) := quotient num 10 (-scale)
  let unit := den * grid
  let floor : Decimal := ⟨scaled / unit, scale⟩
  let ceil : Decimal := ⟨scaled / unit + 1, scale⟩
  let order := if roundHalfEven scaled unit = floor.digits then [floor, ceil] else [ceil, floor]
  order.find? x.readsBack

/-- The decimal with the fewest digits that reads back to `x`, which is not zero. -/
def shortest (x : Binary) : Decimal :=
  let (num, den) := quotient x.mantissa 2 x.exponent
  let top := magnitude num den
  let exact : Decimal :=
    if 0 ≤ x.exponent then ⟨num, 0⟩ else ⟨x.mantissa * Nat.pow 5 (-x.exponent).toNat, x.exponent⟩
  (((List.range 17).findSome? fun (n : Nat) => x.onGrid? (top - (n + 1))).getD exact).strip 20

end Binary

end BindingToggle
