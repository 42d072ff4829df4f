import BindingToggle.Decimal.Shortest
import BindingToggle.Text.Basic

/-!
# Numerals

A numeral is a number as it is written: digits, perhaps a point and more digits, perhaps a power of
ten. `Numeral.toBinary?` reads one as a binary fraction, in two steps that each may round:

* `Numeral.kept` takes the leading digits that fit into 64 bits and leaves out the others;
* `Decimal.toBinary?` rounds these digits to a binary fraction and scales it by a power of ten that
  is itself rounded, so that the result can miss the nearest binary fraction by a little.

A numeral too large for a binary fraction has no reading.

Models how the decoder that `from_settings` calls reads a number.
-/

namespace BindingToggle

/-! ## Arithmetic of binary fractions -/

namespace Binary

open Decimal

/-- The largest exponent of a binary fraction. -/
def greatestExponent : Int := 971

/-- Whether a number is small enough to be a binary fraction. -/
def isFinite (x : Binary) : Bool := x.exponent ≤ greatestExponent

/-- The binary fraction nearest to a natural. -/
def ofNat (n : Nat) : Binary := nearest n 1

/-- The binary fraction nearest to a power of ten. -/
def tenTo (power : Nat) : Binary := ofNat (Nat.pow 10 power)

/-- The product of two binary fractions, rounded. -/
def times (x y : Binary) : Binary :=
  let (num, den) := quotient (x.mantissa * y.mantissa) 2 (x.exponent + y.exponent)
  nearest num den

/-- The quotient of two binary fractions, rounded. -/
def dividedBy (x y : Binary) : Binary :=
  let (num, den) := quotient x.mantissa 2 (x.exponent - y.exponent)
  nearest num (den * y.mantissa)

/-- The largest power of ten that is a binary fraction. -/
def greatestTen : Nat := 308

/-- The number divided by a power of ten, in steps if the power is too large to be a binary
fraction. -/
def overTenTo (x : Binary) (power : Nat) : Binary :=
  if x.mantissa = 0 then x
  else if power ≤ greatestTen then x.dividedBy (tenTo power)
  else overTenTo (x.dividedBy (tenTo greatestTen)) (power - greatestTen)
termination_by power
decreasing_by
  simp only [greatestTen] at *
  omega

/-- The number times a power of ten, if that is a binary fraction. -/
def timesTenTo? (x : Binary) (power : Nat) : Option Binary :=
  if x.mantissa = 0 then some x
  else if power ≤ greatestTen then
    let product := x.times (tenTo power)
    if product.isFinite then some product else none
  else none

end Binary

/-- The digits as a binary fraction, scaled by the power of ten. -/
def Decimal.toBinary? (d : Decimal) : Option Binary :=
  let x := Binary.ofNat d.digits
  if 0 ≤ d.scale then x.timesTenTo? d.scale.toNat else some (x.overTenTo (-d.scale).toNat)

/-! ## Numbers as they are written -/

/-- A number as it is written. -/
structure Numeral where
  isNegative : Bool
  /-- The digits in front of the point. -/
  whole : List Nat
  /-- The digits behind the point, if there is one. -/
  places : Option (List Nat)
  /-- The power of ten, if there is one. -/
  exponent : Option Int
  deriving DecidableEq, Repr, Inhabited

namespace Numeral

/-- The digits that a text begins with. -/
def digitsOf (t : Text) : List Nat :=
  (t.takeWhile Char.isDigit).map fun c => c.toNat - '0'.toNat

/-- The number that digits write. -/
def natOf (digits : List Nat) : Nat := digits.foldl (fun n d => 10 * n + d) 0

/-- A sign at the beginning of a text, and the text behind it. -/
def splitSign : Text → Bool × Text
  | '-' :: t => (true, t)
  | '+' :: t => (false, t)
  | t => (false, t)

/-- The digits behind a point, if the text begins with one, and the text behind them. -/
def splitPlaces : Text → Option (List Nat) × Text
  | '.' :: t => (some (digitsOf t), t.dropWhile Char.isDigit)
  | t => (none, t)

/-- The power of ten that a text writes, if it begins with the mark of one. -/
def exponentOf : Text → Option Int
  | [] => none
  | mark :: t =>
    if mark = 'e' ∨ mark = 'E' then
      let (isNegative, digits) := splitSign t
      let power : Int := natOf (digitsOf digits)
      some (if isNegative then -power else power)
    else none

/-- The numeral that a text writes. -/
def ofText (t : Text) : Numeral :=
  let (isNegative, unsigned) := splitSign t
  let (places, rest) := splitPlaces (unsigned.dropWhile Char.isDigit)
  ⟨isNegative, digitsOf unsigned, places, exponentOf rest⟩

/-- Whether a numeral has neither a point nor a power of ten. -/
def isWhole (n : Numeral) : Bool := n.places.isNone && n.exponent.isNone

/-! ## Reading a numeral -/

/-- What a number of 64 bits is less than. -/
def wordBound : Nat := Nat.pow 2 64

/-- Puts digits behind a number as long as it fits into 64 bits; also gives the digits that are
left. -/
def keep (n : Nat) : List Nat → Nat × List Nat
  | [] => (n, [])
  | d :: ds => if 10 * n + d < wordBound then keep (10 * n + d) ds else (n, d :: ds)

/-- The leading digits of a numeral, with the power of ten that they stand for. A digit left out in
front of the point still counts for the power. -/
def kept (n : Numeral) : Decimal :=
  let places := n.places.getD []
  let (front, leftOut) := keep 0 n.whole
  let (digits, unread) := keep front places
  ⟨digits, leftOut.length - (places.length - unread.length) + n.exponent.getD 0⟩

/-- The size of a numeral as a binary fraction. -/
def toBinary? (n : Numeral) : Option Binary := n.kept.toBinary?

/-- The integer of 64 bits, with or without a sign, that a numeral writes. The negative zero is
none. -/
def toInteger? (n : Numeral) : Option Int :=
  let size := natOf n.whole
  if !n.isWhole then none
  else if n.isNegative then
    if 0 < size ∧ size ≤ Nat.pow 2 63 then some (-(size : Int)) else none
  else if size < wordBound then some size else none

end Numeral

end BindingToggle
