import BindingToggle.Decimal.Numeral
import BindingToggle.Text.Quoted

/-!
# Payloads

A payload is the structured value that a client sends as its settings. `Payload.ofNumeral?` reads a
number: whole numbers of up to 64 bits are integers, and every other number is a binary fraction.
`Payload.describe` names a value in an error message.

Models the values that `from_settings` is given.
-/

namespace BindingToggle

/-- A structured value. -/
inductive Payload where
  | null
  | bool (b : Bool)
  | integer (n : Int)
  | fraction (isNegative : Bool) (size : Binary)
  | string (t : Text)
  | array (items : List Payload)
  | object (members : List (Text × Payload))
  deriving Repr, Inhabited

namespace Payload

/-- The number that a numeral writes, unless it is too large. -/
def ofNumeral? (n : Numeral) : Option Payload :=
  match n.toInteger? with
  | some i => some (integer i)
  | none => n.toBinary?.map (fraction n.isNegative)

/-- The notation of a number: written out from `10 ^ (-5)` up to below `10 ^ 16`, and with a power
of ten outside of that. -/
def numberText (d : Decimal) : String :=
  if -5 ≤ d.leadingPower ∧ d.leadingPower ≤ 15 then d.positional else d.scientific

/-- The shortest form of a binary fraction. -/
def fractionText (isNegative : Bool) (size : Binary) : String :=
  let sign := if isNegative then "-" else ""
  if size.mantissa = 0 then sign ++ "0.0" else sign ++ numberText size.shortest

/-- What a value is called where another one was expected. -/
def describe : Payload → String
  | null => "null"
  | bool b => "boolean `" ++ (if b then "true" else "false") ++ "`"
  | integer n => "integer `" ++ toString n ++ "`"
  | fraction isNegative size => "floating point `" ++ fractionText isNegative size ++ "`"
  | string t => "string " ++ String.ofList (Text.quoted t)
  | array _ => "sequence"
  | object _ => "map"

/-- The member of an object with the given name. -/
def member? (name : String) (members : List (Text × Payload)) : Option Payload :=
  members.lookup name.toList

end Payload

end BindingToggle
