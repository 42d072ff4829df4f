import BindingToggle.Text.Basic

/-!
# Directive names

An attribute is a directive when its name begins with one of the markers `:`, `.`, `@` or `#`, or
with `v-` and a name. `DirectiveName.ofText?` takes such a name apart into the marker, the argument
that it is applied to, and the modifiers behind it. An argument in square brackets may hold points;
any other ends at the first point.

Models `split_directive_name`, which is `DirectiveName.ofText?`.
-/

namespace BindingToggle

/-- How a directive is written. -/
inductive Marker where
  /-- `:argument`, a binding. -/
  | colon
  /-- `.argument`, a binding of a property. -/
  | dot
  /-- `@argument`, a listener. -/
  | at
  /-- `#argument`, a slot. -/
  | hash
  /-- `v-name` or `v-name:argument`. -/
  | long
  deriving DecidableEq, Repr, Inhabited

/-- The parts of a directive's name. -/
structure DirectiveName where
  /-- What the directive does: `bind`, `on`, `slot`, `if`, … -/
  name : Text
  marker : Marker
  /-- The characters of the marker, in front of the argument. -/
  lead : Text
  argument : Option Text
  modifiers : List Text
  deriving DecidableEq, Repr, Inhabited

namespace DirectiveName

/-- The argument at the beginning of a text, and the text behind it. -/
def splitArgument : Text → Text × Text
  | '[' :: t =>
    match t.dropWhile (· != ']') with
    | [] => ('[' :: t, [])
    | close :: tail => ('[' :: t.takeWhile (· != ']') ++ [close], tail)
  | t => (t.takeWhile (· != '.'), t.dropWhile (· != '.'))

/-- The modifiers written in a text: its pieces between points, but for the empty ones. -/
def modifiersOf (tail : Text) : List Text := (List.splitOn '.' tail).filter (!·.isEmpty)

/-- The modifier that the marker `.` stands for. -/
def propModifier : Text := "prop".toList

/-- A name whose marker takes an argument, in front of that argument. -/
def withArgument (name : Text) (marker : Marker) (lead t : Text) : DirectiveName :=
  let sides := splitArgument t
  let written := modifiersOf sides.2
  { name, marker, lead
    argument := if sides.1.isEmpty then none else some sides.1
    modifiers :=
      if marker = .dot ∧ propModifier ∉ written then written ++ [propModifier] else written }

/-- Characters of the name behind `v-`. -/
def isNamePart (c : Char) : Bool := c != ':' && c != '.'

/-- The parts of an attribute's name, if it is the name of a directive. -/
def ofText? : Text → Option DirectiveName
  | 'v' :: '-' :: t =>
    let name := t.takeWhile isNamePart
    if name.isEmpty then none
    else
      match t.dropWhile isNamePart with
      | ':' :: tail => some (withArgument name .long ('v' :: '-' :: name ++ [':']) tail)
      | tail => some ⟨name, .long, 'v' :: '-' :: name, none, modifiersOf tail⟩
  | ':' :: t => some (withArgument "bind".toList .colon [':'] t)
  | '.' :: t => some (withArgument "bind".toList .dot ['.'] t)
  | '@' :: t => some (withArgument "on".toList .at ['@'] t)
  | '#' :: t => some (withArgument "slot".toList .hash ['#'] t)
  | _ => none

end DirectiveName

end BindingToggle
