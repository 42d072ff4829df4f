import BindingToggle.Server.Payload
import BindingToggle.Text.Blank

/-!
# Settings

The settings of the toggle, and how a client changes them. A payload is read by
`SettingsUpdate.ofPayload`, either as a whole or not at all, and `Settings.apply` overrides the
fields that it gives. Settings may be sent bare or as the section `vtoggle` of a larger payload; a
null stands for an absent value, and unknown members are ignored. An array stands for the members
of an object in their order.

Models `from_settings` and `apply_to`. The texts of the errors are those of the decoder that
`from_settings` calls.
-/

namespace BindingToggle

/-- The settings of the toggle. -/
structure Settings where
  enabled : Bool
  /-- The command of the client that moves the caret. -/
  setSelectionCommand : Text
  deriving DecidableEq, Repr, Inhabited

/-- The settings of a client that has sent none. -/
def Settings.default : Settings := ⟨true, "vtoggle.action.setSelection".toList⟩

/-- The values that a payload gives. -/
structure SettingsUpdate where
  enabled : Option Bool
  setSelectionCommand : Option Text
  deriving DecidableEq, Repr, Inhabited

/-- What a place in a payload takes. -/
inductive Expected where
  | config | toggleBinding | boolean | string
  deriving DecidableEq, Repr, Inhabited

namespace Expected

/-- The name of what is expected. -/
def name : Expected → String
  | config => "struct VtoggleConfig"
  | toggleBinding => "struct ToggleBindingConfig"
  | boolean => "a boolean"
  | string => "a string"

/-- The name with the number of values that an array has to give. -/
def sized : Expected → String
  | config => name config ++ " with 1 element"
  | toggleBinding => name toggleBinding ++ " with 2 elements"
  | e => name e

end Expected

/-- Why a payload is not a settings payload. -/
inductive SettingsError where
  | invalidType (found : Payload) (expected : Expected)
  /-- An array that gives too few values. -/
  | tooShort (length : Nat) (expected : Expected)
  /-- An array that gives too many values. -/
  | tooLong (length : Nat)
  deriving Repr, Inhabited

/-- The wording of a settings error. -/
def SettingsError.message : SettingsError → String
  | invalidType found expected =>
    "invalid type: " ++ found.describe ++ ", expected " ++ expected.name
  | tooShort length expected =>
    "invalid length " ++ toString length ++ ", expected " ++ expected.sized
  | tooLong length =>
    "invalid length " ++ toString length ++ ", expected fewer elements in array"

namespace SettingsUpdate

/-- An update that gives no value. -/
def none : SettingsUpdate := ⟨.none, .none⟩

/-- A truth value, or nothing where it is absent. -/
def readBool : Option Payload → Except SettingsError (Option Bool)
  | .none => .ok .none
  | some .null => .ok .none
  | some (.bool b) => .ok (some b)
  | some p => .error (.invalidType p .boolean)

/-- A text, or nothing where it is absent. -/
def readText : Option Payload → Except SettingsError (Option Text)
  | .none => .ok .none
  | some .null => .ok .none
  | some (.string t) => .ok (some t)
  | some p => .error (.invalidType p .string)

/-- The update that gives both values, where they are present. -/
def ofFields (enabled command : Option Payload) : Except SettingsError SettingsUpdate :=
  match readBool enabled with
  | .error e => .error e
  | .ok enabled =>
    match readText command with
    | .error e => .error e
    | .ok command => .ok ⟨enabled, command⟩

/-- The update of the section on toggling. -/
def ofToggleBinding : Payload → Except SettingsError SettingsUpdate
  | .object members =>
    ofFields (Payload.member? "enabled" members) (Payload.member? "setSelectionCommand" members)
  | .array [] => .error (.tooShort 0 .toggleBinding)
  | .array [enabled] =>
    match readBool enabled with
    | .error e => .error e
    | .ok _ => .error (.tooShort 1 .toggleBinding)
  | .array (enabled :: command :: more) =>
    match ofFields enabled command with
    | .error e => .error e
    | .ok update => if more.isEmpty then .ok update else .error (.tooLong (more.length + 2))
  | p => .error (.invalidType p .toggleBinding)

/-- The update of an optional section on toggling. -/
def ofSection : Option Payload → Except SettingsError SettingsUpdate
  | .none => .ok none
  | some .null => .ok none
  | some p => ofToggleBinding p

/-- The update of the settings proper. -/
def ofConfig : Payload → Except SettingsError SettingsUpdate
  | .object members => ofSection (Payload.member? "toggleBinding" members)
  | .array [] => .error (.tooShort 0 .config)
  | .array (toggle :: more) =>
    match ofSection toggle with
    | .error e => .error e
    | .ok update => if more.isEmpty then .ok update else .error (.tooLong (more.length + 1))
  | p => .error (.invalidType p .config)

/-- The settings inside a payload: its section `vtoggle`, if it has one, or else all of it. -/
def settingsIn (p : Payload) : Payload :=
  match p with
  | .object members => (Payload.member? "vtoggle" members).getD p
  | _ => p

/-- The update that a payload asks for. -/
def ofPayload (p : Payload) : Except SettingsError SettingsUpdate :=
  match settingsIn p with
  | .null => .ok none
  | settings => ofConfig settings

end SettingsUpdate

namespace Settings

/-- The settings with the values of an update. A blank command is no command. -/
def apply (s : Settings) (u : SettingsUpdate) : Settings :=
  let command := Text.trim (u.setSelectionCommand.getD [])
  { enabled := u.enabled.getD s.enabled
    setSelectionCommand := if command.isEmpty then s.setSelectionCommand else command }

end Settings

end BindingToggle
