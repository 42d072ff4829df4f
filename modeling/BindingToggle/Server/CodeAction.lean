import BindingToggle.Server.Settings
import BindingToggle.Text.Position
import BindingToggle.Toggle.Action

/-!
# Code actions and published diagnostics

What an editor is sent about a document: its issues and the toggle actions of a selection, with
line positions in place of offsets. An action that leaves the caret somewhere carries a command of
the client to move it there; its position is one of the edited document.

Models `build_toggle_binding_actions` with `kind_requested` and `toggle_to_code_action`, which are
`CodeAction.isRequested` and `CodeAction.of`, and `build_diagnostics`.
-/

namespace BindingToggle

/-- The replacement of the text of a range. -/
structure RangeEdit where
  range : Range
  newText : Text
  deriving DecidableEq, Repr, Inhabited

/-- A command of the client that moves the caret. -/
structure CaretCommand where
  name : Text
  position : Position
  deriving DecidableEq, Repr, Inhabited

/-- What the command is called in menus. -/
def CaretCommand.title : String := "Place cursor"

/-- A toggle action as an editor is offered it. -/
structure CodeAction where
  kind : ToggleKind
  uri : String
  edits : List RangeEdit
  command : Option CaretCommand
  deriving DecidableEq, Repr, Inhabited

namespace CodeAction

/-- Whether a kind covers another one: it is the same, or a part of it up to a point or slash. -/
def covers (kind tag : Text) : Bool :=
  kind.isPrefixOf tag &&
    match tag.drop kind.length with
    | [] => true
    | c :: _ => c == '.' || c == '/'

/-- Whether a kind was asked for. Without a list of kinds, every kind was. -/
def isRequested (only : Option (List String)) (kind : ToggleKind) : Bool :=
  match only with
  | none => true
  | some kinds => kinds.any fun k => covers k.toList kind.tag.toList

/-- The offer of an action on a document. -/
def of (document : Text) (uri : String) (settings : Settings) (a : ToggleAction) : CodeAction :=
  { kind := a.kind
    uri
    edits := a.edits.map fun e => ⟨Text.rangeOf document e.span, e.newText⟩
    command := a.caret.map fun caret =>
      ⟨settings.setSelectionCommand,
        Text.positionAt (Edit.applyAll document a.edits) caret⟩ }

end CodeAction

/-- The code actions for a range of a document, of which `component` is the reading. -/
def codeActions (document : Text) (component : Component) (uri : String) (range : Range)
    (only : Option (List String)) (settings : Settings) (cancelled : Bool) : List CodeAction :=
  if settings.enabled then
    ((toggleActions component (Text.spanOf document range) cancelled).filter
      fun a => CodeAction.isRequested only a.kind).map (CodeAction.of document uri settings)
  else []

/-- A diagnostic as an editor is sent it. -/
structure PublishedDiagnostic where
  range : Range
  code : String
  message : String
  deriving DecidableEq, Repr, Inhabited

namespace PublishedDiagnostic

/-- Every diagnostic is an error. -/
def severity : Nat := 1

/-- Who reports the diagnostics. -/
def source : String := "vtoggle"

end PublishedDiagnostic

/-- The diagnostics of a document, of which `component` is the reading. -/
def publishedDiagnostics (document : Text) (component : Component) : List PublishedDiagnostic :=
  component.diagnostics.map fun d => ⟨Text.rangeOf document d.span, d.code, d.message⟩

end BindingToggle
