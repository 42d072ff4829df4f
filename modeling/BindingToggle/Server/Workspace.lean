import BindingToggle.Component.Basic
import BindingToggle.Server.Cancel

/-!
# Open documents

The documents that a client has open, each with its text, its reading, and a cancellation flag for
the work on it. A new text replaces the whole entry; whatever still works on the old text is called
off, and so it is when the document is closed.

Models `update_document` and `remove_document` on the open documents of the server's state.
-/

namespace BindingToggle

/-- One state of an open document. -/
structure Snapshot where
  text : Text
  component : Component
  version : Int
  cancel : CancelHandle
  deriving Repr, Inhabited

/-- The open documents by address, and the cancellation flags. -/
structure Workspace where
  documents : List (String × Snapshot)
  flags : CancelFlags
  deriving Repr, Inhabited

namespace Workspace

def empty : Workspace := ⟨[], .empty⟩

/-- The current state of a document. -/
def find? (w : Workspace) (uri : String) : Option Snapshot := w.documents.lookup uri

/-- Calls off the work on a document. -/
def callOff (w : Workspace) (uri : String) : CancelFlags :=
  match w.find? uri with
  | none => w.flags
  | some s => w.flags.cancel s.cancel

/-- Every other document. -/
def others (w : Workspace) (uri : String) : List (String × Snapshot) :=
  w.documents.filter fun entry => entry.1 != uri

/-- Sets the text of a document, opening it if it is not open. -/
def update (w : Workspace) (uri : String) (text : Text) (version : Int) : Workspace :=
  let made := (w.callOff uri).fresh
  ⟨(uri, ⟨text, parseComponent text, version, made.1⟩) :: w.others uri, made.2⟩

/-- Closes a document. -/
def remove (w : Workspace) (uri : String) : Workspace := ⟨w.others uri, w.callOff uri⟩

end Workspace

end BindingToggle
