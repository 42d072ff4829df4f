import BindingToggle.Server.CodeAction
import BindingToggle.Server.Workspace

/-!
# Sessions

A session is the conversation with one client: `Session.handle` takes a message and gives the new
state, the notifications that are sent, and the reply if the message was a request. Before the
client has connected, and after it has shut the session down, notifications are ignored and requests
are refused. Every change of a document publishes its diagnostics, and closing one takes them back.

Models the handlers of the language server: `configure` is `apply_settings`, `refresh` is
`refresh_document`, and `offer` is `code_action`. The phases are not the handlers' own: they stand
for the framework that calls the handlers, as the protocol describes it.
-/

namespace BindingToggle

/-! ## Messages -/

/-- What a client sends. -/
inductive ClientMessage where
  /-- Opens the session, perhaps with settings. A request. -/
  | connect (options : Option Payload)
  | connected
  | opened (uri : String) (version : Int) (text : Text)
  /-- Whole texts, of which the last one counts. -/
  | changed (uri : String) (version : Int) (texts : List Text)
  | closed (uri : String)
  | configured (settings : Payload)
  /-- Asks for the code actions of a range. A request. -/
  | actions (uri : String) (range : Range) (only : Option (List String))
  /-- Ends the session. A request. -/
  | shutdown
  deriving Repr, Inhabited

/-- How grave a log message is. -/
inductive LogLevel where
  | warning | info
  deriving DecidableEq, Repr, Inhabited

/-- The number of a level. -/
def LogLevel.code : LogLevel → Nat
  | warning => 2
  | info => 3

/-- What the server sends on its own. -/
inductive Notification where
  | log (level : LogLevel) (message : String)
  /-- The diagnostics of a document, with the version they are those of. -/
  | publish (uri : String) (diagnostics : List PublishedDiagnostic) (version : Option Int)
  deriving DecidableEq, Repr, Inhabited

/-- Why a request is not answered. -/
inductive Refusal where
  | notInitialized | invalidRequest
  deriving DecidableEq, Repr, Inhabited

namespace Refusal

def code : Refusal → Int
  | notInitialized => -32002
  | invalidRequest => -32600

def message : Refusal → String
  | notInitialized => "Server not initialized"
  | invalidRequest => "Invalid request"

end Refusal

/-- The answer to a request. -/
inductive Reply where
  /-- The server is ready and tells what it can do. -/
  | ready
  | offered (actions : List CodeAction)
  | done
  | refused (reason : Refusal)
  deriving DecidableEq, Repr, Inhabited

/-- What the server tells about itself. -/
structure ServerInfo where
  name : String
  version : String
  /-- The kinds of code actions it offers. -/
  actionKinds : List String
  /-- How it wants to be told of changes: by the whole text. -/
  textSync : Nat
  deriving DecidableEq, Repr, Inhabited

def serverInfo : ServerInfo :=
  ⟨"vtoggle-lsp", "0.1.0", [ToggleKind.remove.tag, ToggleKind.add.tag], 1⟩

/-! ## The session -/

/-- How far a session has come. -/
inductive Phase where
  | waiting | active | over
  deriving DecidableEq, Repr, Inhabited

/-- The state of a session. -/
structure Session where
  phase : Phase
  workspace : Workspace
  settings : Settings
  deriving Repr, Inhabited

/-- The state after a message, what was sent meanwhile, and the reply to a request. -/
structure Outcome where
  session : Session
  sent : List Notification
  reply : Option Reply
  deriving Repr, Inhabited

namespace Session

/-- A session that has not begun. -/
def start : Session := ⟨.waiting, .empty, .default⟩

/-- Takes in settings; a payload that cannot be read is logged and changes nothing. -/
def configure (s : Session) (p : Payload) : Session × List Notification :=
  match SettingsUpdate.ofPayload p with
  | .error e => (s, [.log .warning ("Failed to parse configuration: " ++ e.message)])
  | .ok u => ({ s with settings := s.settings.apply u }, [])

/-- Takes in the text of a document and publishes its diagnostics. -/
def refresh (s : Session) (uri : String) (text : Text) (version : Int) :
    Session × List Notification :=
  ({ s with workspace := s.workspace.update uri text version },
    [.publish uri (publishedDiagnostics text (parseComponent text)) (some version)])

/-- The code actions for a range of an open document; none for any other. -/
def offer (s : Session) (uri : String) (range : Range) (only : Option (List String)) :
    List CodeAction :=
  match s.workspace.find? uri with
  | none => []
  | some d =>
    codeActions d.text d.component uri range only s.settings
      (s.workspace.flags.isCancelled d.cancel)

/-- A message of an active session. -/
def handleActive (s : Session) : ClientMessage → Outcome
  | .connect _ => ⟨s, [], some (.refused .invalidRequest)⟩
  | .connected => ⟨s, [.log .info "vtoggle-lsp initialized"], none⟩
  | .opened uri version text =>
    let next := s.refresh uri text version
    ⟨next.1, next.2, none⟩
  | .changed uri version texts =>
    match texts.getLast? with
    | none => ⟨s, [], none⟩
    | some text =>
      let next := s.refresh uri text version
      ⟨next.1, next.2, none⟩
  | .closed uri =>
    ⟨{ s with workspace := s.workspace.remove uri }, [.publish uri [] none], none⟩
  | .configured settings =>
    let next := s.configure settings
    ⟨next.1, next.2, none⟩
  | .actions uri range only => ⟨s, [], some (.offered (s.offer uri range only))⟩
  | .shutdown => ⟨{ s with phase := .over }, [], some .done⟩

/-- A message of a session that is not active: the framework refuses requests, and ignores all
else. -/
def ignore (s : Session) (reason : Refusal) : ClientMessage → Outcome
  | .connect _ | .actions _ _ _ | .shutdown => ⟨s, [], some (.refused reason)⟩
  | _ => ⟨s, [], none⟩

/-- A message of the client. The gate by the phase of the session is that of the server framework,
and not one of the handlers. -/
def handle (s : Session) (m : ClientMessage) : Outcome :=
  match s.phase with
  | .active => s.handleActive m
  | .over => s.ignore .invalidRequest m
  | .waiting =>
    match m with
    | .connect options =>
      let next := s.configure (options.getD .null)
      ⟨{ next.1 with phase := .active }, next.2, some .ready⟩
    | m => s.ignore .notInitialized m

end Session

end BindingToggle
