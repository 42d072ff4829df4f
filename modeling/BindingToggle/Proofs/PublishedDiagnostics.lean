import BindingToggle.Proofs.SessionHistory

/-!
# Published diagnostics follow the documents

An editor shows of a document what was published of it last. So the last publication has to be that
of the current text, and a document that was closed must not leave anything behind.

* `Saying` — what a message says of a document: its new text and version, or that it was closed.
  `History.latest?` is what a history says of it in the end.
* `publications_serve`, `publications_handle` — a message publishes what it says, once, and nothing
  if it says nothing of a document.
* `Session.Follows` — the last publication of every document is what the history says in the end, and
  so is what the workspace holds; `Follows.serve` and `Follows.handle` are the steps.
* `publications_follow` — this holds behind every history, with messages taken in any order, and
  with those left out that come before the session is opened or after it is over.
-/

namespace BindingToggle

/-! ## What a history says of a document -/

/-- What a message says of a document. -/
inductive Saying where
  | text (text : Text) (version : Int)
  | closed
  deriving DecidableEq, Repr

namespace Saying

/-- The text and the version of a document of which this was said, if it is open. -/
def document? : Saying → Option (Text × Int)
  | text t version => some (t, version)
  | closed => none

/-- What is to be published: the diagnostics of the text under its version, or none at all. -/
def publication (uri : String) : Saying → Notification
  | text t version => .publish uri (publishedDiagnostics t (parseComponent t)) (some version)
  | closed => .publish uri [] none

end Saying

namespace ClientMessage

/-- The document of which a message says something, and what it says. A change without a text says
nothing. -/
def saying? : ClientMessage → Option (String × Saying)
  | opened uri version text => some (uri, .text text version)
  | changed uri version texts => texts.getLast?.map fun text => (uri, .text text version)
  | closed uri => some (uri, .closed)
  | _ => none

/-- What a message says of one document. -/
def sayingOf? (uri : String) (m : ClientMessage) : Option Saying :=
  m.saying?.bind fun said => if said.1 = uri then some said.2 else none

/-- What is to be published because of a message. -/
def publication? (m : ClientMessage) : Option Notification :=
  m.saying?.map fun said => said.2.publication said.1

end ClientMessage

/-- What the latest message says of a document that says anything of it. -/
def History.latest? (history : History) (uri : String) : Option Saying :=
  (history.filterMap (ClientMessage.sayingOf? uri)).getLast?

theorem History.latest?_append (history : History) (m : ClientMessage) (uri : String) :
    latest? (history ++ [m]) uri = (m.sayingOf? uri).or (latest? history uri) := by
  cases h : m.sayingOf? uri <;> simp [latest?, h]

/-! ## What is published -/

namespace Notification

def isPublication : Notification → Bool
  | publish _ _ _ => true
  | log _ _ => false

/-- Whether a notification publishes the diagnostics of a document. -/
def isAbout (uri : String) : Notification → Bool
  | publish u _ _ => u == uri
  | log _ _ => false

end Notification

/-- The publications among what was sent. -/
def publications (sent : List Notification) : List Notification :=
  sent.filter Notification.isPublication

/-- The last publication of a document. -/
def lastPublication? (uri : String) (sent : List Notification) : Option Notification :=
  (sent.filter (Notification.isAbout uri)).getLast?

theorem lastPublication?_append (uri : String) (sent sent' : List Notification) :
    lastPublication? uri (sent ++ sent') =
      (lastPublication? uri sent').or (lastPublication? uri sent) := by
  rw [lastPublication?, List.filter_append, List.getLast?_append]
  rfl

theorem filter_isAbout_publications (uri : String) (sent : List Notification) :
    (publications sent).filter (Notification.isAbout uri) =
      sent.filter (Notification.isAbout uri) := by
  rw [publications, List.filter_filter]
  apply List.filter_congr
  intro n _
  cases n <;> simp [Notification.isAbout, Notification.isPublication]

theorem Saying.isAbout_publication (said : Saying) (uri uri' : String) :
    (said.publication uri').isAbout uri = (uri' == uri) := by
  cases said <;> rfl

/-- If what a message says is all that was published, then it was published last. -/
theorem lastPublication?_of_publications {m : ClientMessage} {sent : List Notification}
    (h : publications sent = m.publication?.toList) (uri : String) :
    lastPublication? uri sent = (m.sayingOf? uri).map (Saying.publication uri) := by
  rw [lastPublication?, ← filter_isAbout_publications, h, ClientMessage.publication?,
    ClientMessage.sayingOf?]
  cases m.saying? with
  | none => rfl
  | some said =>
    obtain ⟨uri', said⟩ := said
    by_cases huri : uri' = uri
    · simp [huri, said.isAbout_publication]
    · simp [huri, said.isAbout_publication]

namespace Session

theorem publications_configure (s : Session) (p : Payload) :
    publications (s.configure p).2 = [] := by
  unfold configure
  split <;> rfl

theorem publications_handleActive (s : Session) (m : ClientMessage) :
    publications (s.handleActive m).sent = m.publication?.toList := by
  cases m with
  | changed uri version texts =>
    cases ht : texts.getLast? <;>
      simp only [handleActive, ClientMessage.publication?, ClientMessage.saying?, ht] <;> rfl
  | configured p => exact publications_configure s p
  | _ => rfl

/-- A message publishes what it says of a document, once. -/
theorem publications_serve (s : Session) (m : ClientMessage) :
    publications (s.serve m).sent = m.publication?.toList := by
  cases m with
  | connect options => exact publications_configure s _
  | _ => exact publications_handleActive s _

/-- A message that is not handled sends nothing. -/
theorem sent_of_not_admits {s : Session} {m : ClientMessage} (h : s.phase.admits m = false) :
    (s.handle m).sent = [] := by
  cases hphase : s.phase with
  | waiting =>
    rw [hphase] at h
    cases m with
    | connect options => cases h
    | _ => simp only [handle, hphase]; rfl
  | active =>
    rw [hphase] at h
    cases m with
    | connect options => simp only [handle, hphase]; rfl
    | _ => cases h
  | _ => cases m <;> simp only [handle, hphase] <;> rfl

/-- A message that is not handled publishes nothing. -/
theorem publications_handle (s : Session) (m : ClientMessage) :
    publications (s.handle m).sent = if s.phase.admits m then m.publication?.toList else [] := by
  cases h : s.phase.admits m with
  | true =>
    rw [handle_of_admits h]
    exact publications_serve s m
  | false =>
    rw [sent_of_not_admits h]
    rfl

/-! ## What a session publishes on its way -/

/-- What is sent while messages are taken one after another. -/
def sentBy (step : Session → ClientMessage → Outcome) (s : Session) : History → List Notification
  | [] => []
  | m :: history => (step s m).sent ++ sentBy step (step s m).session history

/-- The last publication of every document, and the text and version that the workspace holds of it,
are what the history says in the end. -/
structure Follows (history : History) (sent : List Notification) (w : Workspace) : Prop where
  published : ∀ uri,
    lastPublication? uri sent = (history.latest? uri).map (Saying.publication uri)
  stored : ∀ uri, (w.find? uri).map (fun d => (d.text, d.version)) =
    (history.latest? uri).bind Saying.document?

theorem follows_start : Follows [] [] start.workspace := ⟨fun _ => rfl, fun _ => rfl⟩

theorem workspace_configure (s : Session) (p : Payload) :
    (s.configure p).1.workspace = s.workspace := by
  unfold configure
  split <;> rfl

/-- A message does with the workspace what it says. -/
theorem workspace_serve (s : Session) (m : ClientMessage) :
    (s.serve m).session.workspace =
      match m.saying? with
      | none => s.workspace
      | some (uri, .text text version) => s.workspace.update uri text version
      | some (uri, .closed) => s.workspace.remove uri := by
  cases m with
  | connect options => exact workspace_configure s _
  | changed uri version texts =>
    cases ht : texts.getLast? <;>
      simp only [serve, handleActive, ClientMessage.saying?, ht] <;> rfl
  | configured p => exact workspace_configure s p
  | _ => rfl

/-- What the workspace holds of a document behind a message. -/
theorem find?_serve (s : Session) (m : ClientMessage) (uri : String) :
    ((s.serve m).session.workspace.find? uri).map (fun d => (d.text, d.version)) =
      match m.sayingOf? uri with
      | some said => said.document?
      | none => (s.workspace.find? uri).map fun d => (d.text, d.version) := by
  rw [workspace_serve, ClientMessage.sayingOf?]
  cases m.saying? with
  | none => rfl
  | some said =>
    obtain ⟨uri', said⟩ := said
    simp only [Option.bind_some]
    cases said with
    | text text version =>
      by_cases huri : uri' = uri
      · simp [Workspace.find?_update, huri, Saying.document?]
      · simp [Workspace.find?_update, huri, Ne.symm huri]
    | closed =>
      by_cases huri : uri' = uri
      · simp [Workspace.find?_remove, huri, Saying.document?]
      · simp [Workspace.find?_remove, huri, Ne.symm huri]

/-- **A message takes the publications and the workspace along with the history.** -/
theorem Follows.serve {history : History} {sent : List Notification} {s : Session}
    (h : Follows history sent s.workspace) (m : ClientMessage) :
    Follows (history ++ [m]) (sent ++ (s.serve m).sent) (s.serve m).session.workspace := by
  constructor
  · intro uri
    rw [lastPublication?_append, lastPublication?_of_publications (publications_serve s m),
      h.published, History.latest?_append, Option.map_or]
  · intro uri
    rw [find?_serve, History.latest?_append, h.stored]
    cases m.sayingOf? uri <;> rfl

/-- What publishes nothing changes no last publication. -/
theorem Follows.quiet {history : History} {sent sent' : List Notification} {w : Workspace}
    (h : Follows history sent w) (hquiet : publications sent' = []) :
    Follows history (sent ++ sent') w := by
  refine ⟨fun uri => ?_, h.stored⟩
  have hnone : lastPublication? uri sent' = none := by
    rw [lastPublication?, ← filter_isAbout_publications, hquiet]
    rfl
  rw [lastPublication?_append, hnone, Option.none_or, h.published]

theorem Follows.handle {history : History} {sent : List Notification} {s : Session}
    (h : Follows history sent s.workspace) (m : ClientMessage) :
    Follows (history ++ if s.phase.admits m then [m] else []) (sent ++ (s.handle m).sent)
      (s.handle m).session.workspace := by
  cases hadmits : s.phase.admits m with
  | true =>
    rw [handle_of_admits hadmits]
    exact h.serve m
  | false =>
    have hquiet := publications_handle s m
    rw [hadmits] at hquiet
    rw [(handle_of_not_admits hadmits).1]
    simpa using h.quiet hquiet

theorem Follows.serveAll {history : History} {sent : List Notification} {s : Session}
    (h : Follows history sent s.workspace) (messages : History) :
    Follows (history ++ messages) (sent ++ s.sentBy Session.serve messages)
      (s.serveAll messages).workspace := by
  induction messages generalizing history sent s with
  | nil => simpa [sentBy, Session.serveAll] using h
  | cons m messages ih => simpa [sentBy, Session.serveAll] using ih (h.serve m)

theorem Follows.run {history : History} {sent : List Notification} {s : Session}
    (h : Follows history sent s.workspace) (messages : History) :
    Follows (history ++ s.phase.handled messages) (sent ++ s.sentBy Session.handle messages)
      (s.run messages).workspace := by
  induction messages generalizing history sent s with
  | nil => simpa [sentBy, Phase.handled, Session.run] using h
  | cons m messages ih =>
    have hrest := ih (h.handle m)
    rw [phase_handle, List.append_assoc, List.append_assoc] at hrest
    exact hrest

end Session

/-- **Published diagnostics follow the documents.** Every message that opens a document, changes it
to a text or closes it publishes once, and no other message publishes anything. Behind every history
the last publication of a document has the diagnostics and the version of its current text, or is
empty and without a version if the document was closed. With messages handled by phase, this holds
for those that were handled, and the others publish nothing. -/
theorem publications_follow (history : History) :
    (∀ (s : Session) (m : ClientMessage), publications (s.serve m).sent = m.publication?.toList ∧
        publications (s.handle m).sent =
          if s.phase.admits m then m.publication?.toList else []) ∧
      Session.Follows history (Session.start.sentBy Session.serve history)
        (Session.start.serveAll history).workspace ∧
      Session.Follows (Phase.waiting.handled history)
        (Session.start.sentBy Session.handle history) (Session.start.run history).workspace := by
  refine ⟨?_, ?_, ?_⟩
  · intro s m
    exact ⟨s.publications_serve m, s.publications_handle m⟩
  · exact Session.follows_start.serveAll history
  · exact Session.follows_start.run history

end BindingToggle
