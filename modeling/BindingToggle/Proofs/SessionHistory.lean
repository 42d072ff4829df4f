import BindingToggle.Server.Session

/-!
# Answers from the history of a session

A session keeps documents with their readings, cancellation flags and settings, and changes them
message by message. None of this shows: what it answers can be told from the messages that it has
handled, each time anew.

* `History.currentText?`, `History.settings`, `History.answer` — the text of a document, the settings
  and the answer to a request, as a history of messages gives them.
* `Workspace.Sound` — the reading of every open document is that of its text, its flag is not raised,
  and no other document has the same flag. `Sound.update` and `Sound.remove` say that this is kept.
* `Session.Reflects` — the session holds what its history says; `Reflects.serve` and `Reflects.handle`
  are the steps, `Reflects.serveAll` and `Reflects.run` the runs.
* `offered_answer` — the answers of a session are those of its history, with messages taken in any
  order, and with those left out that come before the session is opened or after it is over.
-/

namespace BindingToggle

/-! ## What a history says -/

namespace ClientMessage

/-- What a message says of the text of a document: its new text, or that it has none any more. -/
def textOf? (uri : String) : ClientMessage → Option (Option Text)
  | opened u _ text => if u = uri then some (some text) else none
  | changed u _ texts => if u = uri then texts.getLast?.map some else none
  | closed u => if u = uri then some none else none
  | _ => none

/-- The payload that a message carries. -/
def payload? : ClientMessage → Option Payload
  | connect options => options
  | configured settings => some settings
  | _ => none

/-- The update of the settings that a message asks for, if its payload can be read. -/
def update? (m : ClientMessage) : Option SettingsUpdate :=
  m.payload?.bind fun p => (SettingsUpdate.ofPayload p).toOption

end ClientMessage

/-- The messages that a session has handled, the first one first. -/
abbrev History := List ClientMessage

namespace History

/-- The text of a document: what the latest message says of it that says anything. -/
def currentText? (history : History) (uri : String) : Option Text :=
  (history.reverse.findSome? (ClientMessage.textOf? uri)).join

/-- The settings that all updates together make of the default ones. -/
def settings (history : History) : Settings :=
  (history.filterMap ClientMessage.update?).foldl Settings.apply .default

/-- The answer to a request for code actions: those of the current text, read anew and never called
off. -/
def answer (history : History) (uri : String) (range : Range) (only : Option (List String)) :
    List CodeAction :=
  match history.currentText? uri with
  | none => []
  | some text => codeActions text (parseComponent text) uri range only history.settings false

theorem currentText?_append (history : History) (m : ClientMessage) (uri : String) :
    currentText? (history ++ [m]) uri =
      match m.textOf? uri with
      | some said => said
      | none => currentText? history uri := by
  cases h : m.textOf? uri <;> simp [currentText?, h]

theorem settings_append (history : History) (m : ClientMessage) :
    settings (history ++ [m]) = (m.update?.map (settings history).apply).getD (settings history) := by
  cases h : m.update? <;> simp [settings, h]

end History

/-! ## Open documents -/

namespace Workspace

theorem lookup_cons_eq (key uri : String) (d : Snapshot) (documents : List (String × Snapshot)) :
    ((key, d) :: documents).lookup uri = if uri = key then some d else documents.lookup uri := by
  by_cases huri : uri = key
  · simp [huri]
  · rw [List.lookup_cons, beq_false_of_ne huri, if_neg huri]

theorem lookup_filter_ne (documents : List (String × Snapshot)) (uri uri' : String) :
    (documents.filter fun entry => entry.1 != uri).lookup uri' =
      if uri' = uri then none else documents.lookup uri' := by
  induction documents with
  | nil => simp
  | cons entry documents ih =>
    obtain ⟨key, d⟩ := entry
    by_cases hkey : key = uri
    · -- the entry is left out, and nobody else asks for it
      subst hkey
      rw [List.filter_cons_of_neg (by simp), ih, lookup_cons_eq]
      split <;> rfl
    · rw [List.filter_cons_of_pos (by simpa using hkey), lookup_cons_eq, lookup_cons_eq, ih]
      by_cases huri : uri' = key
      · rw [if_pos huri, if_pos huri, if_neg (by rw [huri]; exact hkey)]
      · rw [if_neg huri, if_neg huri]

theorem find?_remove (w : Workspace) (uri uri' : String) :
    (w.remove uri).find? uri' = if uri' = uri then none else w.find? uri' :=
  lookup_filter_ne w.documents uri uri'

/-- Calling off the work on a document makes no flag. -/
theorem length_callOff (w : Workspace) (uri : String) :
    (w.callOff uri).raised.length = w.flags.raised.length := by
  unfold callOff
  split
  · rfl
  · simp [CancelFlags.cancel]

theorem find?_update (w : Workspace) (uri uri' : String) (text : Text) (version : Int) :
    (w.update uri text version).find? uri' =
      if uri' = uri then some ⟨text, parseComponent text, version, ⟨w.flags.raised.length⟩⟩
      else w.find? uri' := by
  show List.lookup uri' ((uri, _) :: w.others uri) = _
  rw [lookup_cons_eq, others, lookup_filter_ne, CancelFlags.fresh, length_callOff]
  split <;> rfl

/-- A document that is open after one was closed is another one, and was open before. -/
theorem of_find?_remove {w : Workspace} {uri uri' : String} {d : Snapshot}
    (h : (w.remove uri).find? uri' = some d) : uri' ≠ uri ∧ w.find? uri' = some d := by
  rw [find?_remove] at h
  split at h
  · cases h
  · exact ⟨‹_›, h⟩

/-- A document that is open after one was given a text is that one, or was open before. -/
theorem of_find?_update {w : Workspace} {uri uri' : String} {text : Text} {version : Int}
    {d : Snapshot} (h : (w.update uri text version).find? uri' = some d) :
    (uri' = uri ∧ d = ⟨text, parseComponent text, version, ⟨w.flags.raised.length⟩⟩) ∨
      (uri' ≠ uri ∧ w.find? uri' = some d) := by
  rw [find?_update] at h
  split at h
  · exact .inl ⟨‹_›, (Option.some.inj h).symm⟩
  · exact .inr ⟨‹_›, h⟩

/-- The reading of every open document is that of its text, its flag was made and is not raised, and
no other document has the same one. -/
structure Sound (w : Workspace) : Prop where
  read : ∀ {uri d}, w.find? uri = some d → d.component = parseComponent d.text
  made : ∀ {uri d}, w.find? uri = some d → d.cancel.index < w.flags.raised.length
  live : ∀ {uri d}, w.find? uri = some d → w.flags.isCancelled d.cancel = false
  apart : ∀ {uri uri' d d'}, w.find? uri = some d → w.find? uri' = some d' →
    d.cancel = d'.cancel → uri = uri'

theorem sound_empty : Sound empty := by
  constructor <;> intros <;> contradiction

/-- Calling off the work on a document leaves the flags of the others as they are. -/
theorem Sound.isCancelled_callOff {w : Workspace} (h : w.Sound) {uri uri' : String} {d : Snapshot}
    (hd : w.find? uri' = some d) (hne : uri' ≠ uri) :
    (w.callOff uri).isCancelled d.cancel = false := by
  unfold callOff
  split
  · exact h.live hd
  · rename_i e he
    have hother : e.cancel ≠ d.cancel := by
      intro hsame
      exact hne (h.apart hd he hsame.symm)
    rw [CancelFlags.isCancelled_cancel]
    simp [hother, h.live hd]

theorem Sound.remove {w : Workspace} (h : w.Sound) (uri : String) : (w.remove uri).Sound := by
  constructor
  · intro uri' d hd
    exact h.read (of_find?_remove hd).2
  · intro uri' d hd
    show d.cancel.index < (w.callOff uri).raised.length
    rw [length_callOff]
    exact h.made (of_find?_remove hd).2
  · intro uri' d hd
    exact h.isCancelled_callOff (of_find?_remove hd).2 (of_find?_remove hd).1
  · intro uri₁ uri₂ d₁ d₂ h₁ h₂ hsame
    exact h.apart (of_find?_remove h₁).2 (of_find?_remove h₂).2 hsame

/-- A document that was given a new text has a flag that nobody had before. -/
theorem Sound.update {w : Workspace} (h : w.Sound) (uri : String) (text : Text) (version : Int) :
    (w.update uri text version).Sound := by
  have hlength : (w.update uri text version).flags.raised.length = w.flags.raised.length + 1 := by
    simp [Workspace.update, CancelFlags.fresh, length_callOff]
  have hflags : ∀ k, (w.update uri text version).flags.isCancelled k =
      (w.callOff uri).isCancelled k := CancelFlags.isCancelled_fresh _
  constructor
  · intro uri' d hd
    rcases of_find?_update hd with ⟨-, rfl⟩ | ⟨-, hd⟩
    · rfl
    · exact h.read hd
  · intro uri' d hd
    rw [hlength]
    rcases of_find?_update hd with ⟨-, rfl⟩ | ⟨-, hd⟩
    · exact Nat.lt_succ_self _
    · exact Nat.lt_succ_of_lt (h.made hd)
  · intro uri' d hd
    rw [hflags]
    rcases of_find?_update hd with ⟨-, rfl⟩ | ⟨hne, hd⟩
    · simp [CancelFlags.isCancelled, ← length_callOff w uri]
    · exact h.isCancelled_callOff hd hne
  · intro uri₁ uri₂ d₁ d₂ h₁ h₂ hsame
    rcases of_find?_update h₁ with ⟨hu₁, rfl⟩ | ⟨-, hold₁⟩ <;>
      rcases of_find?_update h₂ with ⟨hu₂, rfl⟩ | ⟨-, hold₂⟩
    · rw [hu₁, hu₂]
    · -- the flag of the other document was made before
      have hmade := h.made hold₂
      rw [← hsame] at hmade
      exact absurd hmade (Nat.lt_irrefl _)
    · have hmade := h.made hold₁
      rw [hsame] at hmade
      exact absurd hmade (Nat.lt_irrefl _)
    · exact h.apart hold₁ hold₂ hsame

end Workspace

/-! ## Handling messages in any order -/

/-- An update that gives no value changes nothing. -/
theorem Settings.apply_none (s : Settings) : s.apply .none = s := by
  simp [apply, SettingsUpdate.none, Text.trim, Text.trimLeft]

namespace Session

/-- What is done with a message, whatever came before: also with one that opens a session that is
open, or with one of a session that is not. -/
def serve (s : Session) : ClientMessage → Outcome
  | .connect options =>
    let next := s.configure (options.getD .null)
    ⟨next.1, next.2, some .ready⟩
  | m => s.handleActive m

/-- The session after a history of messages that were all served. -/
def serveAll (s : Session) (history : History) : Session :=
  history.foldl (fun s m => (s.serve m).session) s

/-- The session holds what its history says. -/
structure Reflects (history : History) (s : Session) : Prop where
  settings : s.settings = history.settings
  texts : ∀ uri, (s.workspace.find? uri).map (·.text) = history.currentText? uri
  sound : s.workspace.Sound

theorem reflects_start : Reflects [] start :=
  ⟨rfl, fun _ => rfl, Workspace.sound_empty⟩

/-- What a session offers is the answer of its history. -/
theorem Reflects.offer_eq {history : History} {s : Session} (h : Reflects history s) (uri : String)
    (range : Range) (only : Option (List String)) :
    s.offer uri range only = history.answer uri range only := by
  have htext := h.texts uri
  unfold offer History.answer
  rw [← htext]
  cases hd : s.workspace.find? uri with
  | none => rfl
  | some d =>
    simp only [Option.map_some]
    rw [h.sound.read hd, h.sound.live hd, h.settings]

/-- A message that says nothing of texts or settings leaves all as it is. -/
theorem Reflects.skip {history : History} {s : Session} {m : ClientMessage}
    (h : Reflects history s) (htext : ∀ uri, m.textOf? uri = none) (hupdate : m.update? = none) :
    Reflects (history ++ [m]) s := by
  refine ⟨?_, ?_, h.sound⟩
  · rw [History.settings_append, hupdate]
    exact h.settings
  · intro uri
    rw [History.currentText?_append, htext uri]
    exact h.texts uri

/-- The phase is not part of what a history says. -/
theorem Reflects.withPhase {history : History} {s : Session} (h : Reflects history s)
    (phase : Phase) : Reflects history { s with phase } :=
  ⟨h.settings, h.texts, h.sound⟩

theorem Reflects.configure {history : History} {s : Session} {m : ClientMessage} {p : Payload}
    (h : Reflects history s) (htext : ∀ uri, m.textOf? uri = none) (hp : m.payload? = some p) :
    Reflects (history ++ [m]) (s.configure p).1 := by
  have hupdate : m.update? = (SettingsUpdate.ofPayload p).toOption := by
    simp [ClientMessage.update?, hp]
  unfold Session.configure
  split
  · rename_i e he
    rw [he] at hupdate
    exact h.skip htext hupdate
  · rename_i u hu
    rw [hu] at hupdate
    refine ⟨?_, ?_, h.sound⟩
    · rw [History.settings_append, hupdate]
      simp [Except.toOption, h.settings]
    · intro uri
      rw [History.currentText?_append, htext uri]
      exact h.texts uri

theorem Reflects.refresh {history : History} {s : Session} {m : ClientMessage} {uri : String}
    {text : Text} (h : Reflects history s) (version : Int) (hupdate : m.update? = none)
    (htext : ∀ uri', m.textOf? uri' = if uri = uri' then some (some text) else none) :
    Reflects (history ++ [m]) (s.refresh uri text version).1 := by
  refine ⟨?_, ?_, h.sound.update uri text version⟩
  · rw [History.settings_append, hupdate]
    exact h.settings
  · intro uri'
    show ((s.workspace.update uri text version).find? uri').map _ = _
    rw [Workspace.find?_update, History.currentText?_append, htext]
    by_cases huri : uri = uri'
    · simp [huri]
    · simp [huri, Ne.symm huri, h.texts]

theorem Reflects.close {history : History} {s : Session} (h : Reflects history s) (uri : String) :
    Reflects (history ++ [.closed uri]) { s with workspace := s.workspace.remove uri } := by
  refine ⟨?_, ?_, h.sound.remove uri⟩
  · rw [History.settings_append]
    exact h.settings
  · intro uri'
    show ((s.workspace.remove uri).find? uri').map _ = _
    rw [Workspace.find?_remove, History.currentText?_append, ClientMessage.textOf?]
    by_cases huri : uri = uri'
    · simp [huri]
    · simp [huri, Ne.symm huri, h.texts]

/-- **Every message takes the session along with its history.** -/
theorem Reflects.serve {history : History} {s : Session} (h : Reflects history s)
    (m : ClientMessage) : Reflects (history ++ [m]) (s.serve m).session := by
  cases m with
  | connect options =>
    cases options with
    | none =>
      -- no settings are as good as an update without values
      have hsame : (s.configure .null).1 = s := by
        show { s with settings := s.settings.apply .none } = s
        rw [Settings.apply_none]
      show Reflects _ (s.configure .null).1
      rw [hsame]
      exact h.skip (fun _ => rfl) rfl
    | some p => exact h.configure (fun _ => rfl) rfl
  | connected => exact h.skip (fun _ => rfl) rfl
  | opened uri version text => exact h.refresh version rfl fun _ => rfl
  | changed uri version texts =>
    cases ht : texts.getLast? with
    | none =>
      have htext : ∀ uri', (ClientMessage.changed uri version texts).textOf? uri' = none := by
        intro uri'
        simp [ClientMessage.textOf?, ht]
      simp only [Session.serve, handleActive, ht]
      exact h.skip htext rfl
    | some text =>
      have htext : ∀ uri', (ClientMessage.changed uri version texts).textOf? uri' =
          if uri = uri' then some (some text) else none := by
        intro uri'
        simp [ClientMessage.textOf?, ht]
      simp only [Session.serve, handleActive, ht]
      exact h.refresh version rfl htext
  | closed uri => exact h.close uri
  | configured p => exact h.configure (fun _ => rfl) rfl
  | actions uri range only => exact h.skip (fun _ => rfl) rfl
  | shutdown => exact (h.skip (fun _ => rfl) rfl).withPhase .over

theorem Reflects.serveAll {history : History} {s : Session} (h : Reflects history s)
    (messages : History) : Reflects (history ++ messages) (s.serveAll messages) := by
  induction messages generalizing history s with
  | nil => simpa [Session.serveAll] using h
  | cons m messages ih =>
    have hrest := ih (h.serve m)
    simpa [Session.serveAll] using hrest

end Session

/-! ## Handling messages by phase -/

namespace Phase

/-- Whether a message is handled in a phase. -/
def admits : Phase → ClientMessage → Bool
  | .waiting, .connect _ => true
  | .waiting, _ => false
  | .active, .connect _ => false
  | .active, _ => true
  | .over, _ => false

/-- The phase behind a message. -/
def next : Phase → ClientMessage → Phase
  | .waiting, .connect _ => .active
  | .active, .shutdown => .over
  | p, _ => p

/-- Why requests are refused in a phase. -/
def refusal : Phase → Refusal
  | .waiting => .notInitialized
  | .active | .over => .invalidRequest

/-- The phase behind a history. -/
def after (p : Phase) (history : History) : Phase := history.foldl next p

/-- The messages of a history that are handled. -/
def handled : Phase → History → History
  | _, [] => []
  | p, m :: history => (if p.admits m then [m] else []) ++ handled (p.next m) history

end Phase

namespace Session

/-- The session after a history of messages. -/
def run (s : Session) (history : History) : Session :=
  history.foldl (fun s m => (s.handle m).session) s

theorem phase_configure (s : Session) (p : Payload) : (s.configure p).1.phase = s.phase := by
  unfold configure
  split <;> rfl

theorem phase_handleActive {s : Session} (h : s.phase = .active) (m : ClientMessage) :
    (s.handleActive m).session.phase = Phase.active.next m := by
  cases m with
  | changed uri version texts =>
    cases ht : texts.getLast? <;> simp only [handleActive, ht] <;> exact h
  | configured p => exact (phase_configure s p).trans h
  | shutdown => rfl
  | _ => exact h

/-- A message that is handled is served, and moves the phase on. -/
theorem handle_of_admits {s : Session} {m : ClientMessage} (h : s.phase.admits m = true) :
    s.handle m =
      { s.serve m with session := { (s.serve m).session with phase := s.phase.next m } } := by
  cases hphase : s.phase with
  | waiting =>
    rw [hphase] at h
    cases m with
    | connect options => simp only [handle, hphase]; rfl
    | _ => cases h
  | active =>
    rw [hphase] at h
    have hserve : s.serve m = s.handleActive m := by
      cases m with
      | connect options => cases h
      | _ => rfl
    have hactive : s.handle m = s.handleActive m := by simp only [handle, hphase]
    rw [hactive, hserve, ← phase_handleActive hphase m]
  | _ =>
    rw [hphase] at h
    cases h

/-- A message that is not handled changes nothing. -/
theorem handle_of_not_admits {s : Session} {m : ClientMessage} (h : s.phase.admits m = false) :
    (s.handle m).session = s ∧ s.phase.next m = s.phase := by
  cases hphase : s.phase with
  | waiting =>
    rw [hphase] at h
    cases m with
    | connect options => cases h
    | _ => simp only [handle, hphase]; exact ⟨rfl, rfl⟩
  | active =>
    rw [hphase] at h
    cases m with
    | connect options => simp only [handle, hphase]; exact ⟨rfl, rfl⟩
    | _ => cases h
  | _ =>
    cases m <;> simp only [handle, hphase] <;> exact ⟨rfl, rfl⟩

theorem phase_handle (s : Session) (m : ClientMessage) :
    (s.handle m).session.phase = s.phase.next m := by
  cases h : s.phase.admits m with
  | true => rw [handle_of_admits h]
  | false =>
    obtain ⟨hsession, hphase⟩ := handle_of_not_admits h
    rw [hsession, hphase]

theorem phase_run (s : Session) (history : History) :
    (s.run history).phase = s.phase.after history := by
  induction history generalizing s with
  | nil => rfl
  | cons m history ih =>
    show ((s.handle m).session.run history).phase = (s.phase.next m).after history
    rw [ih, phase_handle]

/-- A message counts for the history if it is handled. -/
theorem Reflects.handle {history : History} {s : Session} (h : Reflects history s)
    (m : ClientMessage) :
    Reflects (history ++ if s.phase.admits m then [m] else []) (s.handle m).session := by
  cases hadmits : s.phase.admits m with
  | true =>
    rw [handle_of_admits hadmits]
    exact (h.serve m).withPhase _
  | false =>
    rw [(handle_of_not_admits hadmits).1]
    simpa using h

theorem Reflects.run {history : History} {s : Session} (h : Reflects history s)
    (messages : History) : Reflects (history ++ s.phase.handled messages) (s.run messages) := by
  induction messages generalizing history s with
  | nil => simpa [Phase.handled, Session.run] using h
  | cons m messages ih =>
    have hrest := ih (h.handle m)
    rw [phase_handle, List.append_assoc] at hrest
    exact hrest

/-- A request for code actions is answered in an active session, and refused in any other. -/
theorem reply_actions (s : Session) (uri : String) (range : Range) (only : Option (List String)) :
    (s.handle (.actions uri range only)).reply =
      some (if s.phase = .active then .offered (s.offer uri range only)
        else .refused s.phase.refusal) := by
  cases hphase : s.phase <;> simp only [Session.handle, hphase] <;> rfl

end Session

/-- **A session answers from its history.** With messages taken in any order, every request for code
actions is answered with what the messages before it say. With messages handled by phase, this holds
for those that were handled, as long as the session is active; in any other phase the request is
refused. -/
theorem offered_answer (history : History) (uri : String) (range : Range)
    (only : Option (List String)) :
    ((Session.start.serveAll history).serve (.actions uri range only)).reply =
        some (.offered (history.answer uri range only)) ∧
      ((Session.start.run history).handle (.actions uri range only)).reply =
        some (if Phase.waiting.after history = .active
          then .offered ((Phase.waiting.handled history).answer uri range only)
          else .refused (Phase.waiting.after history).refusal) := by
  constructor
  · have hserved := Session.reflects_start.serveAll history
    show some (Reply.offered ((Session.start.serveAll history).offer uri range only)) = _
    rw [hserved.offer_eq, List.nil_append]
  · have hrun := Session.reflects_start.run history
    rw [Session.reply_actions, hrun.offer_eq, Session.phase_run]
    rfl

end BindingToggle
