import BindingToggle.Proofs.Scanning
import BindingToggle.Server.Session

/-!
# Settings as registers

A client sends settings as often as it likes, in payloads of many shapes, of which some cannot be
read. Each of the two settings is a register of its own: it has the value that the last payload that
can be read and gives one has given it. A payload that cannot be read is as good as none.

* `Payload.Gives` — the values that a payload gives, said without reading it; `ofPayload_eq_ok_iff`
  says that these are the ones that are read, and that every other payload is rejected.
* `Trims` — what is left of a text without the blanks around it; `trims_trim` and `eq_trim_of_trims`
  say that this is its `trim`.
* `Writes`, `LastGiven` — what one payload does to a register, and what a list of payloads does;
  `lastGiven_configureAll` goes from the one to the other.
* `settings_register` — the settings of a session are two such registers, and its command is never
  blank.
-/

namespace BindingToggle

open Text

/-! ## The values of a payload -/

namespace Payload

/-- The values of a record with the given fields: an object gives them by name, and an array, which
has to give them all, by their order. -/
inductive Fields (names : List String) : Payload → List (Option Payload) → Prop
  | object (members : List (Text × Payload)) :
      Fields names (.object members) (names.map fun name => member? name members)
  | array {items : List Payload} (hlength : items.length = names.length) :
      Fields names (.array items) (items.map some)

/-- A value that may be absent. A null stands for none. -/
inductive Optional {α : Type} (Is : Payload → α → Prop) : Option Payload → Option α → Prop
  | absent : Optional Is none none
  | null : Optional Is (some .null) none
  | given {p : Payload} {a : α} (h : Is p a) : Optional Is (some p) (some a)

/-- The section on toggling gives these values. -/
def GivesToggle (p : Payload) (u : SettingsUpdate) : Prop :=
  ∃ enabled command, Fields ["enabled", "setSelectionCommand"] p [enabled, command] ∧
    Optional (fun p b => p = .bool b) enabled u.enabled ∧
    Optional (fun p t => p = .string t) command u.setSelectionCommand

/-- The settings give the values of their section on toggling, or none. -/
def GivesConfig (p : Payload) (u : SettingsUpdate) : Prop :=
  ∃ toggle given, Fields ["toggleBinding"] p [toggle] ∧ Optional GivesToggle toggle given ∧
    u = given.getD .none

/-- The settings that a payload holds: its section `vtoggle`, whatever else there is, or else all of
it. -/
inductive Holds : Payload → Payload → Prop
  | nested {members : List (Text × Payload)} {settings : Payload}
      (h : member? "vtoggle" members = some settings) : Holds (.object members) settings
  | bare {p : Payload} (h : ∀ members, p = .object members → member? "vtoggle" members = none) :
      Holds p p

/-- The payload can be read, and gives these values. -/
def Gives (p : Payload) (u : SettingsUpdate) : Prop :=
  ∃ settings given, Holds p settings ∧ Optional GivesConfig (some settings) given ∧
    u = given.getD .none

end Payload

namespace SettingsUpdate

open Payload

theorem readBool_eq_ok_iff {o : Option Payload} {b : Option Bool} :
    readBool o = .ok b ↔ Optional (fun p b => p = .bool b) o b := by
  constructor
  · intro h
    unfold readBool at h
    split at h <;> cases h
    · exact .absent
    · exact .null
    · exact .given rfl
  · rintro (_ | _ | rfl) <;> rfl

theorem readText_eq_ok_iff {o : Option Payload} {t : Option Text} :
    readText o = .ok t ↔ Optional (fun p t => p = .string t) o t := by
  constructor
  · intro h
    unfold readText at h
    split at h <;> cases h
    · exact .absent
    · exact .null
    · exact .given rfl
  · rintro (_ | _ | rfl) <;> rfl

theorem ofFields_eq_ok_iff {enabled command : Option Payload} {u : SettingsUpdate} :
    ofFields enabled command = .ok u ↔
      Optional (fun p b => p = .bool b) enabled u.enabled ∧
        Optional (fun p t => p = .string t) command u.setSelectionCommand := by
  rw [← readBool_eq_ok_iff, ← readText_eq_ok_iff]
  unfold ofFields
  constructor
  · intro h
    split at h
    · cases h
    · rename_i b hb
      split at h
      · cases h
      · rename_i t ht
        cases h
        exact ⟨hb, ht⟩
  · rintro ⟨hb, ht⟩
    rw [hb, ht]

theorem ofToggleBinding_eq_ok_iff {p : Payload} {u : SettingsUpdate} :
    ofToggleBinding p = .ok u ↔ GivesToggle p u := by
  constructor
  · intro h
    unfold ofToggleBinding at h
    split at h
    · exact ⟨_, _, .object _, ofFields_eq_ok_iff.1 h⟩
    · cases h
    · split at h <;> cases h
    · rename_i enabled command more
      split at h
      · cases h
      · rename_i given hgiven
        split at h
        · rename_i hmore
          cases h
          obtain rfl := List.isEmpty_iff.1 hmore
          exact ⟨some enabled, some command, .array rfl, ofFields_eq_ok_iff.1 hgiven⟩
        · cases h
    · cases h
  · rintro ⟨enabled, command, hfields, hvalues⟩
    have hread := ofFields_eq_ok_iff.2 hvalues
    generalize hlist : [enabled, command] = values at hfields
    cases hfields with
    | object members =>
      cases hlist
      exact hread
    | array hlength =>
      rename_i items
      match items, hlength with
      | [first, second], _ =>
        cases hlist
        simp only [ofToggleBinding, hread, List.isEmpty_nil, if_true]

theorem ofSection_eq_ok_iff {o : Option Payload} {u : SettingsUpdate} :
    ofSection o = .ok u ↔ ∃ given, Optional GivesToggle o given ∧ u = given.getD none := by
  constructor
  · intro h
    unfold ofSection at h
    split at h
    · cases h
      exact ⟨_, .absent, rfl⟩
    · cases h
      exact ⟨_, .null, rfl⟩
    · exact ⟨_, .given (ofToggleBinding_eq_ok_iff.1 h), rfl⟩
  · rintro ⟨given, hgiven, rfl⟩
    cases hgiven with
    | absent => rfl
    | null => rfl
    | given h =>
      obtain ⟨enabled, command, hfields, -⟩ := id h
      rw [ofSection, ofToggleBinding_eq_ok_iff]
      · exact h
      · rintro rfl
        cases hfields

theorem ofConfig_eq_ok_iff {p : Payload} {u : SettingsUpdate} :
    ofConfig p = .ok u ↔ GivesConfig p u := by
  constructor
  · intro h
    unfold ofConfig at h
    split at h
    · obtain ⟨given, hgiven, rfl⟩ := ofSection_eq_ok_iff.1 h
      exact ⟨_, given, .object _, hgiven, rfl⟩
    · cases h
    · rename_i toggle more
      split at h
      · cases h
      · rename_i update hupdate
        split at h
        · rename_i hmore
          cases h
          obtain rfl := List.isEmpty_iff.1 hmore
          obtain ⟨given, hgiven, rfl⟩ := ofSection_eq_ok_iff.1 hupdate
          exact ⟨some toggle, given, .array rfl, hgiven, rfl⟩
        · cases h
    · cases h
  · rintro ⟨toggle, given, hfields, hgiven, rfl⟩
    have hread := ofSection_eq_ok_iff.2 ⟨given, hgiven, rfl⟩
    generalize hlist : [toggle] = values at hfields
    cases hfields with
    | object members =>
      cases hlist
      exact hread
    | array hlength =>
      obtain ⟨first, rfl⟩ := List.length_eq_one_iff.1 hlength
      cases hlist
      simp only [ofConfig, hread, List.isEmpty_nil, if_true]

theorem settingsIn_eq_iff {p settings : Payload} : settingsIn p = settings ↔ Holds p settings := by
  constructor
  · rintro rfl
    unfold settingsIn
    split
    · rename_i members
      cases hmember : member? "vtoggle" members with
      | none =>
        refine .bare ?_
        rintro members' ⟨⟩
        exact hmember
      | some settings => exact .nested hmember
    · rename_i hobject
      refine .bare ?_
      intro members hp
      exact absurd hp (hobject members)
  · intro h
    cases h with
    | nested h => simp only [settingsIn, h, Option.getD_some]
    | bare h =>
      unfold settingsIn
      split
      · rename_i members
        rw [h members rfl]
        rfl
      · rfl

/-- **A payload can be read exactly when it gives values**, and these are the ones that are read. -/
theorem ofPayload_eq_ok_iff {p : Payload} {u : SettingsUpdate} :
    ofPayload p = .ok u ↔ p.Gives u := by
  constructor
  · intro h
    unfold ofPayload at h
    split at h
    · rename_i hnull
      cases h
      exact ⟨_, _, settingsIn_eq_iff.1 hnull, .null, rfl⟩
    · exact ⟨_, _, settingsIn_eq_iff.1 rfl, .given (ofConfig_eq_ok_iff.1 h), rfl⟩
  · rintro ⟨settings, given, hholds, hgiven, rfl⟩
    rw [ofPayload, settingsIn_eq_iff.2 hholds]
    cases hgiven with
    | null => rfl
    | given h =>
      obtain ⟨toggle, given, hfields, -⟩ := id h
      split
      · cases hfields
      · exact ofConfig_eq_ok_iff.2 h

end SettingsUpdate

/-! ## Blanks around a text -/

namespace Text

/-- The text neither begins nor ends with a blank. -/
structure Unpadded (t : Text) : Prop where
  first : ∀ c, t.head? = some c → isBlank c = false
  last : ∀ c, t.getLast? = some c → isBlank c = false

/-- What is left of a text without the blanks at its beginning and at its end. -/
structure Trims (t inner : Text) : Prop where
  unpadded : inner.Unpadded
  blanks : ∃ lead tail, t = lead ++ (inner ++ tail) ∧ (∀ c ∈ lead, isBlank c = true) ∧
    ∀ c ∈ tail, isBlank c = true

theorem trims_trim (t : Text) : Trims t (trim t) := by
  obtain ⟨lead, rest, rfl, hlead, hrest⟩ := exists_run isBlank t
  obtain ⟨tail, inner, hreverse, htail, hinner⟩ := exists_run isBlank rest.reverse
  have htrim : trim (lead ++ rest) = inner.reverse := by
    rw [trim, trimLeft, dropWhile_run hlead hrest, hreverse, dropWhile_run htail hinner]
  have hparts : rest = inner.reverse ++ tail.reverse := by
    rw [← List.reverse_append, ← hreverse, List.reverse_reverse]
  rw [htrim]
  refine ⟨⟨?_, ?_⟩, lead, tail.reverse, by rw [← hparts], hlead, by simpa using htail⟩
  · intro c hc
    refine hrest c ?_
    rw [hparts, List.head?_append, hc]
    rfl
  · intro c hc
    rw [List.getLast?_reverse] at hc
    exact hinner c hc

theorem eq_trim_of_trims {t inner : Text} (h : Trims t inner) : inner = trim t := by
  obtain ⟨⟨hfirst, hlast⟩, lead, tail, rfl, hlead, htail⟩ := h
  cases inner with
  | nil =>
    -- nothing but blanks
    have hall : ∀ c ∈ lead ++ tail, isBlank c = true := by
      intro c hc
      exact (List.mem_append.1 hc).elim (hlead c) (htail c)
    have hdrop := dropWhile_run hall (stops_nil _)
    rw [List.append_nil] at hdrop
    rw [List.nil_append, trim, trimLeft, hdrop]
    rfl
  | cons d inner =>
    have hstops : Stops isBlank (d :: inner ++ tail) := stops_cons.2 (hfirst d rfl)
    have hstops' : Stops isBlank (d :: inner).reverse := by
      intro c hc
      rw [List.head?_reverse] at hc
      exact hlast c hc
    have htail' : ∀ c ∈ tail.reverse, isBlank c = true := by simpa using htail
    rw [trim, trimLeft, dropWhile_run hlead hstops, List.reverse_append,
      dropWhile_run htail' hstops', List.reverse_reverse]

end Text

/-! ## Registers -/

/-- What a payload does to a register: it gives it a value, or leaves it as it is. -/
def Writes {α : Type} (Gives : Payload → α → Prop) (p : Payload) (old new : α) : Prop :=
  Gives p new ∨ (∀ a, ¬ Gives p a) ∧ new = old

/-- The value is that of the last payload that gives one, or the initial one if none does. -/
def LastGiven {α : Type} (Gives : Payload → α → Prop) (initial : α) (payloads : List Payload)
    (value : α) : Prop :=
  (∃ front p back, payloads = front ++ p :: back ∧ Gives p value ∧
    ∀ q ∈ back, ∀ a, ¬ Gives q a) ∨
  (∀ p ∈ payloads, ∀ a, ¬ Gives p a) ∧ value = initial

namespace Session

/-- The session after a list of payloads. -/
def configureAll (s : Session) (payloads : List Payload) : Session :=
  payloads.foldl (fun s p => (s.configure p).1) s

/-- A register that every payload writes to has the value that was given last. -/
theorem lastGiven_configureAll {α : Type} {Gives : Payload → α → Prop} {register : Session → α}
    (h : ∀ s p, Writes Gives p (register s) (register (s.configure p).1)) (s : Session)
    (payloads : List Payload) :
    LastGiven Gives (register s) payloads (register (s.configureAll payloads)) := by
  induction payloads generalizing s with
  | nil => exact .inr ⟨by simp, rfl⟩
  | cons p payloads ih =>
    rcases ih (s.configure p).1 with ⟨front, q, back, rfl, hgives, hback⟩ | ⟨hnone, hvalue⟩
    · exact .inl ⟨p :: front, q, back, rfl, hgives, hback⟩
    · show LastGiven Gives (register s) (p :: payloads)
        (register ((s.configure p).1.configureAll payloads))
      rw [hvalue]
      rcases h s p with hgives | ⟨hnot, hsame⟩
      · exact .inl ⟨[], p, payloads, rfl, hgives, hnone⟩
      · exact .inr ⟨List.forall_mem_cons.2 ⟨hnot, hnone⟩, hsame⟩

theorem configureAll_append (s : Session) (front back : List Payload) :
    s.configureAll (front ++ back) = (s.configureAll front).configureAll back :=
  List.foldl_append

theorem settings_configure {s : Session} {p : Payload} {u : SettingsUpdate} (h : p.Gives u) :
    (s.configure p).1.settings = s.settings.apply u := by
  rw [configure, SettingsUpdate.ofPayload_eq_ok_iff.2 h]

/-- A payload that is rejected changes nothing. -/
theorem configure_of_error {s : Session} {p : Payload} {e : SettingsError}
    (h : SettingsUpdate.ofPayload p = .error e) : (s.configure p).1 = s := by
  rw [configure, h]

/-- A payload that gives no values is rejected. -/
theorem configure_of_not_gives {s : Session} {p : Payload} (h : ∀ u, ¬ p.Gives u) :
    (s.configure p).1 = s := by
  cases hp : SettingsUpdate.ofPayload p with
  | error e => exact configure_of_error hp
  | ok u => exact absurd (SettingsUpdate.ofPayload_eq_ok_iff.1 hp) (h u)

end Session

namespace Payload

/-- The payload can be read, and gives a value for whether actions are offered. -/
def GivesEnabled (p : Payload) (b : Bool) : Prop := ∃ u, p.Gives u ∧ u.enabled = some b

/-- The payload can be read, and gives a command that is not blank: this one, without the blanks
around it. -/
def GivesCommand (p : Payload) (command : Text) : Prop :=
  ∃ u written, p.Gives u ∧ u.setSelectionCommand = some written ∧ Trims written command ∧
    command ≠ []

theorem gives_unique {p : Payload} {u v : SettingsUpdate} (hu : p.Gives u) (hv : p.Gives v) :
    u = v := by
  rw [← SettingsUpdate.ofPayload_eq_ok_iff] at hu hv
  exact Except.ok.inj (hu.symm.trans hv)

end Payload

/-- What an update says about the command: a blank one says nothing. -/
def SettingsUpdate.command? (u : SettingsUpdate) : Option Text :=
  let command := trim (u.setSelectionCommand.getD [])
  if command.isEmpty then .none else some command

theorem SettingsUpdate.command?_eq_some_iff {u : SettingsUpdate} {command : Text} :
    u.command? = some command ↔
      ∃ written, u.setSelectionCommand = some written ∧ Trims written command ∧ command ≠ [] := by
  unfold SettingsUpdate.command?
  constructor
  · intro h
    dsimp only at h
    split at h
    · cases h
    · rename_i hne
      cases h
      cases hwritten : u.setSelectionCommand with
      | none =>
        rw [hwritten] at hne
        exact absurd rfl hne
      | some written =>
        rw [hwritten] at hne
        exact ⟨written, rfl, trims_trim written, by simpa using hne⟩
  · rintro ⟨written, hwritten, htrims, hne⟩
    obtain rfl := eq_trim_of_trims htrims
    simp [hwritten, hne]

theorem Payload.givesCommand_iff {p : Payload} {command : Text} :
    p.GivesCommand command ↔ ∃ u, p.Gives u ∧ u.command? = some command := by
  simp only [GivesCommand, SettingsUpdate.command?_eq_some_iff]
  constructor
  · rintro ⟨u, written, hu, hwritten⟩
    exact ⟨u, hu, written, hwritten⟩
  · rintro ⟨u, hu, written, hwritten⟩
    exact ⟨u, written, hu, hwritten⟩

theorem Settings.enabled_apply (s : Settings) (u : SettingsUpdate) :
    (s.apply u).enabled = u.enabled.getD s.enabled := rfl

theorem Settings.command_apply (s : Settings) (u : SettingsUpdate) :
    (s.apply u).setSelectionCommand = u.command?.getD s.setSelectionCommand := by
  simp only [Settings.apply, SettingsUpdate.command?]
  split <;> rfl

namespace Session

/-- A setting that updates override is a register. -/
theorem writes_of_apply {α : Type} {setting : Settings → α} {said? : SettingsUpdate → Option α}
    (h : ∀ s u, setting (s.apply u) = (said? u).getD (setting s)) (s : Session) (p : Payload) :
    Writes (fun p a => ∃ u, p.Gives u ∧ said? u = some a) p (setting s.settings)
      (setting (s.configure p).1.settings) := by
  by_cases hgives : ∃ u, p.Gives u
  · obtain ⟨u, hu⟩ := hgives
    rw [settings_configure hu, h]
    cases hsaid : said? u with
    | some a => exact .inl ⟨u, hu, hsaid⟩
    | none =>
      refine .inr ⟨?_, rfl⟩
      rintro a ⟨v, hv, ha⟩
      rw [Payload.gives_unique hv hu, hsaid] at ha
      cases ha
  · rw [not_exists] at hgives
    refine .inr ⟨?_, by rw [configure_of_not_gives hgives]⟩
    rintro a ⟨u, hu, -⟩
    exact hgives u hu

theorem lastGiven_enabled (s : Session) (payloads : List Payload) :
    LastGiven Payload.GivesEnabled s.settings.enabled payloads
      (s.configureAll payloads).settings.enabled := by
  have hwrites : ∀ (s : Session) p, Writes Payload.GivesEnabled p s.settings.enabled
      (s.configure p).1.settings.enabled := writes_of_apply Settings.enabled_apply
  exact lastGiven_configureAll hwrites s payloads

theorem lastGiven_command (s : Session) (payloads : List Payload) :
    LastGiven Payload.GivesCommand s.settings.setSelectionCommand payloads
      (s.configureAll payloads).settings.setSelectionCommand := by
  have hwrites : ∀ (s : Session) p, Writes Payload.GivesCommand p s.settings.setSelectionCommand
      (s.configure p).1.settings.setSelectionCommand := by
    intro s p
    have hwrites := writes_of_apply Settings.command_apply s p
    simpa only [Writes, Payload.givesCommand_iff] using hwrites
  exact lastGiven_configureAll hwrites s payloads

end Session

theorem Settings.unpadded_default : Settings.default.setSelectionCommand.Unpadded := by
  have hfirst : Settings.default.setSelectionCommand.head? = some 'v' := by decide
  have hlast : Settings.default.setSelectionCommand.getLast? = some 'n' := by decide
  constructor
  · rw [hfirst]
    rintro c ⟨⟩
    decide
  · rw [hlast]
    rintro c ⟨⟩
    decide

/-- **Settings are registers.** In a session that takes in any payloads, each setting has the value
that the last payload that can be read and gives one has given it, or its default; a command is
given without the blanks around it, and a blank one is none. The payloads that can be read are those
that give values, and leaving out one that is rejected changes nothing. The command of the session
is never empty, and has no blanks around it. -/
theorem settings_register (payloads : List Payload) :
    let settings := (Session.start.configureAll payloads).settings
    LastGiven Payload.GivesEnabled Settings.default.enabled payloads settings.enabled ∧
    LastGiven Payload.GivesCommand Settings.default.setSelectionCommand payloads
      settings.setSelectionCommand ∧
    (∀ p u, SettingsUpdate.ofPayload p = .ok u ↔ p.Gives u) ∧
    (∀ front p back e, payloads = front ++ p :: back → SettingsUpdate.ofPayload p = .error e →
      settings = (Session.start.configureAll (front ++ back)).settings) ∧
    settings.setSelectionCommand ≠ [] ∧ settings.setSelectionCommand.Unpadded := by
  intro settings
  have hcommand := Session.lastGiven_command .start payloads
  refine ⟨Session.lastGiven_enabled .start payloads, hcommand,
    fun p u => SettingsUpdate.ofPayload_eq_ok_iff, ?_, ?_⟩
  · rintro front p back e rfl herror
    show (Session.start.configureAll (front ++ p :: back)).settings = _
    rw [Session.configureAll_append, Session.configureAll_append]
    show ((((Session.start.configureAll front).configure p).1).configureAll back).settings = _
    rw [Session.configure_of_error herror]
  · rcases hcommand with ⟨_, _, _, -, ⟨_, _, -, -, htrims, hne⟩, -⟩ | ⟨-, hdefault⟩
    · exact ⟨hne, htrims.unpadded⟩
    · show settings.setSelectionCommand ≠ [] ∧ settings.setSelectionCommand.Unpadded
      rw [hdefault]
      exact ⟨by decide, Settings.unpadded_default⟩

/-- A bare payload, one whose section has a blank command and hides what is bare, and one that is
rejected for its command although it could turn the actions on again. -/
theorem settings_register_rejected :
    let first := Payload.object [("toggleBinding".toList, .object [("enabled".toList, .bool false),
      ("setSelectionCommand".toList, .string " x\t".toList)])]
    let second := Payload.object [
      ("toggleBinding".toList, .object [("enabled".toList, .bool true)]),
      ("vtoggle".toList, .array [.array [.null, .string " ".toList]])]
    let third := Payload.object [("toggleBinding".toList, .object [("enabled".toList, .bool true),
      ("setSelectionCommand".toList, .integer 1)])]
    let settings := (Session.start.configureAll [first, second, third]).settings
    settings = ⟨false, "x".toList⟩ ∧
      settings = (Session.start.configureAll [first, second]).settings ∧
      LastGiven Payload.GivesEnabled true [first, second, third] settings.enabled := by
  intro first second third settings
  obtain ⟨henabled, -, -, hrejected, -⟩ := settings_register [first, second, third]
  have hthird : SettingsUpdate.ofPayload third = .error (.invalidType (.integer 1) .string) := rfl
  exact ⟨by decide +kernel, hrejected [first, second] third [] _ rfl hthird, henabled⟩

end BindingToggle
