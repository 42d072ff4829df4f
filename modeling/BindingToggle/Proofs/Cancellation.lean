import BindingToggle.Proofs.SessionHistory

/-!
# Work is called off exactly when its document is replaced

A request works on a snapshot of a document, and keeps the handle of its flag while the document goes
on changing. The flag has to be raised as soon as the snapshot is out of date, and not before.

* `Workspace.Step` — what happens to a workspace: a document is replaced or closed, or a snapshot of
  it is handed out.
* `Sound.step`, `Sound.run` — the invariant of a workspace along its steps.
* `find?_step`, `isCancelled_step_of_replaces`, `isCancelled_step_of_isCancelled` — a snapshot stays
  current until a step replaces it; that step raises its flag, and no step lowers it again.
* `isCancelled_run_iff` — along any steps, the flag of a snapshot that was current is raised if and
  only if one of them replaces its document.
* `handedOut_cancelled_iff` — this for every snapshot that is handed out.
-/

namespace BindingToggle

namespace Workspace

/-- What happens to a workspace. -/
inductive Step where
  | update (uri : String) (text : Text) (version : Int)
  | remove (uri : String)
  /-- Hands out the current snapshot of a document, with the handle of its flag. -/
  | handOut (uri : String)
  deriving DecidableEq, Repr

/-- The document whose snapshot a step replaces or takes away. -/
def Step.replaced? : Step → Option String
  | update uri _ _ => some uri
  | remove uri => some uri
  | handOut _ => none

def step (w : Workspace) : Step → Workspace
  | .update uri text version => w.update uri text version
  | .remove uri => w.remove uri
  | .handOut _ => w

def run (w : Workspace) (steps : List Step) : Workspace := steps.foldl step w

theorem run_append (w : Workspace) (steps steps' : List Step) :
    w.run (steps ++ steps') = (w.run steps).run steps' := List.foldl_append

variable {w : Workspace} {uri : String} {d : Snapshot}

/-! ## One step -/

theorem Sound.step (h : w.Sound) (a : Step) : (w.step a).Sound := by
  cases a with
  | update uri text version => exact h.update uri text version
  | remove uri => exact h.remove uri
  | handOut => exact h

/-- A step that does not replace a document leaves its snapshot as it is. -/
theorem find?_step {a : Step} (ha : a.replaced? ≠ some uri) :
    (w.step a).find? uri = w.find? uri := by
  cases a with
  | update uri' text version =>
    have hne : uri ≠ uri' := by
      rintro rfl
      exact ha rfl
    show (w.update uri' text version).find? uri = w.find? uri
    rw [find?_update, if_neg hne]
  | remove uri' =>
    have hne : uri ≠ uri' := by
      rintro rfl
      exact ha rfl
    show (w.remove uri').find? uri = w.find? uri
    rw [find?_remove, if_neg hne]
  | handOut => rfl

/-- A step raises flags by calling off the work on the document that it replaces, and in no other
way. -/
theorem isCancelled_step (w : Workspace) (a : Step) (k : CancelHandle) :
    (w.step a).flags.isCancelled k =
      match a.replaced? with
      | some uri => (w.callOff uri).isCancelled k
      | none => w.flags.isCancelled k := by
  cases a with
  | update uri text version => exact CancelFlags.isCancelled_fresh _ k
  | remove uri => rfl
  | handOut => rfl

/-- The flag of a snapshot is raised by the step that replaces it. -/
theorem isCancelled_step_of_replaces (h : w.Sound) (hd : w.find? uri = some d) {a : Step}
    (ha : a.replaced? = some uri) : (w.step a).flags.isCancelled d.cancel = true := by
  rw [isCancelled_step, ha]
  show (w.callOff uri).isCancelled d.cancel = true
  simp [callOff, hd, CancelFlags.isCancelled_cancel, h.made hd]

/-- A flag that is raised stays raised. -/
theorem isCancelled_step_of_isCancelled {k : CancelHandle} (h : w.flags.isCancelled k = true)
    (a : Step) : (w.step a).flags.isCancelled k = true := by
  rw [isCancelled_step]
  cases a.replaced? with
  | none => exact h
  | some uri =>
    show (w.callOff uri).isCancelled k = true
    unfold callOff
    split
    · exact h
    · rw [CancelFlags.isCancelled_cancel, h, Bool.or_true]

/-! ## Whole runs -/

theorem Sound.run (h : w.Sound) (steps : List Step) : (w.run steps).Sound := by
  induction steps generalizing w with
  | nil => exact h
  | cons a steps ih => exact ih (h.step a)

/-- A snapshot stays current as long as no step replaces its document. -/
theorem find?_run {steps : List Step} (h : ∀ a ∈ steps, a.replaced? ≠ some uri) :
    (w.run steps).find? uri = w.find? uri := by
  induction steps generalizing w with
  | nil => rfl
  | cons a steps ih =>
    show ((w.step a).run steps).find? uri = w.find? uri
    rw [ih fun b hb => h b (List.mem_cons_of_mem a hb), find?_step (h a List.mem_cons_self)]

theorem isCancelled_run_of_isCancelled {k : CancelHandle} (h : w.flags.isCancelled k = true)
    (steps : List Step) : (w.run steps).flags.isCancelled k = true := by
  induction steps generalizing w with
  | nil => exact h
  | cons a steps ih => exact ih (isCancelled_step_of_isCancelled h a)

/-- **The flag of a snapshot is raised exactly by the first step that replaces it.** -/
theorem isCancelled_run_iff (h : w.Sound) (hd : w.find? uri = some d) (steps : List Step) :
    (w.run steps).flags.isCancelled d.cancel = true ↔
      ∃ a ∈ steps, a.replaced? = some uri := by
  constructor
  · -- a document that no step replaces has the same snapshot still, whose flag is not raised
    intro hraised
    by_cases hsome : ∃ a ∈ steps, a.replaced? = some uri
    · exact hsome
    · have hcurrent : (w.run steps).find? uri = some d := by
        rw [find?_run fun a ha hreplaced => hsome ⟨a, ha, hreplaced⟩, hd]
      rw [(h.run steps).live hcurrent] at hraised
      cases hraised
  · rintro ⟨a, ha, hreplaced⟩
    induction steps generalizing w with
    | nil => cases ha
    | cons b steps ih =>
      show ((w.step b).run steps).flags.isCancelled d.cancel = true
      by_cases hb : b.replaced? = some uri
      · exact isCancelled_run_of_isCancelled (isCancelled_step_of_replaces h hd hb) steps
      · have hrest : a ∈ steps := by
          rcases List.mem_cons.1 ha with rfl | hrest
          · exact absurd hreplaced hb
          · exact hrest
        exact ih (h.step b) ((find?_step hb).trans hd) hrest

end Workspace

open Workspace in
/-- **Cancellation is exact.** Let a snapshot of a document be handed out, and let any steps follow.
Its flag is raised if and only if one of them replaced or closed the document, and a step that does
neither does not change it. As long as none does, the same snapshot is handed out again. The flags of
the current snapshots are never raised, and no other snapshot has the same one. -/
theorem handedOut_cancelled_iff {before : List Step} {uri : String} {d : Snapshot}
    (h : (empty.run before).find? uri = some d) (after : List Step) :
    let reached := empty.run (before ++ .handOut uri :: after)
    (reached.flags.isCancelled d.cancel = true ↔ ∃ a ∈ after, a.replaced? = some uri) ∧
      (∀ a : Step, a.replaced? ≠ some uri →
        (reached.step a).flags.isCancelled d.cancel = reached.flags.isCancelled d.cancel) ∧
      ((∀ a ∈ after, a.replaced? ≠ some uri) → reached.find? uri = some d) ∧
      ∀ uri' d', reached.find? uri' = some d' →
        reached.flags.isCancelled d'.cancel = false ∧
          (d'.cancel = d.cancel → uri' = uri ∧ d' = d) := by
  intro reached
  have hsound : (empty.run before).Sound := sound_empty.run before
  have hreached : reached = (empty.run before).run after :=
    run_append empty before (.handOut uri :: after)
  have hraised := isCancelled_run_iff hsound h
  rw [hreached]
  refine ⟨hraised after, ?_, ?_, ?_⟩
  · intro a ha
    have hstep := hraised (after ++ [a])
    rw [run_append] at hstep
    have hsame : (∃ b ∈ after ++ [a], b.replaced? = some uri) ↔
        ∃ b ∈ after, b.replaced? = some uri := by
      simp [or_and_right, exists_or, ha]
    rw [Bool.eq_iff_iff, hraised after, ← hsame]
    exact hstep
  · intro hnone
    rw [find?_run hnone, h]
  · intro uri' d' hd'
    have hlive := (hsound.run after).live hd'
    refine ⟨hlive, ?_⟩
    intro hshared
    -- the flag is not raised, so the document was not replaced, and it has no flag of another one
    have hnone : ∀ a ∈ after, a.replaced? ≠ some uri := by
      intro a ha hreplaced
      rw [hshared, (hraised after).2 ⟨a, ha, hreplaced⟩] at hlive
      cases hlive
    have hcurrent : ((empty.run before).run after).find? uri = some d := by
      rw [find?_run hnone, h]
    have huri := (hsound.run after).apart hd' hcurrent hshared
    rw [huri, hcurrent] at hd'
    exact ⟨huri, (Option.some.inj hd').symm⟩

open Workspace in
/-- A snapshot that was handed out is called off when its document is closed, not when another one
changes, and opening the document again does not take this back. -/
theorem handedOut_cancelled_reopened :
    ∃ d, (empty.run [.update "a" [] 1, .update "b" [] 1]).find? "a" = some d ∧
      (empty.run ([.update "a" [] 1, .update "b" [] 1] ++ .handOut "a" ::
        [.handOut "b", .update "b" [] 2])).flags.isCancelled d.cancel = false ∧
      (empty.run ([.update "a" [] 1, .update "b" [] 1] ++ .handOut "a" ::
        [.remove "a", .update "a" [] 2])).flags.isCancelled d.cancel = true := by
  have hd : (empty.run [.update "a" [] 1, .update "b" [] 1]).find? "a" =
      some ⟨[], parseComponent [], 1, ⟨0⟩⟩ := rfl
  refine ⟨_, hd, ?_, ?_⟩
  · rw [Bool.eq_false_iff, Ne, (handedOut_cancelled_iff hd _).1]
    decide
  · rw [(handedOut_cancelled_iff hd _).1]
    decide

end BindingToggle
