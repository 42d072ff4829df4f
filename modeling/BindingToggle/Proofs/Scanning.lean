import BindingToggle.Text.Cursor

/-!
# Runs of characters

A scanner that reads a run of characters of a class goes on until a character outside of it. The
lemmas below evaluate the movements of a cursor on a text that is given as such a run and what
follows it, and take any text apart in this way (`exists_run`).
-/

namespace BindingToggle

namespace Text

/-- No character of the class `p` stands at the beginning of the text. -/
def Stops (p : Char → Bool) (t : Text) : Prop := ∀ c, t.head? = some c → p c = false

theorem stops_nil (p : Char → Bool) : Stops p [] := by
  intro c hc
  cases hc

theorem stops_cons {p : Char → Bool} {c : Char} {t : Text} : Stops p (c :: t) ↔ p c = false := by
  simp [Stops]

theorem takeWhile_run {p : Char → Bool} {run t : Text} (hr : ∀ c ∈ run, p c = true)
    (ht : Stops p t) : (run ++ t).takeWhile p = run := by
  rw [List.takeWhile_append_of_pos hr]
  cases t with
  | nil => simp
  | cons c t => simp [stops_cons.1 ht]

theorem dropWhile_run {p : Char → Bool} {run t : Text} (hr : ∀ c ∈ run, p c = true)
    (ht : Stops p t) : (run ++ t).dropWhile p = t := by
  rw [List.dropWhile_append_of_pos hr]
  cases t with
  | nil => rfl
  | cons c t => simp [stops_cons.1 ht]

theorem stops_dropWhile (p : Char → Bool) (t : Text) : Stops p (t.dropWhile p) := by
  intro c hc
  have h := List.head?_dropWhile_not p t
  rw [hc] at h
  exact h

/-- Every text is a run of characters of a class, and a text that begins with none of them. -/
theorem exists_run (p : Char → Bool) (t : Text) :
    ∃ run rest, t = run ++ rest ∧ (∀ c ∈ run, p c = true) ∧ Stops p rest :=
  ⟨t.takeWhile p, t.dropWhile p, by simp, List.all_eq_true.1 List.all_takeWhile,
    stops_dropWhile p t⟩

theorem exists_cons_of_head? {p : Char → Bool} {t : Text} (h : t.head?.any p = true) :
    ∃ c u, t = c :: u ∧ p c = true := by
  cases t with
  | nil => cases h
  | cons c u => exact ⟨c, u, rfl, h⟩

/-- A run that ends at a mark, and one that ends with the text. -/
theorem exists_mark (mark : Char) (t : Text) :
    mark ∉ t ∨ ∃ before after, t = before ++ mark :: after ∧ mark ∉ before := by
  obtain ⟨run, rest, rfl, hrun, hrest⟩ := exists_run (· != mark) t
  have hnot : mark ∉ run := fun h => by simpa using hrun mark h
  cases rest with
  | nil => exact .inl (by simpa using hnot)
  | cons c rest =>
    have hc : c = mark := by simpa using stops_cons.1 hrest
    subst hc
    exact .inr ⟨run, rest, rfl, hnot⟩

end Text

namespace Cursor

open Text

theorem skip_run (run t : Text) (offset : Nat) :
    (Cursor.mk offset (run ++ t)).skip run.length = ⟨offset + width run, t⟩ := by
  simp [skip]

theorem skip_one (c : Char) (t : Text) (offset : Nat) :
    (Cursor.mk offset (c :: t)).skip 1 = ⟨offset + c.utf8Size, t⟩ := by
  simp [skip]

theorem skipWhile_run {p : Char → Bool} {run t : Text} (hr : ∀ c ∈ run, p c = true)
    (ht : Stops p t) (offset : Nat) :
    (Cursor.mk offset (run ++ t)).skipWhile p = ⟨offset + width run, t⟩ := by
  simp only [skipWhile, takeWhile_run hr ht, dropWhile_run hr ht]

theorem skipPast_mark {mark : Char} {before : Text} (hb : mark ∉ before) (t : Text)
    (offset : Nat) :
    (Cursor.mk offset (before ++ mark :: t)).skipPast mark =
      ⟨offset + width before + mark.utf8Size, t⟩ := by
  have hrun : ∀ c ∈ before, (c != mark) = true := by
    intro c hc
    simp only [bne_iff_ne]
    rintro rfl
    exact hb hc
  rw [skipPast, skipWhile_run hrun (stops_cons.2 (by simp)), skip_one]

end Cursor

end BindingToggle
