import BindingToggle.Text.Basic

/-!
# Cursors

A cursor is a place in a text: its offset, and the text from there on. Every movement keeps the two
in step. `Reaches c d` says that `d` lies ahead of `c`, with the characters between them; the lemmas
`reaches_*` say it of each movement, and `Reaches.length_le` that there is never more text ahead
after a movement than before it.

Models the place that the readers of templates and blocks keep in a source, and how they move it:
`skipPast` is `skip_past`, and `find?` is `find_from`.
-/

namespace BindingToggle

/-- A place in a text. -/
structure Cursor where
  offset : Nat
  rest : Text
  deriving DecidableEq, Repr, Inhabited

namespace Cursor

/-- Behind the first `n` characters. -/
def skip (n : Nat) (c : Cursor) : Cursor :=
  ⟨c.offset + Text.width (c.rest.take n), c.rest.drop n⟩

/-- In front of the first character that does not satisfy `p`. -/
def skipWhile (p : Char → Bool) (c : Cursor) : Cursor :=
  ⟨c.offset + Text.width (c.rest.takeWhile p), c.rest.dropWhile p⟩

/-- Behind the first occurrence of a character, or at the end. -/
def skipPast (mark : Char) (c : Cursor) : Cursor := (c.skipWhile (· != mark)).skip 1

/-- At the end of the text. -/
def toEnd (c : Cursor) : Cursor := ⟨c.offset + Text.width c.rest, []⟩

/-- In front of the first occurrence of `needle`. -/
def find? (needle : Text) (c : Cursor) : Option Cursor :=
  (Text.breakOn? needle c.rest).map fun sides => ⟨c.offset + Text.width sides.1, sides.2⟩

/-- In front of the first occurrence of `needle` in any ASCII case. -/
def findFolded? (needle : Text) (c : Cursor) : Option Cursor :=
  (Text.breakOnFolded? needle c.rest).map fun sides => ⟨c.offset + Text.width sides.1, sides.2⟩

/-- The characters up to a cursor ahead. -/
def upTo (c d : Cursor) : Text := c.rest.take (c.rest.length - d.rest.length)

/-- The characters from one cursor up to a cursor ahead of it are `between`. -/
def Between (c : Cursor) (between : Text) (d : Cursor) : Prop :=
  c.rest = between ++ d.rest ∧ d.offset = c.offset + Text.width between

/-- The second cursor lies ahead of the first, in the same text. -/
def Reaches (c d : Cursor) : Prop := ∃ between, c.Between between d

theorem Reaches.refl (c : Cursor) : c.Reaches c := ⟨[], by simp [Between]⟩

theorem Reaches.trans {a b c : Cursor} (hab : a.Reaches b) (hbc : b.Reaches c) : a.Reaches c := by
  obtain ⟨s, hs, hs'⟩ := hab
  obtain ⟨t, ht, ht'⟩ := hbc
  exact ⟨s ++ t, by rw [hs, ht, List.append_assoc], by rw [ht', hs', Text.width_append]; omega⟩

theorem Reaches.length_le {c d : Cursor} (h : c.Reaches d) : d.rest.length ≤ c.rest.length := by
  obtain ⟨between, hb, _⟩ := h
  rw [hb, List.length_append]
  omega

theorem upTo_eq_of_between {c d : Cursor} {between : Text} (h : c.Between between d) :
    c.upTo d = between := by
  unfold upTo
  rw [h.1]
  simp

theorem reaches_skip (n : Nat) (c : Cursor) : c.Reaches (c.skip n) :=
  ⟨c.rest.take n, by simp [Between, skip]⟩

theorem reaches_skipWhile (p : Char → Bool) (c : Cursor) : c.Reaches (c.skipWhile p) :=
  ⟨c.rest.takeWhile p, by simp [Between, skipWhile]⟩

theorem reaches_skipPast (mark : Char) (c : Cursor) : c.Reaches (c.skipPast mark) :=
  (reaches_skipWhile _ c).trans (reaches_skip _ _)

theorem reaches_toEnd (c : Cursor) : c.Reaches c.toEnd := ⟨c.rest, by simp [Between, toEnd]⟩

theorem reaches_of_find? {needle : Text} {c d : Cursor} (h : c.find? needle = some d) :
    c.Reaches d := by
  obtain ⟨⟨before, after⟩, hb, rfl⟩ := Option.map_eq_some_iff.1 h
  exact ⟨before, (Text.append_of_breakAt? hb).symm, rfl⟩

theorem reaches_of_findFolded? {needle : Text} {c d : Cursor} (h : c.findFolded? needle = some d) :
    c.Reaches d := by
  obtain ⟨⟨before, after⟩, hb, rfl⟩ := Option.map_eq_some_iff.1 h
  exact ⟨before, (Text.append_of_breakAt? hb).symm, rfl⟩

/-- Skipping a character leaves less text ahead, unless there was none. -/
theorem length_skip_lt {n : Nat} {c : Cursor} (hn : 0 < n) (hc : c.rest ≠ []) :
    (c.skip n).rest.length < c.rest.length := by
  have := List.length_pos_iff.2 hc
  simp only [skip, List.length_drop]
  omega

end Cursor

end BindingToggle
