import BindingToggle.Span

/-!
# Text edits

An `Edit` replaces a span of a text. `Edit.applyAll` applies a list of edits at once: it goes
through them in the order of their spans, edits of equal span in the order given, and leaves out
every edit that is inverted, out of range, off a character boundary, or begins before the end of
one already applied.

Models `apply_edits`, and the edits that `delete` and `insert` make.
-/

namespace BindingToggle

/-- The replacement of the text of a span. -/
structure Edit where
  span : Span
  newText : Text
  deriving DecidableEq, Repr, Inhabited

namespace Edit

/-- The removal of the text of a span. -/
def delete (span : Span) : Edit := ⟨span, []⟩

/-- The insertion of a text at an offset. -/
def insert (offset : Nat) (newText : Text) : Edit := ⟨Span.caret offset, newText⟩

/-- Edits are applied by increasing start, then by increasing end. -/
def precedes (a b : Edit) : Bool :=
  a.span.start < b.span.start || (a.span.start == b.span.start && a.span.stop ≤ b.span.stop)

/-- Cuts the text that begins at offset `done` into what stands before the edit and what stands
after it, unless the edit does not fit there. -/
def cut? (e : Edit) (done : Nat) (rest : Text) : Option (Text × Text) :=
  if done ≤ e.span.start ∧ e.span.start ≤ e.span.stop then
    match Text.splitAt? (e.span.start - done) rest with
    | none => none
    | some (kept, tail) =>
      match Text.splitAt? (e.span.stop - e.span.start) tail with
      | none => none
      | some (_, after) => some (kept, after)
  else none

/-- An application of edits on its way: what has been put out for the text in front of offset
`done`, and the text from there on. -/
structure Progress where
  done : Nat
  output : Text
  rest : Text
  deriving DecidableEq, Repr, Inhabited

namespace Progress

/-- Puts out the text up to the end of an edit, with the edit made in it. An edit that does not fit
changes nothing. -/
def step (p : Progress) (e : Edit) : Progress :=
  match e.cut? p.done p.rest with
  | none => p
  | some (kept, after) => ⟨e.span.stop, p.output ++ kept ++ e.newText, after⟩

/-- Puts out the rest of the text. -/
def finish (p : Progress) : Text := p.output ++ p.rest

end Progress

/-- Applies a list of edits to a text. -/
def applyAll (t : Text) (edits : List Edit) : Text :=
  ((edits.mergeSort precedes).foldl Progress.step ⟨0, [], t⟩).finish

end Edit

end BindingToggle
