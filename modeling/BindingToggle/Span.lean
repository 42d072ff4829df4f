import BindingToggle.Text.Basic

/-!
# Spans and anchors

A `Span` is a pair of byte offsets, read as the interval from `start` up to `stop`. Nothing forces
`start ≤ stop`: a span handed in from outside may be inverted, and every operation says what it
does with one.

An `Anchor` is the offset at which an embedded text begins inside its document. It is the only
link between the two coordinate systems: `toDocument` shifts a span to the right and `toLocal?`
shifts it back, when the span does not reach before the anchor (`toLocal?_eq_some_iff`).

Models `Span` and `Anchor` with their methods: `isDisjoint` is `is_disjoint`, `shift` is
`offset_by`, and `toDocument` and `toLocal?` are `to_document` and `to_template`.
-/

namespace BindingToggle

/-- A half-open interval of byte offsets. -/
structure Span where
  start : Nat
  stop : Nat
  deriving DecidableEq, Repr, Inhabited

namespace Span

/-- The empty span at an offset. -/
def caret (offset : Nat) : Span := ⟨offset, offset⟩

/-- The number of bytes between the ends, none when the span is inverted. -/
def length (s : Span) : Nat := s.stop - s.start

def isEmpty (s : Span) : Bool := s.stop ≤ s.start

def isInverted (s : Span) : Bool := s.stop < s.start

/-- Whether `inner` lies between the ends of `outer`, ends included. -/
def contains (outer inner : Span) : Bool := outer.start ≤ inner.start && inner.stop ≤ outer.stop

/-- Whether `other` ends before `s` starts or starts after `s` ends. Spans that touch are not
disjoint. -/
def isDisjoint (s other : Span) : Bool := other.stop < s.start || s.stop < other.start

/-- The span moved to the right. -/
def shift (delta : Nat) (s : Span) : Span := ⟨s.start + delta, s.stop + delta⟩

/-- The characters of a text between the ends of a span. -/
def slice? (s : Span) (t : Text) : Option Text := Text.slice? t s.start s.stop

@[simp] theorem shift_zero (s : Span) : s.shift 0 = s := rfl

theorem shift_shift (a b : Nat) (s : Span) : (s.shift a).shift b = s.shift (a + b) := by
  simp [shift, Nat.add_assoc]

end Span

/-- The offset in a document at which an embedded text begins. -/
structure Anchor where
  offset : Nat
  deriving DecidableEq, Repr, Inhabited

namespace Anchor

/-- The document span of a span of the embedded text. -/
def toDocument (a : Anchor) (s : Span) : Span := s.shift a.offset

/-- The span of the embedded text at a document span, unless an end lies before the anchor. -/
def toLocal? (a : Anchor) (s : Span) : Option Span :=
  if a.offset ≤ s.start ∧ a.offset ≤ s.stop then some ⟨s.start - a.offset, s.stop - a.offset⟩
  else none

/-- Going back to the embedded text undoes going to the document, and nothing else does. -/
theorem toLocal?_eq_some_iff {a : Anchor} {outer inner : Span} :
    a.toLocal? outer = some inner ↔ outer = a.toDocument inner := by
  obtain ⟨s, e⟩ := outer
  obtain ⟨s', e'⟩ := inner
  simp only [toLocal?, toDocument, Span.shift, Span.mk.injEq]
  split
  · simp only [Option.some.injEq, Span.mk.injEq]
    omega
  · simp only [reduceCtorEq, false_iff]
    omega

end Anchor

end BindingToggle
