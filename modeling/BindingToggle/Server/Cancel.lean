/-!
# Cancellation

Work that has become useless is called off through flags. A handle names a flag; handles can be
given away and copied, and all handles of one flag see the same state. A flag that is raised stays
raised.

Models `CancelToken`: `fresh`, `cancel` and `isCancelled` are `new`, `cancel` and `is_cancelled`.
-/

namespace BindingToggle

/-- A name for one cancellation flag. -/
structure CancelHandle where
  index : Nat
  deriving DecidableEq, Repr, Inhabited

/-- The state of all cancellation flags that were made. -/
structure CancelFlags where
  raised : List Bool
  deriving DecidableEq, Repr, Inhabited

namespace CancelFlags

def empty : CancelFlags := ⟨[]⟩

/-- A new flag, not raised. -/
def fresh (f : CancelFlags) : CancelHandle × CancelFlags :=
  (⟨f.raised.length⟩, ⟨f.raised ++ [false]⟩)

/-- Raises a flag. -/
def cancel (f : CancelFlags) (h : CancelHandle) : CancelFlags := ⟨f.raised.set h.index true⟩

/-- Whether a flag is raised. -/
def isCancelled (f : CancelFlags) (h : CancelHandle) : Bool := f.raised.getD h.index false

/-- Raising a flag raises it, if it was made, and changes no other. -/
theorem isCancelled_cancel (f : CancelFlags) (h k : CancelHandle) :
    (f.cancel h).isCancelled k =
      ((h = k ∧ k.index < f.raised.length) || f.isCancelled k) := by
  obtain ⟨i⟩ := h
  obtain ⟨j⟩ := k
  simp only [cancel, isCancelled, List.getD_eq_getElem?_getD, List.getElem?_set,
    CancelHandle.mk.injEq]
  grind

/-- Making a flag raises none: what a handle sees does not change, whether its flag was made before
or not. -/
theorem isCancelled_fresh (f : CancelFlags) (k : CancelHandle) :
    f.fresh.2.isCancelled k = f.isCancelled k := by
  simp only [fresh, isCancelled, List.getD_eq_getElem?_getD]
  grind

end CancelFlags

end BindingToggle
