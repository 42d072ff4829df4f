import BindingToggle.Edit

/-!
# Edit scripts

A script cuts a text into pieces, each a part that is kept and a part that is replaced. Its edits
are in order and do not overlap, so applying them all replaces exactly these parts.

* `markFrom` — which edits are applied, one step after the other; `foldl_kept_markFrom` says that
  the others make no difference.
* `applied` — the edits that `applyAll` takes into account, in the order in which it does.
* `applied_script`, `applyAll_script` — all edits of a script are applied, and what comes out is
  the text with the parts replaced.
-/

namespace BindingToggle

namespace Edit

/-- Whether an edit is applied to what is left of a text. -/
def Progress.fits (p : Progress) (e : Edit) : Bool := (e.cut? p.done p.rest).isSome

/-- The edits of a list, in the order given, each with whether it is applied. -/
def markFrom (p : Progress) : List Edit → List (Edit × Bool)
  | [] => []
  | e :: es => (e, p.fits e) :: markFrom (p.step e) es

/-- The edits that are marked as kept. -/
def kept (marked : List (Edit × Bool)) : List Edit := (marked.filter (·.2)).map (·.1)

/-- The edits of a list that are applied to a text, in the order of application. -/
def applied (t : Text) (edits : List Edit) : List Edit :=
  kept (markFrom ⟨0, [], t⟩ (edits.mergeSort precedes))

theorem kept_cons (e : Edit) (fits : Bool) (marked : List (Edit × Bool)) :
    kept ((e, fits) :: marked) = if fits then e :: kept marked else kept marked := by
  cases fits <;> rfl

theorem Progress.step_eq_self {p : Progress} {e : Edit} (h : p.fits e = false) : p.step e = p := by
  rw [fits, Option.isSome_eq_false_iff, Option.isNone_iff_eq_none] at h
  rw [step, h]

/-- The edits that are left out make no difference. -/
theorem foldl_kept_markFrom (p : Progress) (edits : List Edit) :
    (kept (markFrom p edits)).foldl Progress.step p = edits.foldl Progress.step p := by
  induction edits generalizing p with
  | nil => rfl
  | cons e es ih =>
    rw [markFrom, kept_cons, List.foldl_cons]
    cases hfits : p.fits e with
    | false =>
      rw [Progress.step_eq_self hfits]
      exact ih p
    | true => exact ih (p.step e)

/-- A part of a text that is kept, the part behind it that is replaced, and what replaces it. -/
structure Piece where
  kept : Text
  removed : Text
  inserted : Text

/-- The text that a script is for. -/
def source : List Piece → Text
  | [] => []
  | p :: ps => p.kept ++ (p.removed ++ source ps)

/-- The text that a script makes of it. -/
def result : List Piece → Text
  | [] => []
  | p :: ps => p.kept ++ (p.inserted ++ result ps)

/-- The edit of a piece that begins at `start`. -/
def Piece.edit (p : Piece) (start : Nat) : Edit :=
  ⟨⟨start + Text.width p.kept, start + Text.width p.kept + Text.width p.removed⟩, p.inserted⟩

/-- The edits of a script that begins at `start`. -/
def script (start : Nat) : List Piece → List Edit
  | [] => []
  | p :: ps => p.edit start :: script (p.edit start).span.stop ps

theorem cut?_piece (p : Piece) (start : Nat) (tail : Text) :
    (p.edit start).cut? start (p.kept ++ (p.removed ++ tail)) = some (p.kept, tail) := by
  have h1 : start + Text.width p.kept - start = Text.width p.kept := by omega
  have h2 : start + Text.width p.kept + Text.width p.removed - (start + Text.width p.kept) =
      Text.width p.removed := by omega
  simp only [cut?, Piece.edit, h1, h2, Text.splitAt?_width_append]
  rw [if_pos (by omega)]

theorem step_piece (p : Piece) (start : Nat) (output tail : Text) :
    (Progress.mk start output (p.kept ++ (p.removed ++ tail))).step (p.edit start) =
      ⟨(p.edit start).span.stop, output ++ p.kept ++ p.inserted, tail⟩ := by
  simp only [Progress.step, cut?_piece]
  rfl

/-- Going through a script puts out its result. -/
theorem finish_script (start : Nat) (output : Text) (ps : List Piece) (tail : Text) :
    ((script start ps).foldl Progress.step ⟨start, output, source ps ++ tail⟩).finish =
      output ++ (result ps ++ tail) := by
  induction ps generalizing start output with
  | nil => rfl
  | cons p ps ih =>
    simp only [source, script, result, List.foldl_cons, List.append_assoc, step_piece]
    rw [ih]
    simp only [List.append_assoc]

theorem kept_markFrom_script (start : Nat) (output : Text) (ps : List Piece) (tail : Text) :
    kept (markFrom ⟨start, output, source ps ++ tail⟩ (script start ps)) = script start ps := by
  induction ps generalizing start output with
  | nil => rfl
  | cons p ps ih =>
    have hfits : (Progress.mk start output (p.kept ++ (p.removed ++ (source ps ++ tail)))).fits
        (p.edit start) = true := by
      rw [Progress.fits, cut?_piece]
      rfl
    simp only [source, script, markFrom, List.append_assoc, hfits, kept_cons, if_true, step_piece,
      ih]

/-- Every edit of a script lies behind its beginning. -/
theorem start_le_of_mem_script {start : Nat} {ps : List Piece} {e : Edit}
    (h : e ∈ script start ps) : start ≤ e.span.start ∧ e.span.start ≤ e.span.stop := by
  induction ps generalizing start with
  | nil => cases h
  | cons p ps ih =>
    simp only [script, List.mem_cons] at h
    rcases h with rfl | h
    · simp only [Piece.edit]
      omega
    · have := ih h
      simp only [Piece.edit] at this
      omega

theorem pairwise_script (start : Nat) (ps : List Piece) :
    (script start ps).Pairwise fun a b => precedes a b := by
  induction ps generalizing start with
  | nil => exact .nil
  | cons p ps ih =>
    refine List.Pairwise.cons (fun e he => ?_) (ih _)
    have := start_le_of_mem_script he
    simp only [precedes, Bool.or_eq_true, Bool.and_eq_true, decide_eq_true_eq, beq_iff_eq]
    simp only [Piece.edit] at this ⊢
    omega

theorem mergeSort_script (start : Nat) (ps : List Piece) :
    (script start ps).mergeSort precedes = script start ps :=
  List.mergeSort_of_pairwise (pairwise_script start ps)

/-- All edits of a script are applied. -/
theorem applied_script (ps : List Piece) (tail : Text) :
    applied (source ps ++ tail) (script 0 ps) = script 0 ps := by
  rw [applied, mergeSort_script, kept_markFrom_script]

/-- **A script replaces what it says.** -/
theorem applyAll_script (ps : List Piece) (tail : Text) :
    applyAll (source ps ++ tail) (script 0 ps) = result ps ++ tail := by
  rw [applyAll, mergeSort_script, finish_script, List.nil_append]

end Edit

end BindingToggle
