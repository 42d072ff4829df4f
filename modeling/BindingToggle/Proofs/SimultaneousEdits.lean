import BindingToggle.Proofs.EditScript
import BindingToggle.Proofs.Slices
import Mathlib.Data.List.Nodup

/-!
# Edits at once and one by one

A list of edits is applied in one pass over the text, and some of them are left out on the way. What
comes out is the same as replacing the spans of the others one by one, from the last to the first,
so that no replacement moves a span that is still to come. An edit that is left out does not fit the
text, or begins inside of one that is kept.

* `mergeSort_cons_of_split` — sorting is stable; so it commutes with leaving elements out
  (`filter_mergeSort`) and with marking them (`exists_mergeSort_eq`).
* `exists_script` — the edits that are applied are a script on the text, whatever was given.
* `replace?`, `foldrM_replace?_script` — the replacement of one span, and of those of a script from
  the last to the first.
* `Marks` — which edits of a list are kept, and why the others are not.
* `applyAll_simultaneous` — applying a list of edits replaces the spans of those that are kept, and
  the order of the list does not matter when the spans differ.
-/

namespace BindingToggle

/-! ## Stable sorting -/

section Stable

variable {α β : Type} {le : α → α → Bool}

/-- Where an element comes in that is put in front of a list: behind everything that is strictly
less. -/
theorem exists_split_mergeSort_cons (trans : ∀ a b c, le a b → le b c → le a c)
    (total : ∀ a b, le a b || le b a) (a : α) (l : List α) :
    ∃ less rest, (a :: l).mergeSort le = less ++ a :: rest ∧ l.mergeSort le = less ++ rest ∧
      (∀ b ∈ less, le a b = false) ∧ ∀ b ∈ rest, le a b = true := by
  obtain ⟨less, rest, hsort, htail, hless⟩ := List.mergeSort_cons trans total a l
  have hpairs := List.pairwise_mergeSort trans total (a :: l)
  rw [hsort] at hpairs
  refine ⟨less, rest, hsort, htail, fun b hb => by simpa using hless b hb, ?_⟩
  intro b hb
  exact List.rel_of_pairwise_cons (List.pairwise_append.1 hpairs).2.1 hb

/-- The place where an element comes in is the only one of its kind. -/
theorem mergeSort_cons_of_split (trans : ∀ a b c, le a b → le b c → le a c)
    (total : ∀ a b, le a b || le b a) {a : α} {l less rest : List α}
    (h : l.mergeSort le = less ++ rest) (hless : ∀ b ∈ less, le a b = false)
    (hrest : ∀ b ∈ rest, le a b = true) : (a :: l).mergeSort le = less ++ a :: rest := by
  obtain ⟨less', rest', hsort, htail, hless', hrest'⟩ := exists_split_mergeSort_cons trans total a l
  rw [htail] at h
  -- an element between the two places would be strictly less than `a`, and not less
  rcases List.append_eq_append_iff.1 h with ⟨between, rfl, rfl⟩ | ⟨between, rfl, rfl⟩
  · have hnone : between = [] := by
      refine List.eq_nil_iff_forall_not_mem.2 fun b hb => ?_
      have hfalse := hless b (by simp [hb])
      rw [hrest' b (by simp [hb])] at hfalse
      cases hfalse
    simp [hsort, hnone]
  · have hnone : between = [] := by
      refine List.eq_nil_iff_forall_not_mem.2 fun b hb => ?_
      have hfalse := hless' b (by simp [hb])
      rw [hrest b (by simp [hb])] at hfalse
      cases hfalse
    simp [hsort, hnone]

/-- Leaving elements out does not change the order of the others. -/
theorem filter_mergeSort (trans : ∀ a b c, le a b → le b c → le a c)
    (total : ∀ a b, le a b || le b a) (p : α → Bool) (l : List α) :
    (l.mergeSort le).filter p = (l.filter p).mergeSort le := by
  induction l with
  | nil => simp
  | cons a l ih =>
    obtain ⟨less, rest, hsort, htail, hless, hrest⟩ := exists_split_mergeSort_cons trans total a l
    rw [htail, List.filter_append] at ih
    cases hp : p a with
    | false => simp [hsort, hp, ← ih]
    | true =>
      have hcons := mergeSort_cons_of_split trans total (a := a) ih.symm
        (fun b hb => hless b (List.mem_of_mem_filter hb))
        (fun b hb => hrest b (List.mem_of_mem_filter hb))
      simp [hsort, hp, hcons]

/-- Marks on the elements of a sorted list are marks on the list. -/
theorem exists_mergeSort_eq (trans : ∀ a b c, le a b → le b c → le a c)
    (total : ∀ a b, le a b || le b a) {l : List α} {sorted : List (α × β)}
    (h : sorted.map (·.1) = l.mergeSort le) :
    ∃ marked : List (α × β), marked.map (·.1) = l ∧
      marked.mergeSort (fun a b => le a.1 b.1) = sorted := by
  induction l generalizing sorted with
  | nil =>
    refine ⟨[], rfl, ?_⟩
    rw [List.mergeSort_nil, List.map_eq_nil_iff] at h
    rw [h, List.mergeSort_nil]
  | cons a l ih =>
    obtain ⟨less, rest, hsort, htail, hless, hrest⟩ := exists_split_mergeSort_cons trans total a l
    rw [hsort] at h
    obtain ⟨before, behind, rfl, rfl, hbehind⟩ := List.map_eq_append_iff.1 h
    obtain ⟨⟨_, mark⟩, after, rfl, rfl, rfl⟩ := List.map_eq_cons_iff.1 hbehind
    have hothers : (before ++ after).map (·.1) = l.mergeSort le := by rw [htail, List.map_append]
    obtain ⟨marked, rfl, hmarked⟩ := ih hothers
    refine ⟨(_, mark) :: marked, rfl, ?_⟩
    refine mergeSort_cons_of_split (fun a b c => trans a.1 b.1 c.1) (fun a b => total a.1 b.1)
      hmarked ?_ ?_
    · intro b hb
      exact hless b.1 (List.mem_map_of_mem hb)
    · intro b hb
      exact hrest b.1 (List.mem_map_of_mem hb)

end Stable

namespace Edit

open Text

/-! ## The order of application -/

theorem precedes_iff {a b : Edit} :
    precedes a b = true ↔ a.span.start < b.span.start ∨
      a.span.start = b.span.start ∧ a.span.stop ≤ b.span.stop := by
  simp [precedes]

theorem precedes_trans (a b c : Edit) (hab : precedes a b) (hbc : precedes b c) :
    precedes a c := by
  rw [precedes_iff] at *
  omega

theorem precedes_total (a b : Edit) : precedes a b || precedes b a := by
  rw [Bool.or_eq_true, precedes_iff, precedes_iff]
  omega

/-- Edits of different spans have only one order. -/
theorem mergeSort_eq_of_perm {edits permuted : List Edit} (h : edits.Perm permuted)
    (hspans : (edits.map (·.span)).Nodup) :
    permuted.mergeSort precedes = edits.mergeSort precedes := by
  refine List.Perm.eq_of_pairwise ?_
    (List.pairwise_mergeSort precedes_trans precedes_total permuted)
    (List.pairwise_mergeSort precedes_trans precedes_total edits)
    (((List.mergeSort_perm permuted _).trans h.symm).trans (List.mergeSort_perm edits _).symm)
  intro a b ha hb hab hba
  rw [List.mem_mergeSort] at ha hb
  refine List.inj_on_of_nodup_map hspans (h.mem_iff.2 ha) hb ?_
  rw [precedes_iff] at hab hba
  obtain ⟨⟨start, stop⟩, _⟩ := a
  obtain ⟨⟨start', stop'⟩, _⟩ := b
  simp only [Span.mk.injEq] at *
  omega

/-! ## Edits that are applied -/

theorem Piece.stop_edit (p : Piece) (front : Text) :
    (p.edit (width front)).span.stop = width (front ++ (p.kept ++ p.removed)) := by
  simp only [Piece.edit, width_append, Nat.add_assoc]

/-- An edit that fits behind `front` is that of a piece of the rest. -/
theorem exists_piece {front rest : Text} {e : Edit} (hstart : width front ≤ e.span.start)
    (h : e.span.Within (front ++ rest)) :
    ∃ (p : Piece) (tail : Text), rest = p.kept ++ (p.removed ++ tail) ∧
      e = p.edit (width front) := by
  obtain ⟨kept, behind, rfl, hkept⟩ := exists_append_of_le rfl h.first hstart
  have hordered := h.ordered
  obtain ⟨removed, tail, rfl, hremoved⟩ :=
    exists_append_of_le (x := front ++ kept) (List.append_assoc ..).symm h.last
      (by rw [width_append]; omega)
  refine ⟨⟨kept, removed, e.newText⟩, tail, rfl, ?_⟩
  rw [width_append, hkept] at hremoved
  rw [Piece.edit, hkept, hremoved]

/-- An edit that is cut out is that of a piece. -/
theorem exists_piece_of_cut? {front rest kept tail : Text} {e : Edit}
    (h : e.cut? (width front) rest = some (kept, tail)) :
    ∃ removed, rest = kept ++ (removed ++ tail) ∧
      e = (Piece.mk kept removed e.newText).edit (width front) := by
  unfold cut? at h
  split at h
  · rename_i hle
    split at h
    · cases h
    · rename_i before behind hbefore
      split at h
      · cases h
      · rename_i removed after hafter
        cases h
        obtain ⟨rfl, hkept⟩ := append_of_splitAt? hbefore
        obtain ⟨rfl, hremoved⟩ := append_of_splitAt? hafter
        refine ⟨removed, rfl, ?_⟩
        obtain ⟨⟨start, stop⟩, newText⟩ := e
        simp only [Piece.edit, Edit.mk.injEq, Span.mk.injEq, and_true] at *
        omega
  · cases h

/-- An edit that is not cut out begins too early, or does not fit. -/
theorem of_cut?_eq_none {front rest : Text} {e : Edit} (h : e.cut? (width front) rest = none) :
    e.span.start < width front ∨ ¬ e.span.Within (front ++ rest) := by
  by_contra hfits
  rw [not_or, Nat.not_lt, not_not] at hfits
  obtain ⟨p, tail, rfl, rfl⟩ := exists_piece hfits.1 hfits.2
  rw [cut?_piece] at h
  cases h

/-- An edit that fits is that of a piece, and goes behind it. -/
theorem exists_piece_of_fits {front output rest : Text} {e : Edit}
    (h : Progress.fits ⟨width front, output, rest⟩ e = true) :
    ∃ (p : Piece) (tail output' : Text), rest = p.kept ++ (p.removed ++ tail) ∧
      e = p.edit (width front) ∧
      Progress.step ⟨width front, output, rest⟩ e =
        ⟨width (front ++ (p.kept ++ p.removed)), output', tail⟩ := by
  obtain ⟨⟨kept, tail⟩, hcut⟩ := Option.isSome_iff_exists.1 h
  obtain ⟨removed, rfl, he⟩ := exists_piece_of_cut? hcut
  rw [he]
  refine ⟨⟨kept, removed, e.newText⟩, tail, output ++ kept ++ e.newText, rfl, rfl, ?_⟩
  rw [← Piece.stop_edit]
  exact step_piece _ _ _ _

/-- **The edits that are applied are a script**, for the text behind `front`. -/
theorem exists_script (front output rest : Text) (edits : List Edit) :
    ∃ ps tail, rest = source ps ++ tail ∧
      kept (markFrom ⟨width front, output, rest⟩ edits) = script (width front) ps := by
  induction edits generalizing front output rest with
  | nil => exact ⟨[], rest, rfl, rfl⟩
  | cons e es ih =>
    rw [markFrom, kept_cons]
    cases hfits : Progress.fits ⟨width front, output, rest⟩ e with
    | false =>
      rw [Progress.step_eq_self hfits]
      exact ih front output rest
    | true =>
      obtain ⟨p, after, output', rfl, rfl, hstep⟩ := exists_piece_of_fits hfits
      rw [hstep]
      obtain ⟨ps, tail, rfl, hkept⟩ := ih (front ++ (p.kept ++ p.removed)) output' after
      refine ⟨p :: ps, tail, by simp [source], ?_⟩
      rw [if_pos rfl, script, p.stop_edit, hkept]

theorem within_of_mem_script {front tail : Text} {ps : List Piece} {e : Edit}
    (h : e ∈ script (width front) ps) : e.span.Within (front ++ (source ps ++ tail)) := by
  induction ps generalizing front with
  | nil => cases h
  | cons p ps ih =>
    simp only [script, List.mem_cons] at h
    rcases h with rfl | h
    · refine Span.within_of_slice? (t := p.removed) (slice?_eq_some (x := front ++ p.kept)
        (z := source ps ++ tail) ?_ ?_ ?_)
      · simp only [source, List.append_assoc]
      · simp only [Piece.edit, width_append]
      · simp only [Piece.edit, width_append]
    · rw [p.stop_edit] at h
      have hwithin := ih h
      simpa only [source, List.append_assoc] using hwithin

/-- The edits of a script stand one behind the other. -/
theorem pairwise_precedes_script (start : Nat) (ps : List Piece) :
    (script start ps).Pairwise fun a b => a.span.Precedes b.span := by
  induction ps generalizing start with
  | nil => exact .nil
  | cons p ps ih =>
    refine List.Pairwise.cons ?_ (ih _)
    intro e he
    exact (start_le_of_mem_script he).1

/-! ## One replacement after the other -/

/-- Replaces the text of one span, if it is one of the text. -/
def replace? (e : Edit) (t : Text) : Option Text :=
  if e.span.start ≤ e.span.stop then
    match splitAt? e.span.start t, splitAt? e.span.stop t with
    | some (before, _), some (_, after) => some (before ++ (e.newText ++ after))
    | _, _ => none
  else none

theorem replace?_piece (p : Piece) (front tail : Text) :
    (p.edit (width front)).replace? (front ++ (p.kept ++ (p.removed ++ tail))) =
      some (front ++ (p.kept ++ (p.inserted ++ tail))) := by
  have hbefore : splitAt? (width front + width p.kept)
      (front ++ (p.kept ++ (p.removed ++ tail))) = some (front ++ p.kept, p.removed ++ tail) := by
    rw [splitAt?_eq_some_iff]
    simp
  have hafter : splitAt? (width front + width p.kept + width p.removed)
      (front ++ (p.kept ++ (p.removed ++ tail))) =
        some (front ++ (p.kept ++ p.removed), tail) := by
    rw [splitAt?_eq_some_iff]
    simp [Nat.add_assoc]
  simp only [replace?, Piece.edit, hbefore, hafter, Nat.le_add_right, if_true, List.append_assoc]

/-- Replacing the spans of a script from the last to the first makes of the text what the script
does. -/
theorem foldrM_replace?_script (front tail : Text) (ps : List Piece) :
    (script (width front) ps).foldrM replace? (front ++ (source ps ++ tail)) =
      some (front ++ (result ps ++ tail)) := by
  induction ps generalizing front with
  | nil => rfl
  | cons p ps ih =>
    have hbehind := ih (front ++ (p.kept ++ p.removed))
    simp only [List.append_assoc] at hbehind
    simp only [script, p.stop_edit, source, result, List.append_assoc, List.foldrM_cons, hbehind,
      Option.bind_eq_bind, Option.bind_some, replace?_piece]

/-! ## Edits that are left out -/

/-- Marked edits in the order in which edits are applied. -/
def inOrder (marked : List (Edit × Bool)) : List (Edit × Bool) :=
  marked.mergeSort fun a b => precedes a.1 b.1

theorem map_markFrom (p : Progress) (edits : List Edit) :
    (markFrom p edits).map (·.1) = edits := by
  induction edits generalizing p with
  | nil => rfl
  | cons e es ih => rw [markFrom, List.map_cons, ih]

/-- An edit that is left out begins too early, or does not fit, or begins inside of one that is
applied before. -/
theorem of_markFrom {front output rest : Text} {edits : List Edit}
    {before after : List (Edit × Bool)} {e : Edit}
    (h : markFrom ⟨width front, output, rest⟩ edits = before ++ (e, false) :: after) :
    e.span.start < width front ∨ ¬ e.span.Within (front ++ rest) ∨
      ∃ d, (d, true) ∈ before ∧ e.span.start < d.span.stop := by
  induction edits generalizing front output rest before with
  | nil => simp [markFrom] at h
  | cons d es ih =>
    rw [markFrom] at h
    cases hfits : Progress.fits ⟨width front, output, rest⟩ d with
    | false =>
      rw [Progress.step_eq_self hfits, hfits] at h
      rcases List.cons_eq_append_iff.1 h with ⟨rfl, he⟩ | ⟨before, rfl, hes⟩
      · cases he
        have hcut := Option.isNone_iff_eq_none.1 (Option.isSome_eq_false_iff.1 hfits)
        exact (of_cut?_eq_none hcut).imp_right .inl
      · rcases ih hes with hstart | hwithin | ⟨d, hd, hlt⟩
        · exact .inl hstart
        · exact .inr (.inl hwithin)
        · exact .inr (.inr ⟨d, List.mem_cons_of_mem _ hd, hlt⟩)
    | true =>
      rw [hfits] at h
      rcases List.cons_eq_append_iff.1 h with ⟨rfl, he⟩ | ⟨before, rfl, hes⟩
      · cases he
      · obtain ⟨p, tail, output', rfl, rfl, hstep⟩ := exists_piece_of_fits hfits
        rw [hstep] at hes
        -- too early for what stands behind the piece is inside of it
        rcases ih hes with hstart | hwithin | ⟨d', hd', hlt⟩
        · exact .inr (.inr ⟨_, List.mem_cons_self, by rw [p.stop_edit]; exact hstart⟩)
        · exact .inr (.inl (by simpa only [List.append_assoc] using hwithin))
        · exact .inr (.inr ⟨d', List.mem_cons_of_mem _ hd', hlt⟩)

/-- The marks say which edits of a list are kept when it is applied to `t`. -/
structure Marks (t : Text) (edits : List Edit) (marked : List (Edit × Bool)) : Prop where
  edits_eq : marked.map (·.1) = edits
  /-- Every edit that is kept is one of the text. -/
  within : ∀ e ∈ kept marked, e.span.Within t
  /-- In order, every edit that is kept ends before the next one begins, or where it does. -/
  apart : ((kept marked).mergeSort precedes).Pairwise fun a b => a.span.Precedes b.span
  /-- An edit that is left out is not one of the text, or begins before the end of a kept edit that
  comes before it in the order. -/
  leftOut : ∀ before e after, inOrder marked = before ++ (e, false) :: after →
    ¬ e.span.Within t ∨ ∃ d, (d, true) ∈ before ∧ e.span.start < d.span.stop

theorem kept_sublist (marked : List (Edit × Bool)) :
    (kept marked).Sublist (marked.map (·.1)) := List.filter_sublist.map _

theorem mergeSort_kept (marked : List (Edit × Bool)) :
    (kept marked).mergeSort precedes = kept (inOrder marked) := by
  rw [kept, inOrder, kept, filter_mergeSort (fun a b c => precedes_trans a.1 b.1 c.1)
    (fun a b => precedes_total a.1 b.1)]
  exact (List.map_mergeSort (r := fun a b : Edit × Bool => precedes a.1 b.1)
    fun _ _ _ _ => rfl).symm

/-- The edits of every list can be marked, and those kept are the ones that are applied. -/
theorem exists_marks (t : Text) (edits : List Edit) :
    ∃ marked, Marks t edits marked ∧ (kept marked).mergeSort precedes = applied t edits := by
  obtain ⟨marked, hedits, horder⟩ := exists_mergeSort_eq precedes_trans precedes_total
    (map_markFrom ⟨0, [], t⟩ (edits.mergeSort precedes))
  have hkept : (kept marked).mergeSort precedes = applied t edits := by
    rw [mergeSort_kept, inOrder, horder, applied]
  obtain ⟨ps, tail, ht, hscript⟩ := exists_script [] [] t (edits.mergeSort precedes)
  rw [width_nil] at hscript
  rw [applied, hscript] at hkept
  refine ⟨marked, ⟨hedits, ?_, ?_, ?_⟩, by rw [applied, hscript]; exact hkept⟩
  · intro e he
    have hmem : e ∈ script (width []) ps := by
      rw [width_nil, ← hkept]
      exact List.mem_mergeSort.2 he
    have hwithin : e.span.Within ([] ++ (source ps ++ tail)) := within_of_mem_script hmem
    rw [ht]
    exact hwithin
  · rw [hkept]
    exact pairwise_precedes_script 0 ps
  · intro before e after hsplit
    rw [inOrder, horder, ← width_nil] at hsplit
    rcases of_markFrom hsplit with hstart | hwithin | hearlier
    · exact absurd hstart (Nat.not_lt_zero _)
    · exact .inl hwithin
    · exact .inr hearlier

theorem foldrM_replace?_applied (t : Text) (edits : List Edit) :
    (applied t edits).foldrM replace? t = some (applyAll t edits) := by
  obtain ⟨ps, tail, rfl, hscript⟩ := exists_script [] [] t (edits.mergeSort precedes)
  rw [width_nil] at hscript
  rw [applyAll, ← foldl_kept_markFrom, applied, hscript, finish_script]
  exact foldrM_replace?_script [] tail ps

/-- **Edits are applied at once.** Of every list of edits some are kept, and applying the list is
applying these, which is the same as replacing their spans one by one from the last to the first.
Every order of edits with different spans gives the same text. -/
theorem applyAll_simultaneous (t : Text) (edits : List Edit) :
    (∃ marked, Marks t edits marked ∧ (kept marked).Sublist edits ∧
      applyAll t edits = applyAll t (kept marked) ∧
      ((kept marked).mergeSort precedes).foldrM replace? t = some (applyAll t (kept marked))) ∧
    ∀ permuted : List Edit, edits.Perm permuted → (edits.map (·.span)).Nodup →
      applyAll t permuted = applyAll t edits := by
  constructor
  · obtain ⟨marked, hmarks, hkept⟩ := exists_marks t edits
    have hsame : applyAll t edits = applyAll t (kept marked) := by
      rw [applyAll, applyAll, hkept, applied, foldl_kept_markFrom]
    refine ⟨marked, hmarks, ?_, hsame, ?_⟩
    · have hsublist := kept_sublist marked
      rw [hmarks.edits_eq] at hsublist
      exact hsublist
    · rw [hkept, ← hsame]
      exact foldrM_replace?_applied t edits
  · intro permuted hperm hspans
    rw [applyAll, applyAll, mergeSort_eq_of_perm hperm hspans]

/-- Insertions at both ends of a deletion, among edits that begin inside of it and inside of a
character, lie behind the end of the text, or are inverted. -/
theorem applyAll_simultaneous_mixed :
    let t : Text := "aéb".toList
    let edits : List Edit := [insert 3 ['y'], delete ⟨1, 3⟩, insert 2 ['x'], insert 9 ['z'],
      delete ⟨4, 3⟩, insert 1 ['q']]
    applyAll t edits = "aqyb".toList ∧ applyAll t edits.reverse = applyAll t edits ∧
      ∃ marked, Marks t edits marked ∧ applyAll t edits = applyAll t (kept marked) := by
  intro t edits
  obtain ⟨⟨marked, hmarks, -, hsame, -⟩, hperm⟩ := applyAll_simultaneous t edits
  have hspans : (edits.map (·.span)).Nodup := by decide
  refine ⟨?_, hperm _ edits.reverse_perm.symm hspans, marked, hmarks, hsame⟩
  rw [← hperm [insert 1 ['q'], delete ⟨1, 3⟩, insert 2 ['x'], insert 3 ['y'], delete ⟨4, 3⟩,
    insert 9 ['z']] (by decide) hspans, applyAll, List.mergeSort_of_pairwise (by decide)]
  decide +kernel

end Edit

end BindingToggle
