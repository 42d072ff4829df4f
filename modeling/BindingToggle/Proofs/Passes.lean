import BindingToggle.Proofs.Building
import BindingToggle.Proofs.Lookahead
import BindingToggle.Proofs.Searching

/-!
# Reading up to a place

`Passes c es d` says that reading from `c` comes to `d`, with the events `es` on the way.

* `Passes.events_eq` — the events from `c` on are those on the way and those from `d` on.
* `Passes.congr` — reading comes to the start tag of an element in the same way, whatever stands
  behind the name of the tag.
* `exists_passes_of_head` — reading comes to every start tag; `exists_passes_of_mem` says so of the
  attributes.
-/

namespace BindingToggle

namespace Markup

open Text

/-- Reading from one cursor comes to another, with these events on the way. -/
inductive Passes : Cursor → List Event → Cursor → Prop
  | refl (c : Cursor) : Passes c [] c
  | step {c d : Cursor} {es : List Event} (hc : c.rest ≠ []) (h : Passes (piece c).2 es d) :
      Passes c ((piece c).1 ++ es) d

theorem reaches_passage (n : Nat) (close : Text) (problem : Problem) (c : Cursor) :
    c.Reaches (passage n close problem c).2 := by
  unfold passage
  split
  · rename_i found hf
    exact (Cursor.reaches_skip n c).trans
      ((Cursor.reaches_of_find? hf).trans (Cursor.reaches_skip _ _))
  · exact Cursor.reaches_toEnd c

theorem reaches_piece (c : Cursor) : c.Reaches (piece c).2 := by
  have hpast := (Cursor.reaches_skip 2 c).trans (Cursor.reaches_skipPast '>' _)
  rw [piece_eq]
  split
  · exact reaches_passage _ _ _ c
  · exact reaches_passage _ _ _ c
  · exact hpast
  · exact hpast
  · exact (Cursor.reaches_skip 1 c).trans (reaches_startTag c)
  · exact (Cursor.reaches_skip 1 c).trans (Cursor.reaches_skipWhile _ _)

theorem events_of_ne_nil {c : Cursor} (hc : c.rest ≠ []) :
    events c = (piece c).1 ++ events (piece c).2 := by
  rw [events, dif_neg hc]

namespace Passes

theorem reaches {c d : Cursor} {es : List Event} (h : Passes c es d) : c.Reaches d := by
  induction h with
  | refl c => exact Cursor.Reaches.refl c
  | step _ _ ih => exact (reaches_piece _).trans ih

theorem events_eq {c d : Cursor} {es : List Event} (h : Passes c es d) :
    events c = es ++ events d := by
  induction h with
  | refl c => rfl
  | step hc _ ih => rw [events_of_ne_nil hc, ih, List.append_assoc]

end Passes

/-! ## Raw text -/

/-- A text that begins with a closing tag of the name `tag`, in any case. -/
theorem exists_name_of_startsWithFolded {tag t : Text} (ht : ∀ c ∈ tag, isTagPart c = true)
    (h : startsWithFolded ('<' :: '/' :: tag) t = true) :
    ∃ name rest, t = '<' :: '/' :: (name ++ rest) ∧ name.length = tag.length ∧ '>' ∉ name := by
  obtain ⟨spelling, rest, rfl, hfold⟩ := startsWithFolded_iff.1 h
  rcases spelling with _ | ⟨a, _ | ⟨b, name⟩⟩
  · simp at hfold
  · simp at hfold
  simp only [lower_cons, List.cons.injEq] at hfold
  obtain ⟨ha, hb, hname⟩ := hfold
  obtain rfl : a = '<' := eq_of_toLower_eq (by decide) ha
  obtain rfl : b = '/' := eq_of_toLower_eq (by decide) hb
  refine ⟨name, rest, rfl, by simpa using congrArg List.length hname, ?_⟩
  intro hmem
  exact absurd (ht _ (mem_of_lower_eq (by decide) (by decide) hname hmem)) (by decide)

/-- The piece that opens an element is its start tag. -/
theorem markOf_of_opening {c : Cursor} {tag : Text} {start : Nat} {attributes : List Attribute}
    (h : Event.opening tag start attributes ∈ (piece c).1) : markOf c.rest = .start := by
  rw [piece_eq] at h
  cases hm : markOf c.rest <;> simp only [hm] at h
  case start => rfl
  case closing => simp [closingTag] at h
  case declaration => cases h
  case text => cases h
  all_goals
    unfold passage at h
    split at h <;> simp at h

/-- Behind a start tag with raw text stands its closing tag. -/
theorem startsWithFolded_of_opening {c : Cursor} {tag : Text} {start : Nat}
    {attributes : List Attribute} (h : Event.opening tag start attributes ∈ (piece c).1)
    (hraw : isRawText tag = true) (hne : (piece c).2.rest ≠ []) :
    (∀ ch ∈ tag, isTagPart ch = true) ∧
      startsWithFolded ('<' :: '/' :: tag) (piece c).2.rest = true := by
  have hm := markOf_of_opening h
  have hpiece : piece c = startTag c := by rw [piece_eq, hm]
  rw [hpiece] at h hne ⊢
  obtain ⟨first, u, hu, -⟩ := cons_of_markOf_start hm
  obtain ⟨offset, t⟩ := c
  obtain ⟨name, f, rest, ht, hname, hstop, hf⟩ := exists_startTag (first :: u)
  simp only at hu
  rw [hu, ht, startTag_form hname hstop hf] at h hne ⊢
  unfold TagBody.events at h hne ⊢
  simp only [TagForm.body] at h hne ⊢
  cases he : f.ending <;> simp only [he] at h hne ⊢
  case missing => simp at h
  case selfClosing => simp at h
  case complete =>
    split at h
    · simp at h
    · rename_i hvoid
      simp only [List.mem_append, List.mem_map, reduceCtorEq, and_false, exists_false,
        List.mem_singleton, Event.opening.injEq, false_or] at h
      obtain ⟨rfl, -, -⟩ := h
      simp only [hvoid, hraw, Bool.false_eq_true, if_false, if_true] at hne ⊢
      refine ⟨hname, ?_⟩
      unfold skipRawText Cursor.findFolded? at hne ⊢
      cases hb : breakOnFolded? ('<' :: '/' :: tag) rest with
      | none => simp [hb, Cursor.toEnd] at hne
      | some sides => simpa [hb] using holds_of_breakAt? hb

namespace Passes

/-- What has been read in front of the closing tag of raw text reaches as far as its name does. -/
theorem length_closing {c d : Cursor} {es : List Event} {name rest between : Text}
    (h : Passes c es d) (hc : c.rest = '<' :: '/' :: (name ++ rest)) (hn : '>' ∉ name)
    (hd : markOf d.rest = .start) (hb : c.rest = between ++ d.rest) :
    name.length + 2 ≤ between.length := by
  cases h with
  | refl c =>
    rw [hc] at hd
    cases hd
  | step hne h =>
    have hpiece : piece c = closingTag c := by rw [piece_eq, hc]; rfl
    obtain ⟨first, u, hd', -⟩ := cons_of_markOf_start hd
    obtain ⟨behind, hbehind, -⟩ := h.reaches
    obtain ⟨offset, t⟩ := c
    simp only at hc hb
    -- the tag ends behind a `>`, which is not one of the name
    have hafter : (((Cursor.mk offset t).skip 2).skipPast '>') =
        ⟨(piece ⟨offset, t⟩).2.offset, behind ++ d.rest⟩ := by
      rw [← hbehind, hpiece]
      rfl
    obtain ⟨front, before, hlen, ht, -, -⟩ :=
      Cursor.skip_skipPast_inv (by simp [hd']) hafter
    have hname : name.length ≤ before.length := by
      have hsame : ['<', '/'] ++ (name ++ rest) = front ++ (before ++ '>' :: (behind ++ d.rest)) :=
        hc.symm.trans ht
      obtain ⟨-, hrest⟩ := List.append_inj hsame hlen.symm
      rcases List.append_eq_append_iff.1 hrest with ⟨x, rfl, -⟩ | ⟨x, rfl, hx⟩
      · simp
      · cases x with
        | nil => simp
        | cons c x =>
          obtain ⟨rfl, -⟩ := List.cons.inj hx
          simp at hn
    have := congrArg List.length (hb.symm.trans ht)
    simp only [List.length_append, List.length_cons] at this
    omega

/-- What has been read behind a start tag with raw text reaches as far as the name of its closing
tag does. -/
theorem length_opening {c d : Cursor} {es : List Event} {tag between : Text} {start : Nat}
    {attributes : List Attribute} (h : Passes (piece c).2 es d)
    (hopen : Event.opening tag start attributes ∈ (piece c).1) (hraw : isRawText tag = true)
    (hd : markOf d.rest = .start) (hb : (piece c).2.rest = between ++ d.rest) :
    tag.length + 2 ≤ between.length := by
  obtain ⟨first, u, hu, -⟩ := cons_of_markOf_start hd
  obtain ⟨htag, hstarts⟩ := startsWithFolded_of_opening hopen hraw (by simp [hb, hu])
  obtain ⟨name, rest, hname, hlen, hn⟩ := exists_name_of_startsWithFolded htag hstarts
  have := h.length_closing hname hn hd hb
  omega

/-- **Reading comes to a start tag in the same way**, whatever stands behind its first
characters. -/
theorem congr {u w x : Text} {offset offset' : Nat} {es : List Event}
    (h : Passes ⟨offset, u ++ (w ++ x)⟩ es ⟨offset', w ++ x⟩) (hw : 3 ≤ w.length)
    (hm : markOf (w ++ x) = .start) (x' : Text) :
    Passes ⟨offset, u ++ (w ++ x')⟩ es ⟨offset', w ++ x'⟩ := by
  generalize hc : Cursor.mk offset (u ++ (w ++ x)) = c at h
  generalize hd : Cursor.mk offset' (w ++ x) = d at h
  induction h generalizing offset u with
  | refl c =>
    subst hd
    obtain ⟨rfl, hu⟩ := Cursor.mk.inj hc
    obtain rfl : u = [] := by simpa using hu
    exact .refl _
  | @step c d es hne h ih =>
    subst hc hd
    have hlt := length_piece_lt hne
    obtain ⟨front, hfront, -⟩ := reaches_piece ⟨offset, u ++ (w ++ x)⟩
    obtain ⟨between, hrest, -⟩ := h.reaches
    have hraw : ∀ tag start attributes,
        Event.opening tag start attributes ∈ (piece ⟨offset, u ++ (w ++ x)⟩).1 →
        isRawText tag = true → tag.length + 2 ≤ (between ++ w).length := by
      intro tag start attributes hopen htext
      have := h.length_opening hopen htext hm hrest
      rw [List.length_append]
      omega
    obtain ⟨es', ⟨offset₁, rest⟩, hp⟩ : ∃ es' d', piece ⟨offset, u ++ (w ++ x)⟩ = (es', d') :=
      ⟨_, _, rfl⟩
    simp only [hp] at hlt hraw hfront hrest h ih ⊢
    subst hrest
    obtain rfl : u = front ++ between := by
      have hall : u ++ (w ++ x) = (front ++ between) ++ (w ++ x) := by
        rw [hfront, List.append_assoc]
      exact List.append_cancel_right hall
    have hne' : front ≠ [] := by
      rintro rfl
      simp at hlt
    have hp' : piece ⟨offset, front ++ ((between ++ w) ++ x)⟩ =
        (es', ⟨offset₁, (between ++ w) ++ x⟩) := by
      simpa only [List.append_assoc] using hp
    have hq := piece_congr hne' (by simp; omega) hraw hp' x'
    simp only [List.append_assoc] at hq ⊢
    have hstep := Passes.step (c := ⟨offset, front ++ (between ++ (w ++ x'))⟩) (by simp [hne'])
      (by rw [hq]; exact ih rfl trivial)
    rwa [hq] at hstep

end Passes

/-! ## Start tags -/

/-- The events of a start tag: issues, and then an element that is complete, or one that opens. -/
theorem TagBody.events_cases (tag : Text) (start : Nat) (body : TagBody) :
    ∃ (is : List Issue) (last : Event),
      (body.events tag start).1 = is.map Event.issue ++ [last] ∧
      ((∃ selfClosing,
          last = .leaf ⟨tag, ⟨start, body.after.offset⟩, body.attributes, [], selfClosing⟩) ∨
        (body.ending = .complete ∧ last = .opening tag start body.attributes ∧
          (body.events tag start).2 =
            if isRawText tag then skipRawText tag body.after else body.after)) := by
  unfold TagBody.events
  cases he : body.ending with
  | missing =>
    exact ⟨body.issues ++ [⟨.unterminatedStartTag tag, ⟨start, body.after.offset⟩⟩], _,
      by simp, .inl ⟨false, rfl⟩⟩
  | selfClosing => exact ⟨body.issues, _, rfl, .inl ⟨true, rfl⟩⟩
  | complete =>
    dsimp only
    split
    · exact ⟨body.issues, _, rfl, .inl ⟨false, rfl⟩⟩
    · exact ⟨body.issues, _, rfl, .inr ⟨rfl, rfl, rfl⟩⟩

/-- The events of a start tag are about the one element that it begins. -/
theorem heads_events (f : TagForm) (tag rest : Text) (start offset : Nat) :
    ((f.body offset rest).events tag start).1.flatMap Event.heads =
      [⟨tag, start, f.items.attributes offset⟩] := by
  obtain ⟨is, last, hevents, hlast⟩ := TagBody.events_cases tag start (f.body offset rest)
  have hissues : (is.map Event.issue).flatMap Event.heads = [] := by
    simp [List.flatMap_map, Event.heads]
  rw [hevents, List.flatMap_append, hissues]
  rcases hlast with ⟨selfClosing, rfl⟩ | ⟨-, rfl, -⟩ <;> rfl

/-- The attributes of a start tag are those of its form. -/
theorem attributes_events (f : TagForm) (tag rest : Text) (start offset : Nat) :
    ((f.body offset rest).events tag start).1.flatMap Event.attributes =
      f.items.attributes offset := by
  rw [flatMap_attributes, heads_events]
  exact List.append_nil _

/-- A piece that is not a start tag has none. -/
theorem heads_piece {c : Cursor} (h : markOf c.rest ≠ .start) :
    (piece c).1.flatMap Event.heads = [] := by
  rw [piece_eq]
  cases hm : markOf c.rest <;> simp only
  case start => exact absurd hm h
  case closing => rfl
  case declaration => rfl
  case text => rfl
  all_goals
    unfold passage
    split <;> rfl

/-- A piece without a start tag has no attributes. -/
theorem attributes_piece {c : Cursor} (h : markOf c.rest ≠ .start) :
    (piece c).1.flatMap Event.attributes = [] := by
  rw [flatMap_attributes, heads_piece h]
  rfl

/-- **Reading comes to every start tag.** -/
theorem exists_passes_of_head {c : Cursor} {head : Element.Head}
    (h : head ∈ (events c).flatMap Event.heads) :
    ∃ es d, Passes c es d ∧ markOf d.rest = .start ∧
      head ∈ (startTag d).1.flatMap Event.heads := by
  fun_induction events c with
  | case1 => cases h
  | case2 c hc ih =>
    rw [List.flatMap_append, List.mem_append] at h
    rcases h with h | h
    · by_cases hm : markOf c.rest = .start
      · have hpiece : piece c = startTag c := by rw [piece_eq, hm]
        exact ⟨[], c, .refl c, hm, by rwa [hpiece] at h⟩
      · rw [heads_piece hm] at h
        cases h
    · obtain ⟨es, d, hp, hd⟩ := ih h
      exact ⟨_, d, .step hc hp, hd⟩

/-- **Every attribute stands in a start tag** that reading comes to. -/
theorem exists_passes_of_mem {c : Cursor} {a : Attribute}
    (h : a ∈ (events c).flatMap Event.attributes) :
    ∃ es d, Passes c es d ∧ markOf d.rest = .start ∧
      a ∈ (startTag d).1.flatMap Event.attributes := by
  rw [flatMap_attributes] at h
  obtain ⟨head, hhead, ha⟩ := List.mem_flatMap.1 h
  obtain ⟨es, d, hp, hd, hmem⟩ := exists_passes_of_head hhead
  refine ⟨es, d, hp, hd, ?_⟩
  rw [flatMap_attributes]
  exact List.mem_flatMap.2 ⟨head, hmem, ha⟩

end Markup

end BindingToggle
