import BindingToggle.Proofs.Passes

/-!
# Places of start tags and attributes

* `ascend_events` — the attributes of a text begin at increasing places, so no two attributes of a
  template begin at the same one (`nodup_starts`).
* `Passes.start_le`, `le_start_of_mem_events` — the start tags that have been read begin in front of
  the cursor, and those that are read from there on behind it.
* `outline_events` — apart from places, the events of a text do not depend on where it begins.
-/

namespace BindingToggle

theorem Cursor.Reaches.end_eq {c d : Cursor} (h : c.Reaches d) :
    d.offset + Text.width d.rest = c.offset + Text.width c.rest := by
  obtain ⟨between, hrest, hoffset⟩ := h
  rw [hrest, hoffset, Text.width_append]
  omega

theorem Cursor.Reaches.offset_le {c d : Cursor} (h : c.Reaches d) : c.offset ≤ d.offset := by
  obtain ⟨between, -, hoffset⟩ := h
  omega

namespace Markup

open Text

/-! ## Increasing places -/

/-- Attributes that begin one behind the other, from `low` on and in front of `high`. -/
structure Ascend (low high : Nat) (attributes : List Attribute) : Prop where
  pairwise : attributes.Pairwise fun a b => a.span.start < b.span.start
  bounds : ∀ a ∈ attributes, low ≤ a.span.start ∧ a.span.start < high

theorem ascend_nil (low high : Nat) : Ascend low high [] := ⟨.nil, by simp⟩

theorem Ascend.append {low mid high : Nat} {xs ys : List Attribute} (hx : Ascend low mid xs)
    (hy : Ascend mid high ys) (hlow : low ≤ mid) (hhigh : mid ≤ high) :
    Ascend low high (xs ++ ys) := by
  refine ⟨List.pairwise_append.2 ⟨hx.pairwise, hy.pairwise, fun a ha b hb => ?_⟩, fun a ha => ?_⟩
  · have := hx.bounds a ha
    have := hy.bounds b hb
    omega
  · rcases List.mem_append.1 ha with ha | ha
    · have := hx.bounds a ha
      omega
    · have := hy.bounds a ha
      omega

theorem Ascend.mono {low high low' high' : Nat} {xs : List Attribute} (h : Ascend low high xs)
    (hlow : low' ≤ low) (hhigh : high ≤ high') : Ascend low' high' xs := by
  refine ⟨h.pairwise, fun a ha => ?_⟩
  have := h.bounds a ha
  omega

theorem AttributeForm.span_start_toAttribute (f : AttributeForm) (start : Nat) :
    (f.toAttribute start).span.start = start := Attribute.span_start_of _ _ _

theorem AttributeForm.Fits.width_pos {f : AttributeForm} {rest : Text} (h : f.Fits rest) :
    0 < width f.text := by
  obtain ⟨c, u, hu, -⟩ := h.starts
  have := c.utf8Size_pos
  simp only [AttributeForm.text, hu, width_append, width_cons]
  omega

theorem TagItems.ascend {items : TagItems} {rest : Text} (h : items.Fits rest) (start : Nat) :
    Ascend start (start + width items.text) (items.attributes start) := by
  induction items generalizing start with
  | nil => exact ascend_nil _ _
  | cons first items ih =>
    obtain ⟨blanks, item⟩ := first
    obtain ⟨-, hitem, hitems⟩ := h
    have htail := ih hitems (start + width blanks + width item.text)
    have hhead : Ascend start (start + width blanks + width item.text)
        (item.attributes (start + width blanks)) := by
      cases item with
      | slash => exact ascend_nil _ _
      | attr form =>
        have hpos := AttributeForm.Fits.width_pos hitem
        refine ⟨List.pairwise_singleton _ _, fun a ha => ?_⟩
        rw [List.mem_singleton.1 ha, AttributeForm.span_start_toAttribute]
        simp only [TagItem.text]
        omega
    refine (hhead.append htail (by omega) (by omega)).mono (Nat.le_refl _) ?_
    simp only [TagItems.text, width_append]
    omega

theorem ascend_piece (c : Cursor) :
    Ascend c.offset (piece c).2.offset ((piece c).1.flatMap Event.attributes) := by
  by_cases hm : markOf c.rest = .start
  · have hpiece : piece c = startTag c := by rw [piece_eq, hm]
    obtain ⟨first, u, hu, -⟩ := cons_of_markOf_start hm
    obtain ⟨offset, t⟩ := c
    obtain ⟨tag, f, rest, ht, htag, hstop, hf⟩ := exists_startTag (first :: u)
    simp only at hu
    rw [hpiece, hu, ht, startTag_form htag hstop hf, attributes_events]
    refine (TagItems.ascend hf.items _).mono (by simp only; omega) ?_
    have hafter : offset + 1 + width tag + width f.text ≤ _ :=
      (TagBody.reaches_events tag offset (f.body (offset + 1 + width tag) rest)).offset_le
    rw [TagForm.text, width_append] at hafter
    omega
  · rw [attributes_piece hm]
    exact ascend_nil _ _

theorem ascend_passes {c d : Cursor} {es : List Event} (h : Passes c es d) :
    Ascend c.offset d.offset (es.flatMap Event.attributes) := by
  induction h with
  | refl c => exact ascend_nil _ _
  | step _ h ih =>
    rw [List.flatMap_append]
    exact (ascend_piece _).append ih (reaches_piece _).offset_le h.reaches.offset_le

/-- **The attributes of a text begin at increasing places.** -/
theorem ascend_events (c : Cursor) :
    Ascend c.offset (c.offset + width c.rest) ((events c).flatMap Event.attributes) := by
  fun_induction events c with
  | case1 => exact ascend_nil _ _
  | case2 c hc ih =>
    have hend := (reaches_piece c).end_eq
    rw [hend] at ih
    rw [List.flatMap_append]
    exact (ascend_piece c).append ih (reaches_piece c).offset_le (by omega)

/-! ## Increasing start tags -/

theorem start_of_mem_startTag {c : Cursor} {head : Element.Head} (hm : markOf c.rest = .start)
    (h : head ∈ (startTag c).1.flatMap Event.heads) : head.start = c.offset := by
  obtain ⟨first, u, hu, -⟩ := cons_of_markOf_start hm
  obtain ⟨offset, t⟩ := c
  obtain ⟨tag, f, rest, ht, htag, hstop, hf⟩ := exists_startTag (first :: u)
  simp only at hu
  rw [hu, ht, startTag_form htag hstop hf, heads_events, List.mem_singleton] at h
  rw [h]

theorem start_of_mem_piece {c : Cursor} {head : Element.Head}
    (h : head ∈ (piece c).1.flatMap Event.heads) : head.start = c.offset := by
  by_cases hm : markOf c.rest = .start
  · have hpiece : piece c = startTag c := by rw [piece_eq, hm]
    rw [hpiece] at h
    exact start_of_mem_startTag hm h
  · rw [heads_piece hm] at h
    cases h

/-- What has been read begins in front of the place that the reading has come to. -/
theorem Passes.start_le {c d : Cursor} {es : List Event} (h : Passes c es d)
    {head : Element.Head} (hhead : head ∈ es.flatMap Event.heads) : head.start ≤ d.offset := by
  induction h with
  | refl c => cases hhead
  | step _ h ih =>
    rw [List.flatMap_append, List.mem_append] at hhead
    rcases hhead with hhead | hhead
    · rw [start_of_mem_piece hhead]
      exact ((reaches_piece _).trans h.reaches).offset_le
    · exact ih hhead

/-- What is read from a cursor on begins there, or behind. -/
theorem le_start_of_mem_events {c : Cursor} {head : Element.Head}
    (h : head ∈ (events c).flatMap Event.heads) : c.offset ≤ head.start := by
  obtain ⟨es, d, hp, hm, hhead⟩ := exists_passes_of_head h
  rw [start_of_mem_startTag hm hhead]
  exact hp.reaches.offset_le

end Markup

open Element (allAttributes)

/-- No two attributes of a template begin at the same place. -/
theorem nodup_starts (source : Text) :
    ((allAttributes (parseTemplate source).roots).map (·.span.start)).Nodup := by
  have hasc := (Markup.ascend_events ⟨0, source⟩).pairwise
  rw [((perm_allAttributes source).map _).nodup_iff]
  exact (List.pairwise_map.2 hasc).imp fun h => Nat.ne_of_lt h

namespace Markup

open Text

/-! ## Outlines -/

theorem AttributeForm.unplaced_toAttribute (f : AttributeForm) (start start' : Nat) :
    (f.toAttribute start).unplaced = (f.toAttribute start').unplaced := by
  refine Attribute.unplaced_of ?_ _ _ _
  cases f.value with
  | none => rfl
  | some p => rfl

theorem ValueForm.problems_issues (v : ValueForm) (start start' : Nat) :
    (v.issues start).map (·.problem) = (v.issues start').map (·.problem) := by
  unfold ValueForm.issues
  split <;> rfl

theorem AttributeForm.problems_issues (f : AttributeForm) (start start' : Nat) :
    (f.issues start).map (·.problem) = (f.issues start').map (·.problem) := by
  simp only [AttributeForm.issues]
  cases f.value with
  | none => rfl
  | some p => exact p.form.problems_issues _ _

theorem TagItems.unplaced_attributes (items : TagItems) (start start' : Nat) :
    (items.attributes start).map Attribute.unplaced =
      (items.attributes start').map Attribute.unplaced := by
  induction items generalizing start start' with
  | nil => rfl
  | cons first items ih =>
    obtain ⟨blanks, item⟩ := first
    simp only [TagItems.attributes, List.map_append]
    rw [ih _ (start' + width blanks + width item.text)]
    cases item with
    | slash => rfl
    | attr form =>
      simp only [TagItem.attributes, List.map_cons, List.map_nil]
      rw [form.unplaced_toAttribute _ (start' + width blanks)]

theorem TagItems.problems_issues (items : TagItems) (start start' : Nat) :
    (items.issues start).map (·.problem) = (items.issues start').map (·.problem) := by
  induction items generalizing start start' with
  | nil => rfl
  | cons first items ih =>
    obtain ⟨blanks, item⟩ := first
    simp only [TagItems.issues, List.map_append]
    rw [ih _ (start' + width blanks + width item.text)]
    cases item with
    | slash => rfl
    | attr form =>
      simp only [TagItem.issues]
      rw [form.problems_issues _ (start' + width blanks)]

/-- Tags with the same attributes and issues, apart from places, have the same events. -/
theorem TagBody.outline_events {f g : Attribute → Attribute} {body body' : TagBody}
    (ha : body.attributes.map f = body'.attributes.map g)
    (hi : body.issues.map (·.problem) = body'.issues.map (·.problem))
    (he : body.ending = body'.ending) (tag : Text) (start start' : Nat) :
    (body.events tag start).1.map (Event.outline f) =
      (body'.events tag start').1.map (Event.outline g) := by
  have hissues : (body.issues.map Event.issue).map (Event.outline f) =
      (body'.issues.map Event.issue).map (Event.outline g) := by
    have := congrArg (List.map fun p => Event.issue ⟨p, .caret 0⟩) hi
    simp only [List.map_map] at this ⊢
    exact this
  unfold TagBody.events
  rw [he]
  split
  · simp [hissues, Event.outline, Element.outline_eq, Issue.unplaced, ha]
  · simp [hissues, Event.outline, Element.outline_eq, ha]
  · split <;> simp [hissues, Event.outline, Element.outline_eq, ha]

theorem rest_skipRawText {tag : Text} {c c' : Cursor} (h : c.rest = c'.rest) :
    (skipRawText tag c).rest = (skipRawText tag c').rest := by
  unfold skipRawText Cursor.findFolded?
  rw [h]
  cases breakOnFolded? ('<' :: '/' :: tag) c'.rest <;> rfl

theorem TagBody.rest_events {body body' : TagBody} (he : body.ending = body'.ending)
    (hr : body.after.rest = body'.after.rest) (tag : Text) (start start' : Nat) :
    (body.events tag start).2.rest = (body'.events tag start').2.rest := by
  unfold TagBody.events
  rw [he]
  split
  · exact hr
  · exact hr
  · split
    · exact hr
    · dsimp only
      split
      · exact rest_skipRawText hr
      · exact hr

theorem outline_passage (n : Nat) (close : Text) (problem : Problem) (f : Attribute → Attribute)
    (offset offset' : Nat) (t : Text) :
    (passage n close problem ⟨offset, t⟩).1.map (Event.outline f) =
        (passage n close problem ⟨offset', t⟩).1.map (Event.outline f) ∧
      (passage n close problem ⟨offset, t⟩).2.rest =
        (passage n close problem ⟨offset', t⟩).2.rest := by
  simp only [passage, Cursor.find?, Cursor.skip]
  cases breakOn? close (t.drop n) with
  | none => exact ⟨rfl, rfl⟩
  | some sides => exact ⟨rfl, rfl⟩

/-- Apart from places, a piece does not depend on where it begins. -/
theorem outline_piece (offset offset' : Nat) (t : Text) :
    (piece ⟨offset, t⟩).1.map (Event.outline Attribute.unplaced) =
        (piece ⟨offset', t⟩).1.map (Event.outline Attribute.unplaced) ∧
      (piece ⟨offset, t⟩).2.rest = (piece ⟨offset', t⟩).2.rest := by
  rw [piece_eq, piece_eq]
  cases hm : markOf t <;> dsimp only
  case comment => exact outline_passage _ _ _ _ _ _ _
  case interpolation => exact outline_passage _ _ _ _ _ _ _
  case closing => exact ⟨rfl, rfl⟩
  case declaration => exact ⟨rfl, rfl⟩
  case text => exact ⟨rfl, rfl⟩
  case start =>
    obtain ⟨first, u, rfl, -⟩ := cons_of_markOf_start hm
    obtain ⟨tag, f, rest, ht, htag, hstop, hf⟩ := exists_startTag (first :: u)
    rw [ht, startTag_form htag hstop hf, startTag_form htag hstop hf]
    refine ⟨?_, ?_⟩
    · apply TagBody.outline_events
      · exact TagItems.unplaced_attributes _ _ _
      · exact TagItems.problems_issues _ _ _
      · rfl
    · apply TagBody.rest_events <;> rfl

/-- **Apart from places, the events of a text do not depend on where it begins.** -/
theorem outline_events (offset offset' : Nat) (t : Text) :
    (events ⟨offset, t⟩).map (Event.outline Attribute.unplaced) =
      (events ⟨offset', t⟩).map (Event.outline Attribute.unplaced) := by
  induction hn : t.length using Nat.strongRecOn generalizing offset offset' t with
  | ind n ih =>
    subst hn
    by_cases ht : t = []
    · subst ht
      have hnil : ∀ o, events ⟨o, []⟩ = [] := fun o => by rw [events, dif_pos rfl]
      rw [hnil, hnil]
    · obtain ⟨hes, hrest⟩ := outline_piece offset offset' t
      have hcons : ∀ o, events ⟨o, t⟩ =
          (piece ⟨o, t⟩).1 ++ events ⟨(piece ⟨o, t⟩).2.offset, (piece ⟨o, t⟩).2.rest⟩ :=
        fun o => events_of_ne_nil ht
      have hlt : (piece ⟨offset, t⟩).2.rest.length < t.length := length_piece_lt ht
      rw [hcons, hcons, List.map_append, List.map_append, hes, ← hrest, ih _ hlt _ _ _ rfl]

/-- Outlines agree when the changes agree on the attributes of the event. -/
theorem Event.outline_congr {f g : Attribute → Attribute} {e : Event}
    (h : ∀ a ∈ e.attributes, f a = g a) : e.outline f = e.outline g := by
  cases e with
  | issue i => rfl
  | leaf e => exact congrArg Event.leaf (Element.outline_congr e h)
  | opening tag start attributes =>
    exact congrArg (Event.opening tag 0) (List.map_congr_left h)
  | closing tag span => rfl

theorem map_outline_congr {f g : Attribute → Attribute} {es : List Event}
    (h : ∀ a ∈ es.flatMap Event.attributes, f a = g a) :
    es.map (Event.outline f) = es.map (Event.outline g) :=
  List.map_congr_left fun e he => Event.outline_congr fun a ha =>
    h a (List.mem_flatMap.2 ⟨e, he, ha⟩)

end Markup

end BindingToggle
