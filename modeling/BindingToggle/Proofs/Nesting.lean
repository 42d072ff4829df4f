import BindingToggle.Proofs.Placement

/-!
# How the tree of a template lies in its source

The elements of a template are nested in its source as they are in the tree, whichever way they
come to an end: by their own closing tag, by that of an element around them, with the template, or
with their start tag.

* `Builder.PlacedUpTo` — the invariant of a forest that is being built: every open element could be
  closed where the reading has come to, and an element inside another one begins behind everything
  that the other one holds.
* `PlacedUpTo.step` — an event keeps it; `placed_piece` and `placed_events` say so of the events of
  one piece and of all that are read.
* `nested_parseTemplate` — the tree of every template is nested in its source.
-/

namespace BindingToggle

open Text

/-! ## Forests that are being built -/

namespace OpenElement

/-- The element could be closed at `stop`, and what is inside it is placed. -/
structure Placed (source : Text) (stop : Nat) (o : OpenElement) : Prop where
  closed : (o.close stop).Placed source
  inner : Element.AllPlaced source o.children

/-- An element that could be closed at a place can be closed at any later one. -/
theorem Placed.mono {source : Text} {stop stop' : Nat} {o : OpenElement}
    (h : o.Placed source stop) (hstop : IsBoundary source stop') (hle : stop ≤ stop') :
    o.Placed source stop' := by
  obtain ⟨hspan, ⟨behind, hopening⟩, hparts, hattributes⟩ := h.closed
  obtain ⟨x, z, hsource, hx, hxy⟩ := append_of_slice? hopening
  obtain ⟨between, after, hbetween, hwidth⟩ := exists_append_of_le
    (x := x ++ '<' :: (o.tag ++ behind)) (y := z)
    (by simp only [hsource, close, List.append_assoc]) hstop
    (by rw [width_append]; exact Nat.le_trans (Nat.le_of_eq hxy) hle)
  have hslice : (o.close stop').span.slice? source =
      some ('<' :: ((o.close stop').tag ++ (behind ++ between))) := by
    refine slice?_eq_some (x := x) (z := after) ?_ hx.symm ?_
    · rw [hsource, hbetween]
      simp only [close, List.cons_append, List.append_assoc]
    · rw [width_append] at hwidth
      show stop' = width x + width ('<' :: (o.tag ++ (behind ++ between)))
      simp only [width_cons, width_append] at hwidth ⊢
      omega
  refine ⟨⟨Span.within_of_slice? hslice, ⟨_, hslice⟩, ?_, hattributes⟩, h.inner⟩
  exact hparts.mono (Nat.le_refl _) hle

/-- An element is taken in behind everything else. -/
theorem Placed.add {source : Text} {stop stop' : Nat} {o : OpenElement} {e : Element}
    (h : o.Placed source stop) (he : Element.AllPlaced source [e]) (hlow : stop ≤ e.span.start)
    (hhigh : e.span.stop ≤ stop') (hstop : IsBoundary source stop') :
    OpenElement.Placed source stop' { o with children := e :: o.children } := by
  have hplaced := (Element.allPlaced_cons.1 he).1
  have hspan := hplaced.span.ordered
  obtain ⟨hwithin, hopening, hparts, hattributes⟩ :=
    (h.mono hstop (Nat.le_trans hlow (Nat.le_trans hspan hhigh))).closed
  have hrow := h.closed.parts.append (Span.inRow_singleton hlow hspan hhigh) h.closed.name_le
    (Nat.le_trans hlow (Nat.le_trans hspan hhigh))
  refine ⟨⟨hwithin, hopening, ?_, hattributes⟩, ?_⟩
  · simpa only [close, List.reverse_cons, List.map_append, List.map_cons, List.map_nil,
      List.append_assoc] using hrow
  · obtain ⟨-, hchildren, -⟩ := Element.allPlaced_cons.1 he
    exact Element.allPlaced_cons.2 ⟨hplaced, hchildren, h.inner⟩

end OpenElement

/-- What an event between two places has to say about places. -/
def Markup.Event.PlacedAt (source : Text) (place place' : Nat) : Markup.Event → Prop
  | issue _ => True
  | leaf e => Element.AllPlaced source [e] ∧ place ≤ e.span.start ∧ e.span.stop ≤ place'
  | opening tag start attributes =>
    place ≤ start ∧ OpenElement.Placed source place' ⟨tag, start, attributes, []⟩
  | closing _ span => place ≤ span.start ∧ span.Within source ∧ span.stop ≤ place'

namespace Builder

/-- Open elements, the innermost first, when the reading has come to `place`. Each of them could be
closed there if it were the innermost one, and was opened behind all that the next one holds. -/
def StackPlaced (source : Text) (roots : List Element) : Nat → List OpenElement → Prop
  | place, [] =>
    Span.InRow 0 place (roots.reverse.map Element.span) ∧ Element.AllPlaced source roots
  | place, o :: below => o.Placed source place ∧ StackPlaced source roots o.start below

/-- The forest as far as it has been built is placed in the source up to `place`. -/
structure PlacedUpTo (source : Text) (place : Nat) (b : Builder) : Prop where
  boundary : IsBoundary source place
  stack : StackPlaced source b.roots place b.stack

variable {source : Text} {place place' : Nat} {b : Builder}

theorem PlacedUpTo.mono (h : b.PlacedUpTo source place) (hplace : IsBoundary source place')
    (hle : place ≤ place') : b.PlacedUpTo source place' := by
  refine ⟨hplace, ?_⟩
  have hstack := h.stack
  cases hs : b.stack with
  | nil =>
    rw [hs] at hstack
    exact ⟨hstack.1.mono (Nat.le_refl _) hle, hstack.2⟩
  | cons o below =>
    rw [hs] at hstack
    exact ⟨hstack.1.mono hplace hle, hstack.2⟩

theorem PlacedUpTo.report (h : b.PlacedUpTo source place) (i : Issue) :
    (b.report i).PlacedUpTo source place := ⟨h.boundary, h.stack⟩

theorem PlacedUpTo.add {e : Element} (h : b.PlacedUpTo source place)
    (he : Element.AllPlaced source [e]) (hlow : place ≤ e.span.start)
    (hhigh : e.span.stop ≤ place') (hplace : IsBoundary source place') :
    (b.add e).PlacedUpTo source place' := by
  refine ⟨hplace, ?_⟩
  have hstack := h.stack
  unfold Builder.add
  split
  · rename_i hs
    rw [hs] at hstack
    obtain ⟨hplaced, hchildren, -⟩ := Element.allPlaced_cons.1 he
    have hspan := hplaced.span.ordered
    have hrow := hstack.1.append (Span.inRow_singleton hlow hspan hhigh) (Nat.zero_le _)
      (Nat.le_trans hlow (Nat.le_trans hspan hhigh))
    show StackPlaced source (e :: b.roots) place' b.stack
    rw [hs]
    refine ⟨?_, Element.allPlaced_cons.2 ⟨hplaced, hchildren, hstack.2⟩⟩
    simpa only [List.reverse_cons, List.map_append, List.map_cons, List.map_nil] using hrow
  · rename_i o below hs
    rw [hs] at hstack
    exact ⟨hstack.1.add he hlow hhigh hplace, hstack.2⟩

/-- Ending the innermost element, with or without a report. -/
theorem PlacedUpTo.pop {o : OpenElement} {below : List OpenElement} {stop : Nat}
    (h : b.PlacedUpTo source place) (hs : b.stack = o :: below) (hstop : IsBoundary source stop)
    (hle : place ≤ stop) : ({ b with stack := below }.add (o.close stop)).PlacedUpTo source stop := by
  have hstack := h.stack
  rw [hs] at hstack
  have hclosed := hstack.1.mono hstop hle
  have hbelow : PlacedUpTo source o.start { b with stack := below } :=
    ⟨hclosed.closed.span.first, hstack.2⟩
  refine hbelow.add ?_ (Nat.le_refl _) (Nat.le_refl _) hstop
  refine Element.allPlaced_cons.2 ⟨hclosed.closed, Element.allPlaced_reverse.2 hclosed.inner, ?_⟩
  intro e he
  cases he

theorem PlacedUpTo.close {stop : Nat} (h : b.PlacedUpTo source place)
    (hstop : IsBoundary source stop) (hle : place ≤ stop) :
    (b.close stop).PlacedUpTo source stop := by
  unfold Builder.close
  split
  · exact h.mono hstop hle
  · rename_i hs
    exact h.pop hs hstop hle

theorem PlacedUpTo.abandonMany {stop : Nat} (h : b.PlacedUpTo source place)
    (hstop : IsBoundary source stop) (hle : place ≤ stop) (count : Nat) :
    (b.abandonMany stop count).PlacedUpTo source stop := by
  induction count generalizing b place with
  | zero => exact h.mono hstop hle
  | succ count ih =>
    have habandon : (b.abandon stop).PlacedUpTo source stop := by
      unfold abandon
      split
      · exact h.mono hstop hle
      · rename_i o below hs
        exact (h.report o.unclosed).pop hs hstop hle
    exact ih habandon (Nat.le_refl _)

/-- **A step** keeps a forest placed, up to the place behind the event. -/
theorem PlacedUpTo.step {e : Markup.Event} (h : b.PlacedUpTo source place)
    (he : e.PlacedAt source place place') (hplace : IsBoundary source place')
    (hle : place ≤ place') : (b.step e).PlacedUpTo source place' := by
  cases e with
  | issue i => exact (h.report i).mono hplace hle
  | leaf e =>
    obtain ⟨hplaced, hlow, hhigh⟩ := he
    exact h.add hplaced hlow hhigh hplace
  | opening tag start attributes =>
    obtain ⟨hlow, hplaced⟩ := he
    have hstart : IsBoundary source start := hplaced.closed.span.first
    exact ⟨hplace, hplaced, (h.mono hstart hlow).stack⟩
  | closing tag span =>
    obtain ⟨hlow, hspan, hhigh⟩ := he
    show (b.closeTag tag span).PlacedUpTo source place'
    unfold closeTag
    split
    · exact (h.report _).mono hplace hle
    · rename_i depth _
      exact ((h.abandonMany hspan.first hlow depth).close hspan.last hspan.ordered).mono hplace hhigh

theorem PlacedUpTo.issues (h : b.PlacedUpTo source place) (is : List Issue) :
    ((is.map Markup.Event.issue).foldl Builder.step b).PlacedUpTo source place := by
  induction is generalizing b with
  | nil => exact h
  | cons i is ih => exact ih (h.report i)

end Builder

namespace Markup

open Builder (PlacedUpTo)

variable {source : Text} {b : Builder}

theorem isBoundary_of_reaches {c : Cursor} (h : (Cursor.mk 0 source).Reaches c) :
    IsBoundary source c.offset := by
  obtain ⟨between, hrest, hoffset⟩ := h
  exact ⟨between, c.rest, hrest, by rw [hoffset, Nat.zero_add]⟩

theorem issues_passage (n : Nat) (close : Text) (problem : Problem) (c : Cursor) :
    ∃ is : List Issue, (passage n close problem c).1 = is.map Event.issue := by
  unfold passage
  split
  · exact ⟨[], rfl⟩
  · exact ⟨[_], rfl⟩

/-- The events of a start tag leave a forest placed. -/
theorem placed_tagEvents {tag rest before : Text} {f : TagForm}
    (h : b.PlacedUpTo source (width before)) (hf : f.Fits rest)
    (hsource : source = before ++ '<' :: (tag ++ (f.text ++ rest))) :
    let read := (f.body (width before + 1 + width tag) rest).events tag (width before)
    IsBoundary source read.2.offset → (read.1.foldl Builder.step b).PlacedUpTo source read.2.offset := by
  intro read hread
  have hreaches : width before + 1 + width tag + width f.text ≤ read.2.offset :=
    (TagBody.reaches_events tag (width before)
      (f.body (width before + 1 + width tag) rest)).offset_le
  have hle : width before ≤ read.2.offset := by omega
  -- whichever event ends the list, it opens or is an element that begins with this tag
  have hplaced := placed_startTag hf hsource hread hreaches
  have hissues := h.issues (f.items.issues (width before + 1 + width tag))
  have hleaf : ∀ selfClosing, Event.PlacedAt source (width before) read.2.offset
      (.leaf ⟨tag, ⟨width before, read.2.offset⟩, f.items.attributes (width before + 1 + width tag),
        [], selfClosing⟩) := by
    intro selfClosing
    refine ⟨Element.allPlaced_cons.2 ⟨hplaced selfClosing, ?_, ?_⟩, Nat.le_refl _, Nat.le_refl _⟩
    · intro e he
      cases he
    · intro e he
      cases he
  have hopening : Event.PlacedAt source (width before) read.2.offset
      (.opening tag (width before) (f.items.attributes (width before + 1 + width tag))) := by
    refine ⟨Nat.le_refl _, hplaced false, ?_⟩
    intro e he
    cases he
  revert hle hleaf hopening hread
  simp only [read, TagBody.events, TagForm.body]
  cases f.ending with
  | missing =>
    intro hread hle hleaf _
    rw [List.foldl_append]
    exact (hissues.report _).step (hleaf false) hread hle
  | selfClosing =>
    intro hread hle hleaf _
    rw [List.foldl_append]
    exact hissues.step (hleaf true) hread hle
  | complete =>
    dsimp only
    split
    · intro hread hle hleaf _
      rw [List.foldl_append]
      exact hissues.step (hleaf false) hread hle
    · intro hread hle _ hopening
      rw [List.foldl_append]
      exact hissues.step hopening hread hle

/-- **A piece** leaves a forest placed, up to the place behind it. -/
theorem placed_piece {c : Cursor} (hc : (Cursor.mk 0 source).Reaches c)
    (h : b.PlacedUpTo source c.offset) :
    ((piece c).1.foldl Builder.step b).PlacedUpTo source (piece c).2.offset := by
  have hread := hc.trans (reaches_piece c)
  have hboundary := isBoundary_of_reaches hread
  have hle := (reaches_piece c).offset_le
  have hnone : ∀ is : List Issue, (piece c).1 = is.map Event.issue →
      ((piece c).1.foldl Builder.step b).PlacedUpTo source (piece c).2.offset := by
    intro is his
    rw [his]
    exact (h.issues is).mono hboundary hle
  cases hm : markOf c.rest with
  | comment =>
    have hpiece : piece c = passage 4 "-->".toList .unterminatedComment c := by rw [piece_eq, hm]
    obtain ⟨is, his⟩ := issues_passage 4 "-->".toList .unterminatedComment c
    exact hnone is (by rw [hpiece, his])
  | interpolation =>
    have hpiece : piece c = passage 2 "\x7d\x7d".toList .unterminatedInterpolation c := by
      rw [piece_eq, hm]
    obtain ⟨is, his⟩ := issues_passage 2 "\x7d\x7d".toList .unterminatedInterpolation c
    exact hnone is (by rw [hpiece, his])
  | closing =>
    have hpiece : piece c = closingTag c := by rw [piece_eq, hm]
    rw [hpiece] at hboundary hle ⊢
    have hclosing : Event.PlacedAt source c.offset (closingTag c).2.offset
        (.closing ((c.skip 2).rest.takeWhile isTagPart) ⟨c.offset, (closingTag c).2.offset⟩) :=
      ⟨Nat.le_refl _, ⟨hle, hboundary.le_width, h.boundary, hboundary⟩, Nat.le_refl _⟩
    exact h.step hclosing hboundary hle
  | declaration => exact hnone [] (by rw [piece_eq, hm]; rfl)
  | text => exact hnone [] (by rw [piece_eq, hm]; rfl)
  | start =>
    have hpiece : piece c = startTag c := by rw [piece_eq, hm]
    obtain ⟨first, u, hu, -⟩ := cons_of_markOf_start hm
    obtain ⟨tag, f, rest, ht, htag, hstop, hf⟩ := exists_startTag (first :: u)
    obtain ⟨before, hsource, hoffset⟩ := hc
    obtain ⟨offset, t⟩ := c
    simp only [Nat.zero_add] at hu hsource hoffset
    subst hoffset hu
    rw [ht] at hsource
    rw [hpiece, ht, startTag_form htag hstop hf] at hboundary ⊢
    exact placed_tagEvents h hf hsource hboundary

/-- Reading a template leaves a forest placed up to the end of the source. -/
theorem placed_events {c : Cursor} (hc : (Cursor.mk 0 source).Reaches c)
    (h : b.PlacedUpTo source c.offset) :
    ((events c).foldl Builder.step b).PlacedUpTo source (width source) := by
  fun_induction events c generalizing b with
  | case1 c _ => exact h.mono (isBoundary_width source) (isBoundary_of_reaches hc).le_width
  | case2 c _ ih =>
    rw [List.foldl_append]
    exact ih (hc.trans (reaches_piece c)) (placed_piece hc h)

end Markup

/-- The tree of a template is placed: its roots stand one behind the other, and so do the parts of
every element. -/
theorem placed_roots (source : Text) :
    Span.InRow 0 (width source) ((parseTemplate source).roots.map Element.span) ∧
      Element.AllPlaced source (parseTemplate source).roots := by
  have hempty : Builder.empty.PlacedUpTo source 0 :=
    ⟨⟨[], source, rfl, rfl⟩, Span.inRow_nil _ _, fun e he => (by cases he)⟩
  have hbuilt := Markup.placed_events (Cursor.Reaches.refl ⟨0, source⟩) hempty
  have hfinished := hbuilt.abandonMany (isBoundary_width source) (Nat.le_refl _)
    ((Markup.events ⟨0, source⟩).foldl Builder.step Builder.empty).stack.length
  have hstack := hfinished.stack
  have hnil := Builder.stack_finish (width source)
    ((Markup.events ⟨0, source⟩).foldl Builder.step Builder.empty)
  unfold Builder.finish at hnil
  rw [hnil] at hstack
  exact ⟨hstack.1, Element.allPlaced_reverse.2 hstack.2⟩

/-! ## The tree in the source -/

namespace Element

/-- The spans that an element and its attributes store. -/
def spans (e : Element) : List Span := e.span :: e.attributes.flatMap Attribute.spans

/-- The places and the texts of an element agree with the source, and its attributes and children
lie inside it in source order, the children behind all attributes. -/
structure Nested (source : Text) (e : Element) : Prop where
  spans : ∀ s ∈ e.spans, s.Within source
  nonempty : e.span.start < e.span.stop
  opening : ∃ behind, e.span.slice? source = some ('<' :: (e.tag ++ behind))
  siblings : (e.children.map Element.span).Pairwise Span.Precedes
  children : ∀ c ∈ e.children, e.span.contains c.span = true ∧
    ∀ a ∈ e.attributes, a.span.Precedes c.span
  ordered : (e.attributes.map Attribute.span).Pairwise Span.Precedes
  attributes : ∀ a ∈ e.attributes, a.span.start < a.span.stop ∧
    e.span.start + 1 + width e.tag ≤ a.span.start ∧ a.span.stop ≤ e.span.stop
  texts : ∀ a ∈ e.attributes, ∀ p ∈ a.texts, p.1.slice? source = some p.2
  markers : ∀ d, .directive d ∈ e.attributes →
    ∃ lead, d.marker.Written d.name lead ∧ d.markerSpan.slice? source = some lead

theorem Placed.nested {source : Text} {e : Element} (h : e.Placed source) : e.Nested source := by
  obtain ⟨hattributes, hchildren, hbehind⟩ := List.pairwise_append.1 h.parts.ordered
  have hname := h.name_le
  refine ⟨?_, by omega, h.opening, hchildren, ?_, hattributes, ?_, ?_, ?_⟩
  · intro s hs
    rcases List.mem_cons.1 hs with rfl | hs
    · exact h.span
    · obtain ⟨a, ha, hs⟩ := List.mem_flatMap.1 hs
      exact (h.attributes a ha).1.spans s hs
  · intro c hc
    have hbounds := h.parts.bounds c.span (List.mem_append_right _ (List.mem_map_of_mem hc))
    constructor
    · simp only [Span.contains, Bool.and_eq_true, decide_eq_true_eq]
      omega
    · intro a ha
      exact hbehind _ (List.mem_map_of_mem ha) _ (List.mem_map_of_mem hc)
  · intro a ha
    have hbounds := h.parts.bounds a.span (List.mem_append_left _ (List.mem_map_of_mem ha))
    have hnonempty := (h.attributes a ha).2
    omega
  · intro a ha
    exact (h.attributes a ha).1.texts
  · intro d hd
    exact (h.attributes _ hd).1.marker d rfl

end Element

/-- **The tree of a template is nested in its source**: the roots are in source order and do not
overlap, and every element, root or not, lies in the source with its attributes and children. -/
theorem nested_parseTemplate (source : Text) :
    ((parseTemplate source).roots.map Element.span).Pairwise Span.Precedes ∧
      ∀ e ∈ (parseTemplate source).elements, e.Nested source := by
  obtain ⟨hrow, hplaced⟩ := placed_roots source
  refine ⟨hrow.ordered, ?_⟩
  intro e he
  exact (hplaced e he).nested

end BindingToggle
