import BindingToggle.Proofs.Nesting
import Mathlib.Logic.Relation

/-!
# The moves of a reading

However a template is written, reading it moves the forest that is being built in six ways only: an
issue is reported, an element is complete with its start tag, a start tag is cut off by the end of
the template, an element opens, an element is given up, or an element is closed by its own tag. So a
statement about all templates is proved by looking at these six.

* `Problem.ShownBy` — the texts that show a problem; `Issue.Shown` says that the span of an issue
  has such a text.
* `IsClosingTag` — what a closing tag looks like; `closes_piece` says that one stands wherever one
  is read.
* `Builder.Move` — a single move, with what the source says about it.
* `moves_piece`, `moves_events` — a piece of the source, and all of it, are read by moves.
* `moves_parseTemplate` — a template is read by moves from the empty forest.
-/

namespace BindingToggle

open Text Markup

/-! ## Slices between cursors -/

namespace Cursor

theorem Between.trans {a b c : Cursor} {x y : Text} (hab : a.Between x b) (hbc : b.Between y c) :
    a.Between (x ++ y) c := by
  constructor
  · rw [hab.1, hbc.1, List.append_assoc]
  · rw [hbc.2, hab.2, width_append, Nat.add_assoc]

theorem between_skip {c : Cursor} {x rest : Text} (h : c.rest = x ++ rest) :
    c.Between x (c.skip x.length) := by
  constructor
  · simp [skip, h]
  · simp [skip, h]

theorem between_skipWhile (p : Char → Bool) (c : Cursor) :
    c.Between (c.rest.takeWhile p) (c.skipWhile p) :=
  ⟨List.takeWhile_append_dropWhile.symm, rfl⟩

/-- What is skipped up to and including a mark has the mark only at its end, and a run that ends in
front of the mark is one of it. -/
theorem exists_between_skipPast (mark : Char) (c : Cursor) :
    ∃ x, c.Between x (c.skipPast mark) ∧ mark ∉ x.dropLast ∧
      ∀ p : Char → Bool, p mark = false → c.rest.takeWhile p = x.takeWhile p := by
  obtain ⟨offset, t⟩ := c
  rcases exists_mark mark t with hn | ⟨before, after, rfl, hn⟩
  · have hrun : ∀ c ∈ t, (c != mark) = true := by
      intro c hc
      simp only [bne_iff_ne]
      rintro rfl
      exact hn hc
    have hskip : (Cursor.mk offset t).skipWhile (· != mark) = ⟨offset + width t, []⟩ := by
      simpa using skipWhile_run hrun (stops_nil _) offset
    refine ⟨t, ?_, fun h => hn (List.dropLast_subset t h), fun _ _ => rfl⟩
    rw [skipPast, hskip]
    exact ⟨(List.append_nil t).symm, rfl⟩
  · refine ⟨before ++ [mark], ?_, ?_, fun p hp => takeWhile_before hp _ _ _⟩
    · rw [skipPast_mark hn]
      refine ⟨by simp, ?_⟩
      rw [width_append, ← Nat.add_assoc]
      rfl
    · rwa [List.dropLast_concat]

end Cursor

/-- What stands between two cursors of a source is the slice between their offsets. -/
theorem slice?_between {source x : Text} {c d : Cursor} (hc : (Cursor.mk 0 source).Reaches c)
    (h : c.Between x d) : slice? source c.offset d.offset = some x := by
  obtain ⟨before, hsource, hoffset⟩ := hc
  refine slice?_eq_some (x := before) (z := d.rest) ?_ ?_ ?_
  · exact hsource.trans (by rw [h.1])
  · exact hoffset.trans (Nat.zero_add _)
  · rw [h.2, hoffset, Nat.zero_add]

/-! ## What shows an issue -/

/-- The closing tag of a name: a `>` can stand at its end only. -/
structure IsClosingTag (name x : Text) : Prop where
  named : ∃ behind, x = '<' :: '/' :: (name ++ behind) ∧ Stops isTagPart behind
  ends : '>' ∉ x.dropLast

/-- The texts that show a problem. A template that stands alone needs no end. -/
def Problem.ShownBy : Problem → Text → Prop
  | unterminatedValue, x => x = ['"'] ∨ x = ['\'']
  | unclosedElement tag, x => x = '<' :: tag
  | unterminatedStartTag tag, x =>
    ∃ f : TagForm, f.Fits [] ∧ f.ending = .missing ∧ x = '<' :: (tag ++ f.text)
  | unexpectedClosingTag tag, x => IsClosingTag tag x
  | unterminatedComment, x => x = "<!--".toList
  | missingTemplateEnd, _ => False
  | unterminatedInterpolation, x => x = "\x7b\x7b".toList

namespace Issue

/-- The span of the issue is that of a text that shows its problem. A start tag that is not
terminated reaches to the end. -/
structure Shown (source : Text) (i : Issue) : Prop where
  slice : ∃ x, i.span.slice? source = some x ∧ i.problem.ShownBy x
  last : ∀ tag, i.problem = .unterminatedStartTag tag → i.span.stop = width source

/-- Whether the issue says that an element ends without a closing tag of its own. -/
def isUnclosed (i : Issue) : Bool := i.problem.code == "T1002"

theorem shown_of_slice {source x : Text} {i : Issue} (hslice : i.span.slice? source = some x)
    (hx : i.problem.ShownBy x) (hkind : i.isUnclosed = false) : i.Shown source := by
  refine ⟨⟨x, hslice, hx⟩, ?_⟩
  intro tag htag
  rw [isUnclosed, htag] at hkind
  cases hkind

end Issue

theorem OpenElement.Placed.shown_unclosed {source : Text} {stop : Nat} {o : OpenElement}
    (h : o.Placed source stop) : o.unclosed.Shown source := by
  obtain ⟨behind, hslice⟩ := h.closed.opening
  obtain ⟨x, z, hsource, hx, -⟩ := append_of_slice? hslice
  refine ⟨⟨'<' :: o.tag, ?_, rfl⟩, fun tag htag => nomatch htag⟩
  refine slice?_eq_some (x := x) (z := behind ++ z) ?_ hx.symm ?_
  · rw [hsource]
    simp [OpenElement.close]
  · have hmark : '<'.utf8Size = 1 := by decide
    show o.start + width o.tag + 1 = width x + width ('<' :: o.tag)
    have hstart : width x = o.start := hx
    rw [width_cons, hmark, hstart]
    omega

/-! ## Moves -/

namespace Builder

/-- The ways in which reading moves a forest. -/
inductive Move (source : Text) : Builder → Builder → Prop
  /-- An issue is met that is not about the end of an element. -/
  | report {b : Builder} {i : Issue} (hi : i.Shown source) (hkind : i.isUnclosed = false) :
      Move source b (b.report i)
  /-- An element is complete with its start tag. -/
  | leaf {b : Builder} {e : Element} (he : e.children = [])
      (hend : e.selfClosing = true ∨ isVoid e.tag = true) : Move source b (b.add e)
  /-- The template ends inside of a start tag. -/
  | cutOff {b : Builder} {tag : Text} {span : Span} {attributes : List Attribute}
      (hi : Issue.Shown source ⟨.unterminatedStartTag tag, span⟩) :
      Move source b ((b.report ⟨.unterminatedStartTag tag, span⟩).add
        ⟨tag, span, attributes, [], false⟩)
  | opening {b : Builder} {tag : Text} {start : Nat} {attributes : List Attribute} :
      Move source b { b with stack := ⟨tag, start, attributes, []⟩ :: b.stack }
  /-- The innermost open element ends without its closing tag. -/
  | abandon {b : Builder} {o : OpenElement} {below : List OpenElement} {stop : Nat}
      (hs : b.stack = o :: below) (ho : o.Placed source stop) : Move source b (b.abandon stop)
  /-- The innermost open element ends with its closing tag. -/
  | close {b : Builder} {o : OpenElement} {below : List OpenElement} {span : Span} {name x : Text}
      (hs : b.stack = o :: below) (ho : o.Placed source span.start)
      (hslice : span.slice? source = some x) (hx : IsClosingTag name x)
      (hname : eqFolded o.tag name = true) : Move source b (b.close span.stop)

/-- One move after the other. -/
abbrev Moves (source : Text) : Builder → Builder → Prop := Relation.ReflTransGen (Move source)

variable {source : Text} {place : Nat} {b : Builder}

theorem moves_issues {is : List Issue} (h : ∀ i ∈ is, i.Shown source ∧ i.isUnclosed = false)
    (b : Builder) : Moves source b ((is.map Event.issue).foldl step b) := by
  induction is generalizing b with
  | nil => exact .refl
  | cons i is ih =>
    obtain ⟨⟨hi, hkind⟩, his⟩ := List.forall_mem_cons.1 h
    exact .head (.report hi hkind) (ih his (b.report i))

theorem PlacedUpTo.moves_abandonMany {stop : Nat} (h : b.PlacedUpTo source place)
    (hstop : IsBoundary source stop) (hle : place ≤ stop) (count : Nat) :
    Moves source b (b.abandonMany stop count) := by
  induction count generalizing b place with
  | zero => exact .refl
  | succ count ih =>
    have hnext : (b.abandon stop).PlacedUpTo source stop := h.abandonMany hstop hle 1
    refine .trans ?_ (ih hnext (Nat.le_refl _))
    have hstack := h.stack
    cases hs : b.stack with
    | nil =>
      rw [abandon, hs]
    | cons o below =>
      rw [hs] at hstack
      exact .single (.abandon hs (hstack.1.mono hstop hle))

/-! ### Closing tags -/

theorem tags_abandon (stop : Nat) (b : Builder) :
    (b.abandon stop).stack.map (·.tag) = (b.stack.map (·.tag)).tail := by
  obtain ⟨_ | ⟨o, _ | ⟨o', below⟩⟩, roots, issues⟩ := b <;> rfl

/-- Giving up elements leaves those around them, with their names. -/
theorem tags_abandonMany (stop count : Nat) (b : Builder) :
    (b.abandonMany stop count).stack.map (·.tag) = (b.stack.map (·.tag)).drop count := by
  induction count generalizing b with
  | zero => rfl
  | succ count ih => rw [abandonMany, ih, tags_abandon, List.drop_tail]

/-- The element that a closing tag finds is the innermost one when those inside of it are given
up. -/
theorem exists_stack_abandonMany {tag : Text} {depth : Nat} (stop : Nat)
    (h : (b.stack.findIdx? fun o => eqFolded o.tag tag) = some depth) :
    ∃ o below, (b.abandonMany stop depth).stack = o :: below ∧ eqFolded o.tag tag = true := by
  obtain ⟨hlt, hfound, -⟩ := List.findIdx?_eq_some_iff_getElem.1 h
  have htags := tags_abandonMany stop depth b
  rw [List.drop_eq_getElem_cons (by simpa using hlt)] at htags
  cases hs : (b.abandonMany stop depth).stack with
  | nil =>
    rw [hs] at htags
    cases htags
  | cons o below =>
    rw [hs, List.map_cons, List.cons.injEq, List.getElem_map] at htags
    exact ⟨o, below, rfl, by rw [htags.1]; exact hfound⟩

theorem PlacedUpTo.moves_closeTag {tag x : Text} {span : Span} (h : b.PlacedUpTo source place)
    (hle : place ≤ span.start) (hslice : span.slice? source = some x)
    (hx : IsClosingTag tag x) : Moves source b (b.closeTag tag span) := by
  have hspan := Span.within_of_slice? hslice
  unfold closeTag
  split
  · exact .single (.report (Issue.shown_of_slice hslice hx rfl) rfl)
  · rename_i depth hfind
    refine (h.moves_abandonMany hspan.first hle depth).tail ?_
    obtain ⟨o, below, hs, hname⟩ := exists_stack_abandonMany span.start hfind
    have hstack := (h.abandonMany hspan.first hle depth).stack
    rw [hs] at hstack
    exact .close hs hstack.1 hslice hx hname

end Builder

/-! ## Reading by moves -/

namespace Markup

open Builder (Moves PlacedUpTo)

variable {source : Text} {b : Builder}

theorem append_of_markOf_comment {t : Text} (h : markOf t = .comment) :
    ∃ rest, t = "<!--".toList ++ rest := by
  fun_cases markOf t <;> simp_all [markOf]

theorem append_of_markOf_interpolation {t : Text} (h : markOf t = .interpolation) :
    ∃ rest, t = "\x7b\x7b".toList ++ rest := by
  fun_cases markOf t <;> simp_all [markOf]

theorem append_of_markOf_closing {t : Text} (h : markOf t = .closing) :
    ∃ rest, t = ['<', '/'] ++ rest := by
  fun_cases markOf t <;> simp_all [markOf]

/-- The issue of a passage that does not end points at the mark that it begins with. -/
theorem moves_passage {c : Cursor} {mark rest : Text} (problem : Problem)
    (hc : (Cursor.mk 0 source).Reaches c) (hmark : c.rest = mark ++ rest)
    (hshown : problem.ShownBy mark) (hkind : (problem.code == "T1002") = false) (close : Text)
    (b : Builder) :
    Moves source b ((passage mark.length close problem c).1.foldl Builder.step b) := by
  unfold passage
  split
  · exact .refl
  · have hslice := slice?_between hc (Cursor.between_skip hmark)
    exact .single (.report (Issue.shown_of_slice hslice hshown hkind) hkind)

/-- **A closing tag stands wherever one is read.** -/
theorem closes_piece {c : Cursor} (hc : (Cursor.mk 0 source).Reaches c)
    (hm : markOf c.rest = .closing) :
    ∃ tag x, (piece c).1 = [.closing tag ⟨c.offset, (piece c).2.offset⟩] ∧
      slice? source c.offset (piece c).2.offset = some x ∧ IsClosingTag tag x := by
  have hpiece : piece c = closingTag c := by rw [piece_eq, hm]
  obtain ⟨rest, hrest⟩ := append_of_markOf_closing hm
  obtain ⟨x, hx, hend, hrun⟩ := Cursor.exists_between_skipPast '>' (c.skip 2)
  have hbetween : c.Between (['<', '/'] ++ x) (closingTag c).2 :=
    (Cursor.between_skip hrest).trans hx
  refine ⟨(c.skip 2).rest.takeWhile isTagPart, '<' :: '/' :: x, by rw [hpiece]; rfl, ?_, ?_, ?_⟩
  · rw [hpiece]
    exact slice?_between hc hbetween
  · refine ⟨x.dropWhile isTagPart, ?_, stops_dropWhile isTagPart x⟩
    rw [hrun isTagPart (by decide), List.takeWhile_append_dropWhile]
  · cases x with
    | nil => simp
    | cons ch x =>
      rw [List.dropLast_cons_cons, List.dropLast_cons_cons]
      simpa using hend

/-- The issues of an attribute are about a value that is not closed, and point at its quote. -/
theorem AttributeForm.shown_issues {f : AttributeForm} {rest before after : Text}
    (h : f.Fits rest) :
    ∀ i ∈ f.issues (width before),
      i.Shown (before ++ (f.text ++ after)) ∧ i.isUnclosed = false := by
  intro i hi
  cases hv : f.value with
  | none => simp [AttributeForm.issues, hv] at hi
  | some p =>
    have htext := AttributeForm.text_of_value hv
    have hform := (h.valued p hv).1
    simp only [AttributeForm.issues, hv, Option.map_some, Option.getD_some] at hi
    cases hp : p.form with
    | unquoted content => simp [hp, ValueForm.issues] at hi
    | quoted q content closed =>
      cases closed with
      | true => simp [hp, ValueForm.issues] at hi
      | false =>
        rw [hp] at hform hi
        obtain rfl : i = ⟨.unterminatedValue, _⟩ := by simpa [ValueForm.issues] using hi
        refine ⟨Issue.shown_of_slice (x := [q]) ?_ ?_ rfl, rfl⟩
        · refine slice?_eq_some (x := before ++ (f.name ++ p.separator)) (z := content ++ after)
            ?_ ?_ ?_
          · simp [htext, hp, ValueForm.opening, ValueForm.content, ValueForm.closing]
          · simp only [AttributeForm.valueStart, width_append]
            omega
          · simp only [AttributeForm.valueStart, width_append, width_cons, width_nil]
            omega
        · rcases hform.1 with rfl | rfl
          · exact .inl rfl
          · exact .inr rfl

theorem TagItems.shown_issues {items : TagItems} {rest before after : Text}
    (h : items.Fits rest) (hsource : source = before ++ (items.text ++ after)) :
    ∀ i ∈ items.issues (width before), i.Shown source ∧ i.isUnclosed = false := by
  induction items generalizing before with
  | nil =>
    intro i hi
    cases hi
  | cons first items ih =>
    obtain ⟨blanks, item⟩ := first
    obtain ⟨-, hitem, hitems⟩ := h
    intro i hi
    simp only [TagItems.issues, List.mem_append] at hi
    rcases hi with hi | hi
    · cases item with
      | slash => cases hi
      | attr form =>
        have hplace : source =
            (before ++ blanks) ++ (form.text ++ (TagItems.text items ++ after)) := by
          simp only [hsource, TagItems.text, TagItem.text, List.append_assoc]
        rw [hplace]
        refine AttributeForm.shown_issues hitem i ?_
        rw [width_append]
        exact hi
    · have hplace : source =
          (before ++ blanks ++ item.text) ++ (TagItems.text items ++ after) := by
        simp only [hsource, TagItems.text, List.append_assoc]
      refine ih hitems hplace i ?_
      rw [width_append, width_append]
      exact hi

/-- A start tag is read by moves. -/
theorem moves_tagEvents {tag rest before : Text} {f : TagForm} (hf : f.Fits rest)
    (hsource : source = before ++ '<' :: (tag ++ (f.text ++ rest))) (b : Builder) :
    Moves source b (((f.body (width before + 1 + width tag) rest).events tag
      (width before)).1.foldl Builder.step b) := by
  have hmark : '<'.utf8Size = 1 := by decide
  have hname : width (before ++ '<' :: tag) = width before + 1 + width tag := by
    simp only [width_append, width_cons, hmark]
    omega
  have hitems : source = (before ++ '<' :: tag) ++ (f.items.text ++ (f.close ++ rest)) := by
    simp only [hsource, TagForm.text, List.append_assoc, List.cons_append]
  have hshown := TagItems.shown_issues hf.items hitems
  rw [hname] at hshown
  have hissues := Builder.moves_issues hshown b
  simp only [TagBody.events, TagForm.body]
  cases hend : f.ending with
  | missing =>
    have hrest := hf.ending hend
    subst hrest
    rw [List.foldl_append]
    have htext : (Span.mk (width before)
        (width before + 1 + width tag + width f.text)).slice? source =
          some ('<' :: (tag ++ f.text)) := by
      refine slice?_eq_some (x := before) (z := []) ?_ rfl ?_
      · simp [hsource]
      · simp only [width_cons, width_append, hmark]
        omega
    have hstop : width before + 1 + width tag + width f.text = width source := by
      simp only [hsource, width_append, width_cons, width_nil, hmark]
      omega
    exact hissues.tail (.cutOff ⟨⟨_, htext, f, hf, hend, rfl⟩, fun _ _ => hstop⟩)
  | selfClosing =>
    rw [List.foldl_append]
    exact hissues.tail (.leaf rfl (.inl rfl))
  | complete =>
    dsimp only
    split
    · rename_i hvoid
      rw [List.foldl_append]
      exact hissues.tail (.leaf rfl (.inr hvoid))
    · rw [List.foldl_append]
      exact hissues.tail .opening

/-- **A piece is read by moves.** -/
theorem moves_piece {c : Cursor} (hc : (Cursor.mk 0 source).Reaches c)
    (h : b.PlacedUpTo source c.offset) :
    Moves source b ((piece c).1.foldl Builder.step b) := by
  cases hm : markOf c.rest with
  | comment =>
    obtain ⟨rest, hrest⟩ := append_of_markOf_comment hm
    rw [piece_eq, hm]
    exact moves_passage .unterminatedComment hc hrest rfl rfl _ b
  | interpolation =>
    obtain ⟨rest, hrest⟩ := append_of_markOf_interpolation hm
    rw [piece_eq, hm]
    exact moves_passage .unterminatedInterpolation hc hrest rfl rfl _ b
  | closing =>
    obtain ⟨tag, x, hpiece, hslice, hx⟩ := closes_piece hc hm
    rw [hpiece]
    exact h.moves_closeTag (Nat.le_refl _) hslice hx
  | declaration =>
    rw [piece_eq, hm]
    exact .refl
  | text =>
    rw [piece_eq, hm]
    exact .refl
  | start =>
    have hpiece : piece c = startTag c := by rw [piece_eq, hm]
    obtain ⟨first, u, hu, -⟩ := cons_of_markOf_start hm
    obtain ⟨tag, f, rest, ht, htag, hstop, hf⟩ := exists_startTag (first :: u)
    obtain ⟨before, hsource, hoffset⟩ := hc
    obtain ⟨offset, t⟩ := c
    simp only [Nat.zero_add] at hu hsource hoffset
    subst hoffset hu
    rw [ht] at hsource
    rw [hpiece, ht, startTag_form htag hstop hf]
    exact moves_tagEvents hf hsource b

theorem moves_events {c : Cursor} (hc : (Cursor.mk 0 source).Reaches c)
    (h : b.PlacedUpTo source c.offset) :
    Moves source b ((events c).foldl Builder.step b) := by
  fun_induction events c generalizing b with
  | case1 => exact .refl
  | case2 c _ ih =>
    rw [List.foldl_append]
    exact (moves_piece hc h).trans (ih (hc.trans (reaches_piece c)) (placed_piece hc h))

end Markup

/-- **A template is read by moves**: they lead from the empty forest to one in which nothing is
open, with the elements of the template as its roots and the issues of the template, both the last
one first. -/
theorem moves_parseTemplate (source : Text) :
    Builder.Moves source .empty
      ⟨[], (parseTemplate source).roots.reverse, (parseTemplate source).issues.reverse⟩ := by
  have hempty : Builder.empty.PlacedUpTo source 0 :=
    ⟨⟨[], source, rfl, rfl⟩, Span.inRow_nil _ _, fun e he => (by cases he)⟩
  have hread := Cursor.Reaches.refl ⟨0, source⟩
  have hbuilt := Markup.placed_events hread hempty
  have hmoves := (moves_events hread hempty).trans (hbuilt.moves_abandonMany
    (isBoundary_width source) (Nat.le_refl _)
    ((events ⟨0, source⟩).foldl Builder.step Builder.empty).stack.length)
  have hnil := Builder.stack_finish (width source)
    ((events ⟨0, source⟩).foldl Builder.step Builder.empty)
  unfold Builder.finish at hnil
  simp only [parseTemplate, List.reverse_reverse, Builder.finish]
  rw [← hnil]
  exact hmoves

end BindingToggle
