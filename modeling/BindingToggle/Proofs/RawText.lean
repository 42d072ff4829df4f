import BindingToggle.Proofs.BlockScan
import BindingToggle.Proofs.Nesting
import BindingToggle.Proofs.Site

/-!
# Raw text

The content of scripts, styles, text areas and titles is not markup. Behind the start tag of such an
element the reading goes on where its closing tag begins, and this tag ends the element, so there is
nothing inside of it. What begins like the closing tag may go on with a longer name, though. The
reading goes on there all the same, and from there on it takes what it meets for markup.

* `FalseEnd` — the place behind a start tag with raw text where such a longer name stands.
* `Builder.OpaqueUpTo` — the invariant of a forest that is being built: an open element with raw
  text can only take in others behind its false end.
* `Awaits` — in between, the innermost element may be one whose raw text has just been skipped. The
  next tag ends it, or is its false end (`reading_of_awaits`).
* `reading_piece` — a piece of the source keeps to this, and so does the reading of all of it
  (`endable_events`).
* `unmarked_rawText` — no element begins in raw text.
* `opaque_parseTemplate` — both together: no markup in raw text becomes part of the tree, and an
  element with raw text is empty, or has a false end in front of all that is inside of it.
-/

namespace BindingToggle

open Text Markup

/-- At `place` the raw text behind the start tag at `start` comes to what begins like its closing
tag, but is the closing tag of a longer name. -/
def FalseEnd (source tag : Text) (start place : Nat) : Prop :=
  ∃ (before : Text) (f : TagForm) (raw after : Text),
    source = before ++ '<' :: (tag ++ (f.text ++ (raw ++ after))) ∧
      Stops isTagPart (f.text ++ (raw ++ after)) ∧ f.Fits (raw ++ after) ∧ f.ending = .complete ∧
      start = width before ∧ place = width before + 1 + width tag + width f.text + width raw ∧
      breakOnFolded? ('<' :: '/' :: tag) (raw ++ after) = some (raw, after) ∧
      Block.startsWithTag ('<' :: '/' :: tag) after = false

/-- The raw text at the beginning of a text: what stands in front of the first closing tag of the
name in any case, or of one whose name only begins like it. Without such a tag it is all of the
text. -/
def rawTextOf (tag t : Text) : Text :=
  ((breakOnFolded? ('<' :: '/' :: tag) t).map (·.1)).getD t

namespace Element

/-- The element begins in the source with a start tag of the form `f`, and `rest` stands behind
that. -/
structure BeginsWith (source : Text) (e : Element) (f : TagForm) (rest : Text) : Prop where
  place : ∃ before, source = before ++ '<' :: (e.tag ++ (f.text ++ rest)) ∧
    width before = e.span.start
  stops : Stops isTagPart (f.text ++ rest)
  fits : f.Fits rest

/-- If the element has raw text, then nothing is inside of it in front of a false end. -/
def Opaque (source : Text) (e : Element) : Prop :=
  isRawText e.tag = true → e.children = [] ∨
    ∃ place, FalseEnd source e.tag e.span.start place ∧ ∀ c ∈ e.children, place ≤ c.span.start

/-- All elements of a forest are opaque. -/
def AllOpaque (source : Text) (es : List Element) : Prop := ∀ e ∈ preorderAll es, e.Opaque source

theorem allOpaque_cons {source : Text} {e : Element} {es : List Element} :
    AllOpaque source (e :: es) ↔
      e.Opaque source ∧ AllOpaque source e.children ∧ AllOpaque source es :=
  forall_mem_preorderAll_cons

theorem allOpaque_nil (source : Text) : AllOpaque source [] := fun _ he => nomatch he

theorem allOpaque_reverse {source : Text} {es : List Element} :
    AllOpaque source es.reverse ↔ AllOpaque source es := by
  simp only [AllOpaque, mem_preorderAll_reverse]

/-- An element with nothing inside of it is opaque. -/
theorem allOpaque_leaf {source : Text} {e : Element} (h : e.children = []) :
    AllOpaque source [e] := by
  refine allOpaque_cons.2 ⟨fun _ => .inl h, ?_, allOpaque_nil source⟩
  rw [h]
  exact allOpaque_nil source

end Element

open Element (AllOpaque allOpaque_cons allOpaque_nil allOpaque_reverse allOpaque_leaf)

/-! ## Forests that are being built -/

/-- An element at `place` or behind it may be put into the open element: if it has raw text, its
false end has been passed. -/
structure OpenElement.Takes (source : Text) (place : Nat) (o : OpenElement) : Prop where
  start_le : o.start ≤ place
  raw : isRawText o.tag = true → ∃ falseEnd, FalseEnd source o.tag o.start falseEnd ∧
    falseEnd ≤ place ∧ ∀ c ∈ o.children, falseEnd ≤ c.span.start
  inner : AllOpaque source o.children

namespace OpenElement.Takes

variable {source : Text} {place place' : Nat} {o : OpenElement}

theorem mono (h : o.Takes source place) (hle : place ≤ place') : o.Takes source place' := by
  refine ⟨h.start_le.trans hle, ?_, h.inner⟩
  intro hraw
  obtain ⟨falseEnd, hfalse, hplace, hchildren⟩ := h.raw hraw
  exact ⟨falseEnd, hfalse, hplace.trans hle, hchildren⟩

theorem add {e : Element} (h : o.Takes source place) (he : AllOpaque source [e])
    (hlow : place ≤ e.span.start) (hle : place ≤ place') :
    OpenElement.Takes source place' { o with children := e :: o.children } := by
  refine ⟨h.start_le.trans hle, ?_, ?_⟩
  · intro hraw
    obtain ⟨falseEnd, hfalse, hplace, hchildren⟩ := h.raw hraw
    exact ⟨falseEnd, hfalse, hplace.trans hle,
      List.forall_mem_cons.2 ⟨hplace.trans hlow, hchildren⟩⟩
  · obtain ⟨hself, hinner, -⟩ := allOpaque_cons.1 he
    exact allOpaque_cons.2 ⟨hself, hinner, h.inner⟩

theorem close (h : o.Takes source place) (stop : Nat) : AllOpaque source [o.close stop] := by
  refine allOpaque_cons.2 ⟨?_, allOpaque_reverse.2 h.inner, allOpaque_nil source⟩
  intro hraw
  obtain ⟨falseEnd, hfalse, -, hchildren⟩ := h.raw hraw
  exact .inr ⟨falseEnd, hfalse, fun c hc => hchildren c (List.mem_reverse.1 hc)⟩

end OpenElement.Takes

namespace Builder

/-- Open elements, the innermost first, when the reading has come to `place`. Each may take in an
element that begins there, or where the one inside of it does. -/
def StackOpaque (source : Text) (roots : List Element) : Nat → List OpenElement → Prop
  | _, [] => AllOpaque source roots
  | place, o :: below => o.Takes source place ∧ StackOpaque source roots o.start below

/-- The forest as far as it has been built, up to `place`, is opaque. -/
def OpaqueUpTo (source : Text) (place : Nat) (b : Builder) : Prop :=
  StackOpaque source b.roots place b.stack

/-- The same without the innermost open element, which may not take in anything yet, but could be
ended. -/
inductive EndableUpTo (source : Text) (place : Nat) (b : Builder) : Prop
  | nil (hs : b.stack = []) (h : AllOpaque source b.roots)
  | cons {o : OpenElement} {below : List OpenElement} (hs : b.stack = o :: below)
      (hstart : o.start ≤ place) (ho : ∀ stop, AllOpaque source [o.close stop])
      (h : StackOpaque source b.roots o.start below)

variable {source : Text} {place place' : Nat} {b : Builder}

theorem StackOpaque.mono {roots : List Element} {stack : List OpenElement}
    (h : StackOpaque source roots place stack) (hle : place ≤ place') :
    StackOpaque source roots place' stack := by
  cases stack with
  | nil => exact h
  | cons o below => exact ⟨h.1.mono hle, h.2⟩

theorem OpaqueUpTo.mono (h : b.OpaqueUpTo source place) (hle : place ≤ place') :
    b.OpaqueUpTo source place' := StackOpaque.mono h hle

theorem OpaqueUpTo.endable (h : b.OpaqueUpTo source place) : b.EndableUpTo source place := by
  unfold OpaqueUpTo at h
  cases hs : b.stack with
  | nil =>
    rw [hs] at h
    exact .nil hs h
  | cons o below =>
    rw [hs] at h
    exact .cons hs h.1.start_le h.1.close h.2

theorem EndableUpTo.mono (h : b.EndableUpTo source place) (hle : place ≤ place') :
    b.EndableUpTo source place' := by
  cases h with
  | nil hs h => exact .nil hs h
  | cons hs hstart ho h => exact .cons hs (hstart.trans hle) ho h

/-- An element is taken in behind everything else. -/
theorem OpaqueUpTo.add {e : Element} (h : b.OpaqueUpTo source place) (he : AllOpaque source [e])
    (hlow : place ≤ e.span.start) (hle : place ≤ place') : (b.add e).OpaqueUpTo source place' := by
  unfold OpaqueUpTo at h
  unfold Builder.add
  split
  · rename_i hs
    rw [hs] at h
    obtain ⟨hself, hinner, -⟩ := allOpaque_cons.1 he
    show StackOpaque source (e :: b.roots) place' b.stack
    rw [hs]
    exact allOpaque_cons.2 ⟨hself, hinner, h⟩
  · rename_i o below hs
    rw [hs] at h
    exact ⟨h.1.add he hlow hle, h.2⟩

/-- The innermost open element ends, with or without a report. -/
theorem EndableUpTo.pop {o : OpenElement} {below : List OpenElement} {stop : Nat}
    (h : b.EndableUpTo source place) (hs : b.stack = o :: below) (hle : place ≤ stop) :
    ({ b with stack := below }.add (o.close stop)).OpaqueUpTo source stop := by
  cases h with
  | nil hnil =>
    rw [hs] at hnil
    cases hnil
  | cons hs' hstart ho h =>
    rw [hs] at hs'
    cases hs'
    exact OpaqueUpTo.add h (ho stop) (Nat.le_refl _) (hstart.trans hle)

theorem EndableUpTo.report (h : b.EndableUpTo source place) (i : Issue) :
    (b.report i).EndableUpTo source place := by
  cases h with
  | nil hs h => exact .nil hs h
  | cons hs hstart ho h => exact .cons hs hstart ho h

theorem EndableUpTo.opaque_of_nil (h : b.EndableUpTo source place) (hs : b.stack = []) :
    b.OpaqueUpTo source place' := by
  cases h with
  | nil _ h =>
    unfold OpaqueUpTo
    rw [hs]
    exact h
  | cons hs' =>
    rw [hs] at hs'
    cases hs'

theorem EndableUpTo.close {stop : Nat} (h : b.EndableUpTo source place) (hle : place ≤ stop) :
    (b.close stop).OpaqueUpTo source stop := by
  unfold Builder.close
  split
  · rename_i hs
    exact h.opaque_of_nil hs
  · rename_i hs
    exact h.pop hs hle

theorem EndableUpTo.abandonMany {stop : Nat} (h : b.EndableUpTo source place)
    (hle : place ≤ stop) (count : Nat) :
    (b.abandonMany stop count).EndableUpTo source stop := by
  induction count generalizing b place with
  | zero => exact h.mono hle
  | succ count ih =>
    have habandon : (b.abandon stop).OpaqueUpTo source stop := by
      unfold abandon
      split
      · rename_i hs
        exact h.opaque_of_nil hs
      · rename_i o below hs
        exact (h.report o.unclosed).pop hs hle
    exact ih habandon.endable (Nat.le_refl _)

/-- A closing tag that finds its element. -/
theorem EndableUpTo.closeTag {tag : Text} {span : Span} {depth : Nat}
    (h : b.EndableUpTo source place) (hlow : place ≤ span.start) (hspan : span.start ≤ span.stop)
    (hfind : (b.stack.findIdx? fun o => eqFolded o.tag tag) = some depth) :
    (b.closeTag tag span).OpaqueUpTo source span.stop := by
  unfold Builder.closeTag
  rw [hfind]
  exact (h.abandonMany hlow depth).close hspan

theorem OpaqueUpTo.closeTag {tag : Text} {span : Span} (h : b.OpaqueUpTo source place)
    (hlow : place ≤ span.start) (hspan : span.start ≤ span.stop) :
    (b.closeTag tag span).OpaqueUpTo source span.stop := by
  cases hfind : b.stack.findIdx? fun o => eqFolded o.tag tag with
  | none =>
    unfold Builder.closeTag
    rw [hfind]
    exact h.mono (hlow.trans hspan)
  | some depth => exact h.endable.closeTag hlow hspan hfind

theorem foldl_issues (is : List Issue) (b : Builder) :
    (is.map Event.issue).foldl step b = { b with issues := is.reverse ++ b.issues } := by
  induction is generalizing b with
  | nil => rfl
  | cons i is ih =>
    rw [List.map_cons, List.foldl_cons, ih]
    simp [step, report]

end Builder

/-! ## Reading -/

namespace Markup

variable {source : Text} {b : Builder}

/-- The raw text of the open element has just been skipped: the cursor stands at the end of the
text, at the closing tag of the element, or at its false end. -/
structure Awaits (source : Text) (c : Cursor) (o : OpenElement) : Prop where
  children : o.children = []
  start_le : o.start ≤ c.offset
  tag : ∀ ch ∈ o.tag, isTagPart ch = true
  stops : c.rest = [] ∨ Block.startsWithTag ('<' :: '/' :: o.tag) c.rest = true ∨
    (markOf c.rest = .closing ∧ FalseEnd source o.tag o.start c.offset)

/-- The forest that has been built when the reading has come to a cursor. -/
inductive Reading (source : Text) (c : Cursor) (b : Builder) : Prop
  | free (h : b.OpaqueUpTo source c.offset)
  | awaits {o : OpenElement} {below : List OpenElement} (hs : b.stack = o :: below)
      (ho : Awaits source c o) (h : Builder.StackOpaque source b.roots o.start below)

theorem Reading.endable {c : Cursor} (h : Reading source c b) :
    b.EndableUpTo source c.offset := by
  cases h with
  | free h => exact h.endable
  | awaits hs ho h =>
    refine .cons hs ho.start_le (fun stop => allOpaque_leaf ?_) h
    rw [OpenElement.close, ho.children]
    rfl

theorem toLower_eq_self {c : Char} (h : c.isAlpha = false) : c.toLower = c := by
  unfold Char.toLower
  split
  · rename_i hupper
    simp [isAlpha_eq_ranges] at h
    grind
  · rfl

/-- The spellings of a tag's name consist of characters of names. -/
theorem isTagPart_of_lower_eq {name tag : Text} (h : lower name = lower tag)
    (ht : ∀ ch ∈ tag, isTagPart ch = true) : ∀ ch ∈ name, isTagPart ch = true := by
  intro ch hch
  by_contra hpart
  -- the characters that end a name are no letters, so they stand in all spellings
  have halpha : ch.isAlpha = false := by
    rw [Bool.eq_false_iff]
    exact fun halpha => hpart (isTagPart_of_isAlpha halpha)
  exact hpart (ht ch (mem_of_lower_eq halpha (toLower_eq_self halpha) h hch))

/-- A closing tag of the name `tag`, in any case. -/
theorem closing_of_startsWithTag {tag : Text} {c : Cursor} (ht : ∀ ch ∈ tag, isTagPart ch = true)
    (h : Block.startsWithTag ('<' :: '/' :: tag) c.rest = true) :
    markOf c.rest = .closing ∧ eqFolded tag ((c.skip 2).rest.takeWhile isTagPart) = true := by
  obtain ⟨spelling, after, heq, hspelling, hend⟩ := Block.startsWithTag_iff.1 h
  have hfold := eqFolded_iff.1 hspelling
  rcases spelling with _ | ⟨x, _ | ⟨y, name⟩⟩
  · cases hfold
  · simp at hfold
  simp only [lower_cons, List.cons.injEq] at hfold
  obtain ⟨hx, hy, hname⟩ := hfold
  obtain rfl : x = '<' := eq_of_toLower_eq (by decide) hx
  obtain rfl : y = '/' := eq_of_toLower_eq (by decide) hy
  have hrest : (c.skip 2).rest = name ++ after := by simp [Cursor.skip, heq]
  rw [hrest, takeWhile_run (isTagPart_of_lower_eq hname ht) (Block.stops_of_atNameEnd hend)]
  exact ⟨by rw [heq]; rfl, eqFolded_iff.2 hname.symm⟩

theorem piece_closing {c : Cursor} (h : markOf c.rest = .closing) :
    piece c = ([.closing ((c.skip 2).rest.takeWhile isTagPart) ⟨c.offset, (piece c).2.offset⟩],
      (piece c).2) := by
  have hpiece : piece c = closingTag c := by rw [piece_eq, h]
  rw [hpiece]
  rfl

/-- A closing tag leaves a forest opaque that could take in what begins at it. -/
theorem opaque_closing {c : Cursor} (hm : markOf c.rest = .closing)
    (h : b.OpaqueUpTo source c.offset) :
    ((piece c).1.foldl Builder.step b).OpaqueUpTo source (piece c).2.offset := by
  rw [piece_closing hm]
  exact h.closeTag (Nat.le_refl _) (reaches_piece c).offset_le

/-- **Behind raw text** the next tag ends the element, or is its false end. -/
theorem reading_of_awaits {c : Cursor} {o : OpenElement} {below : List OpenElement}
    (hc : c.rest ≠ []) (hs : b.stack = o :: below) (ho : Awaits source c o)
    (h : Builder.StackOpaque source b.roots o.start below) :
    ((piece c).1.foldl Builder.step b).OpaqueUpTo source (piece c).2.offset := by
  rcases ho.stops with hnil | hend | ⟨hm, hfalse⟩
  · exact absurd hnil hc
  · obtain ⟨hm, hname⟩ := closing_of_startsWithTag ho.tag hend
    have hfind : (b.stack.findIdx? fun o =>
        eqFolded o.tag ((c.skip 2).rest.takeWhile isTagPart)) = some 0 := by
      rw [hs, List.findIdx?_cons, if_pos hname]
    rw [piece_closing hm]
    exact (Reading.awaits hs ho h).endable.closeTag (Nat.le_refl _) (reaches_piece c).offset_le
      hfind
  · refine opaque_closing hm ?_
    unfold Builder.OpaqueUpTo
    rw [hs]
    refine ⟨⟨ho.start_le, fun _ => ⟨c.offset, hfalse, Nat.le_refl _, ?_⟩, ?_⟩, h⟩
    · rw [ho.children]
      exact List.forall_mem_nil _
    · rw [ho.children]
      exact allOpaque_nil source

/-- Behind the start tag of an element with raw text its closing tag is awaited. -/
theorem awaits_skipRawText {tag rest before : Text} {f : TagForm} {attributes : List Attribute}
    (htag : ∀ ch ∈ tag, isTagPart ch = true) (hstop : Stops isTagPart (f.text ++ rest))
    (hf : f.Fits rest) (hcomplete : f.ending = .complete)
    (hsource : source = before ++ '<' :: (tag ++ (f.text ++ rest))) :
    Awaits source (skipRawText tag ⟨width before + 1 + width tag + width f.text, rest⟩)
      ⟨tag, width before, attributes, []⟩ := by
  have hreaches := (reaches_skipRawText tag
    ⟨width before + 1 + width tag + width f.text, rest⟩).offset_le
  refine ⟨rfl, ?_, htag, ?_⟩
  · show width before ≤ _
    have hle : width before + 1 + width tag + width f.text ≤
        (skipRawText tag ⟨width before + 1 + width tag + width f.text, rest⟩).offset := hreaches
    omega
  · unfold skipRawText Cursor.findFolded?
    cases hb : breakOnFolded? ('<' :: '/' :: tag) rest with
    | none => exact .inl rfl
    | some sides =>
      obtain ⟨raw, after⟩ := sides
      have hrest : raw ++ after = rest := append_of_breakAt? hb
      simp only [Option.map_some, Option.getD_some]
      by_cases hend : Block.startsWithTag ('<' :: '/' :: tag) after = true
      · exact .inr (.inl hend)
      · obtain ⟨name, u, hafter, -⟩ :=
          exists_name_of_startsWithFolded htag (holds_of_breakAt? hb)
        rw [← hrest] at hb hstop hf hsource
        refine .inr (.inr ⟨by rw [hafter]; rfl, ?_⟩)
        exact ⟨before, f, raw, after, hsource, hstop, hf, hcomplete, rfl, rfl, hb,
          Bool.eq_false_iff.2 hend⟩

/-- The events of a start tag in a forest that could take in its element. -/
theorem reading_tagEvents {tag rest before : Text} {f : TagForm}
    (h : b.OpaqueUpTo source (width before)) (htag : ∀ ch ∈ tag, isTagPart ch = true)
    (hstop : Stops isTagPart (f.text ++ rest)) (hf : f.Fits rest)
    (hsource : source = before ++ '<' :: (tag ++ (f.text ++ rest))) :
    let read := (f.body (width before + 1 + width tag) rest).events tag (width before)
    Reading source read.2 (read.1.foldl Builder.step b) := by
  intro read
  have hle : width before ≤ read.2.offset := by
    have hreaches : width before + 1 + width tag + width f.text ≤ read.2.offset :=
      (TagBody.reaches_events tag (width before)
        (f.body (width before + 1 + width tag) rest)).offset_le
    omega
  obtain ⟨is, last, hevents, hlast⟩ := TagBody.events_cases tag (width before)
    (f.body (width before + 1 + width tag) rest)
  rw [show read.1 = is.map Event.issue ++ [last] from hevents, List.foldl_append,
    Builder.foldl_issues]
  rcases hlast with ⟨selfClosing, rfl⟩ | ⟨hcomplete, rfl, hafter⟩
  · exact .free (Builder.OpaqueUpTo.add h (allOpaque_leaf rfl) (Nat.le_refl _) hle)
  · cases hraw : isRawText tag with
    | false =>
      refine .free ⟨⟨hle, ?_, allOpaque_nil source⟩, h⟩
      intro htrue
      rw [hraw] at htrue
      cases htrue
    | true =>
      have hread : read.2 = skipRawText tag
          ⟨width before + 1 + width tag + width f.text, rest⟩ := by
        rw [hraw, if_pos rfl] at hafter
        exact hafter
      rw [hread]
      exact .awaits rfl (awaits_skipRawText htag hstop hf hcomplete hsource) h

/-- **A piece** is taken in by a forest that has been built up to it. -/
theorem reading_piece {c : Cursor} (hc : (Cursor.mk 0 source).Reaches c) (hne : c.rest ≠ [])
    (h : Reading source c b) :
    Reading source (piece c).2 ((piece c).1.foldl Builder.step b) := by
  cases h with
  | awaits hs ho h => exact .free (reading_of_awaits hne hs ho h)
  | free h =>
    have hle := (reaches_piece c).offset_le
    have hnone : ∀ is : List Issue, (piece c).1 = is.map Event.issue →
        Reading source (piece c).2 ((piece c).1.foldl Builder.step b) := by
      intro is his
      rw [his, Builder.foldl_issues]
      exact .free (Builder.OpaqueUpTo.mono h hle)
    cases hm : markOf c.rest with
    | comment =>
      obtain ⟨is, his⟩ := issues_passage 4 "-->".toList .unterminatedComment c
      exact hnone is (by rw [piece_eq, hm, his])
    | interpolation =>
      obtain ⟨is, his⟩ := issues_passage 2 "\x7d\x7d".toList .unterminatedInterpolation c
      exact hnone is (by rw [piece_eq, hm, his])
    | closing => exact .free (opaque_closing hm h)
    | declaration => exact hnone [] (by rw [piece_eq, hm]; rfl)
    | text => exact hnone [] (by rw [piece_eq, hm]; rfl)
    | start =>
      have hpiece : piece c = startTag c := by rw [piece_eq, hm]
      obtain ⟨first, u, hu, -⟩ := cons_of_markOf_start hm
      obtain ⟨tag, f, rest, ht, htag, hstop, hf⟩ := exists_startTag (first :: u)
      obtain ⟨before, hsource, hoffset⟩ := hc
      obtain ⟨offset, t⟩ := c
      simp only [Nat.zero_add] at hu hsource hoffset
      subst hoffset hu
      rw [ht] at hsource
      rw [hpiece, ht, startTag_form htag hstop hf]
      exact reading_tagEvents h htag hstop hf hsource

/-- Reading a template leaves a forest whose open elements can be ended. -/
theorem endable_events {c : Cursor} (hc : (Cursor.mk 0 source).Reaches c)
    (h : Reading source c b) :
    ((events c).foldl Builder.step b).EndableUpTo source (width source) := by
  fun_induction events c generalizing b with
  | case1 c _ => exact h.endable.mono (isBoundary_of_reaches hc).le_width
  | case2 c hne ih =>
    rw [List.foldl_append]
    exact ih (hc.trans (reaches_piece c)) (reading_piece hc hne h)

end Markup

/-! ## Templates -/

theorem isVoid_of_isRawText {tag : Text} (h : isRawText tag = true) : isVoid tag = false := by
  have hnames : rawTextTags.all (fun name => !voidTags.contains name) = true := by decide +kernel
  have hname := List.all_eq_true.1 hnames _ (List.contains_iff_mem.1 h)
  exact Bool.eq_false_of_not_eq_true' hname

theorem offset_skipRawText (tag : Text) (c : Cursor) :
    (skipRawText tag c).offset = c.offset + width (rawTextOf tag c.rest) := by
  unfold skipRawText Cursor.findFolded? rawTextOf
  cases breakOnFolded? ('<' :: '/' :: tag) c.rest <;> rfl

/-- Behind a complete start tag with raw text, the reading goes on where the raw text ends. -/
theorem TagBody.offset_events {tag : Text} {body : TagBody} (hraw : isRawText tag = true)
    (hcomplete : body.ending = .complete) (start : Nat) :
    (body.events tag start).2.offset =
      body.after.offset + width (rawTextOf tag body.after.rest) := by
  unfold TagBody.events
  rw [hcomplete]
  simp only [isVoid_of_isRawText hraw, hraw, if_true, Bool.false_eq_true, if_false,
    offset_skipRawText]

/-- **No element begins in raw text.** What follows the start tag of an element with raw text begins
behind that text. -/
theorem unmarked_rawText {source : Text} {e : Element}
    (he : e ∈ (parseTemplate source).elements) (hraw : isRawText e.tag = true) :
    ∃ f rest, e.BeginsWith source f rest ∧ (f.ending = .complete →
      ∀ x ∈ (parseTemplate source).elements, x.span.start ≤ e.span.start ∨
        e.span.start + 1 + width e.tag + width f.text + width (rawTextOf e.tag rest) ≤
          x.span.start) := by
  have hheads : ∀ x ∈ (parseTemplate source).elements,
      x.head ∈ (events ⟨0, source⟩).flatMap Event.heads :=
    fun x hx => (perm_heads source).mem_iff.1 (List.mem_map_of_mem hx)
  obtain ⟨es, d, hpasses, hm, hhead⟩ := exists_passes_of_head (hheads e he)
  have hne : d.rest ≠ [] := by
    intro hnil
    rw [hnil] at hm
    cases hm
  have hpiece : piece d = startTag d := by rw [piece_eq, hm]
  -- the events of the source are those in front of the tag, its own, and those behind the raw text
  have hevents : events ⟨0, source⟩ = es ++ ((startTag d).1 ++ events (startTag d).2) := by
    rw [hpasses.events_eq, events_of_ne_nil hne, hpiece]
  have hstart : e.span.start = d.offset := start_of_mem_startTag hm hhead
  obtain ⟨first, u, hu, -⟩ := cons_of_markOf_start hm
  obtain ⟨tag, f, rest, ht, htag, hstop, hf⟩ := exists_startTag (first :: u)
  obtain ⟨before, hsource, hoffset⟩ := hpasses.reaches
  obtain ⟨offset, t⟩ := d
  simp only [Nat.zero_add] at hu hsource hoffset hstart
  subst hu
  rw [ht] at hsource hhead hevents
  rw [startTag_form htag hstop hf] at hhead hevents
  rw [heads_events, List.mem_singleton] at hhead
  obtain rfl : e.tag = tag := congrArg Element.Head.tag hhead
  refine ⟨f, rest, ⟨⟨before, hsource, hoffset.symm.trans hstart.symm⟩, hstop, hf⟩, ?_⟩
  intro hcomplete x hx
  have hx := hheads x hx
  rw [hevents, List.flatMap_append, List.mem_append, List.flatMap_append, List.mem_append] at hx
  rcases hx with hx | hx | hx
  · exact .inl ((hpasses.start_le hx).trans (Nat.le_of_eq hstart.symm))
  · rw [heads_events, List.mem_singleton] at hx
    exact .inl (Nat.le_of_eq ((congrArg Element.Head.start hx).trans hstart.symm))
  · have hle := le_start_of_mem_events hx
    rw [TagBody.offset_events hraw hcomplete] at hle
    rw [hstart]
    exact .inr hle

/-- What an element with raw text has inside of it begins behind its false end. -/
theorem children_rawText {source : Text} {e : Element}
    (he : e ∈ (parseTemplate source).elements) (hraw : isRawText e.tag = true) :
    e.children = [] ∨
      ∃ place, FalseEnd source e.tag e.span.start place ∧
        ∀ c ∈ e.children, place ≤ c.span.start := by
  have hempty : Reading source ⟨0, source⟩ Builder.empty := .free (allOpaque_nil source)
  have hbuilt := endable_events (Cursor.Reaches.refl ⟨0, source⟩) hempty
  have hfinished := hbuilt.abandonMany (Nat.le_refl _)
    ((events ⟨0, source⟩).foldl Builder.step Builder.empty).stack.length
  have hnil := Builder.stack_finish (width source)
    ((events ⟨0, source⟩).foldl Builder.step Builder.empty)
  cases hfinished with
  | nil _ h => exact h e (Element.mem_preorderAll_reverse.1 he) hraw
  | cons hs =>
    rw [Builder.finish, hs] at hnil
    cases hnil

/-- **Raw text is opaque**: no element of the template begins in the raw text of another one, which
goes from the end of a complete start tag to the first closing tag of its name in any case, or one
with a longer name, or to the end. An element with raw text has nothing inside of it, unless its
text comes to a false end, and then all that is inside of it begins there or behind. -/
theorem opaque_parseTemplate {source : Text} {e : Element}
    (he : e ∈ (parseTemplate source).elements) (hraw : isRawText e.tag = true) :
    (∃ f rest, e.BeginsWith source f rest ∧ (f.ending = .complete →
      ∀ x ∈ (parseTemplate source).elements, x.span.start ≤ e.span.start ∨
        e.span.start + 1 + width e.tag + width f.text + width (rawTextOf e.tag rest) ≤
          x.span.start)) ∧
      (e.children = [] ∨
        ∃ place, FalseEnd source e.tag e.span.start place ∧
          ∀ c ∈ e.children, place ≤ c.span.start) :=
  ⟨unmarked_rawText he hraw, children_rawText he hraw⟩

/-- A title whose text comes to the closing tag of a longer name: `i` is not an element, and `b` is
inside of the title, behind that tag. -/
theorem opaque_parseTemplate_longer :
    let source : Text := "<title><i></i></titles><b></b></title>".toList
    ∃ e ∈ (parseTemplate source).elements,
      isRawText e.tag = true ∧ e.children.map (·.tag) = ["b".toList] ∧
      (∃ f rest, e.BeginsWith source f rest ∧ (f.ending = .complete →
        ∀ x ∈ (parseTemplate source).elements, x.span.start ≤ e.span.start ∨
          e.span.start + 1 + width e.tag + width f.text + width (rawTextOf e.tag rest) ≤
            x.span.start)) ∧
      ∃ place, FalseEnd source e.tag e.span.start place ∧
        ∀ c ∈ e.children, place ≤ c.span.start := by
  intro source
  have hread : (parseTemplate source).elements.map
      (fun e => (isRawText e.tag, e.children.map (·.tag))) =
      [(true, ["b".toList]), (false, [])] := by
    decide +kernel
  have hmem : (true, ["b".toList]) ∈ (parseTemplate source).elements.map
      (fun e => (isRawText e.tag, e.children.map (·.tag))) := by
    rw [hread]
    exact List.mem_cons_self
  obtain ⟨e, he, heq⟩ := List.mem_map.1 hmem
  obtain ⟨hraw, hchildren⟩ := Prod.mk.inj heq
  obtain ⟨hunmarked, hinner⟩ := opaque_parseTemplate he hraw
  refine ⟨e, he, hraw, hchildren, hunmarked, ?_⟩
  rcases hinner with hnil | hfalse
  · rw [hnil] at hchildren
    cases hchildren
  · exact hfalse

/-- The tag in the text of a script is not an element, with a closing tag or without one. -/
example :
    (parseTemplate "<script>'<b>'</SCRIPT><p></p><style><i>".toList).elements.map
      (fun e => (e.tag, e.span.start)) =
        [("script".toList, 0), ("p".toList, 22), ("style".toList, 29)] := by
  decide +kernel

/-- An element with raw text that has an element inside of it. -/
theorem rawText_with_child :
    ∃ e ∈ (parseTemplate "<title></titles><b></b></title>".toList).elements,
      isRawText e.tag = true ∧ e.children ≠ [] := by
  have hread : (parseTemplate "<title></titles><b></b></title>".toList).elements.any
      (fun e => isRawText e.tag && !e.children.isEmpty) = true := by
    decide +kernel
  obtain ⟨e, he, hboth⟩ := List.any_eq_true.1 hread
  simp only [Bool.and_eq_true, Bool.not_eq_true', List.isEmpty_eq_false_iff] at hboth
  exact ⟨e, he, hboth⟩

end BindingToggle
