import BindingToggle.Diagnostic
import BindingToggle.Template.Element
import BindingToggle.Text.Blank
import BindingToggle.Text.Cursor

/-!
# Reading markup

A template is read once from left to right, as a list of events: elements that open, elements that
close, elements that are complete at once, and issues. Text, comments, declarations and
interpolations between tags leave no event.

`Markup.piece` reads one of these and always moves ahead (`length_piece_lt`), so `Markup.events`
ends. Inside a start tag the same holds of `Markup.attributeAt`.

Models the reading part of `parse_template`: `startTag` is `parse_start_tag`, `attributeAt` is
`parse_attribute` with `parse_attribute_value`, `passage` is `skip_comment` and
`skip_interpolation`, `skipRawText` is `skip_raw_text`, and `closingTag` is what `parse_close_tag`
reads.
-/

namespace BindingToggle

namespace Markup

/-! ## Elements by name -/

/-- Elements that have no content and no closing tag. -/
def voidTags : List Text :=
  ["area", "base", "br", "col", "embed", "hr", "img", "input", "link", "meta", "param", "source",
    "track", "wbr"].map String.toList

/-- Elements whose content is not markup. -/
def rawTextTags : List Text := ["script", "style", "textarea", "title"].map String.toList

def isVoid (tag : Text) : Bool := voidTags.contains (Text.lower tag)

def isRawText (tag : Text) : Bool := rawTextTags.contains (Text.lower tag)

/-! ## Attributes -/

/-- Characters of a tag's name. -/
def isTagPart (c : Char) : Bool := !Text.isMarkupBlank c && c != '/' && c != '>'

/-- Characters of an attribute's name behind its first one, which may be any. -/
def isAttributePart (c : Char) : Bool :=
  !Text.isMarkupBlank c && c != '/' && c != '>' && c != '='

/-- Characters of a value without quotes. -/
def isUnquotedPart (c : Char) : Bool := !Text.isMarkupBlank c && c != '>'

/-- What was read at a cursor, the issues found on the way, and the place behind it. -/
structure Read (α : Type) where
  found : α
  issues : List Issue
  after : Cursor
  deriving DecidableEq, Repr, Inhabited

/-- The value in quotes that begins at the cursor with `quote`. Without a second quote it goes on to
the end of the text. -/
def quotedValue (quote : Char) (c : Cursor) : Read AttributeValue :=
  let opened := c.skip 1
  let closing := opened.skipWhile (· != quote)
  let after := closing.skip 1
  { found :=
      { content := opened.rest.takeWhile (· != quote)
        quote := some quote
        span := ⟨c.offset, after.offset⟩
        contentSpan := ⟨opened.offset, closing.offset⟩ }
    issues :=
      if closing.rest.isEmpty then [⟨.unterminatedValue, ⟨c.offset, opened.offset⟩⟩] else []
    after }

/-- The value without quotes that begins at the cursor. -/
def unquotedValue (c : Cursor) : Read AttributeValue :=
  let after := c.skipWhile isUnquotedPart
  let span : Span := ⟨c.offset, after.offset⟩
  ⟨⟨c.rest.takeWhile isUnquotedPart, none, span, span⟩, [], after⟩

/-- The value that begins at the cursor. -/
def valueAt (c : Cursor) : Read AttributeValue :=
  match c.rest with
  | '"' :: _ => quotedValue '"' c
  | '\'' :: _ => quotedValue '\'' c
  | _ => unquotedValue c

/-- The name of the attribute that begins at the cursor. -/
def attributeName (c : Cursor) : Text :=
  c.rest.take 1 ++ (c.skip 1).rest.takeWhile isAttributePart

/-- The attribute that begins at the cursor. -/
def attributeAt (c : Cursor) : Read Attribute :=
  let afterName := (c.skip 1).skipWhile isAttributePart
  let mark := afterName.skipWhile Text.isMarkupBlank
  match mark.rest with
  | '=' :: _ =>
    let value := valueAt ((mark.skip 1).skipWhile Text.isMarkupBlank)
    ⟨Attribute.of (attributeName c) c.offset (some value.found), value.issues, value.after⟩
  | _ => ⟨Attribute.of (attributeName c) c.offset none, [], afterName⟩

theorem reaches_quotedValue (quote : Char) (c : Cursor) : c.Reaches (quotedValue quote c).after :=
  ((Cursor.reaches_skip 1 c).trans (Cursor.reaches_skipWhile (· != quote) _)).trans
    (Cursor.reaches_skip 1 _)

theorem reaches_valueAt (c : Cursor) : c.Reaches (valueAt c).after := by
  unfold valueAt
  split
  · exact reaches_quotedValue _ c
  · exact reaches_quotedValue _ c
  · exact Cursor.reaches_skipWhile _ c

theorem reaches_attributeAt (c : Cursor) : (c.skip 1).Reaches (attributeAt c).after := by
  have hn := Cursor.reaches_skipWhile isAttributePart (c.skip 1)
  unfold attributeAt
  dsimp only
  split
  · exact (hn.trans (Cursor.reaches_skipWhile _ _)).trans
      (((Cursor.reaches_skip 1 _).trans (Cursor.reaches_skipWhile _ _)).trans (reaches_valueAt _))
  · exact hn

/-! ## Start tags -/

/-- How a start tag ends. -/
inductive TagEnd where
  /-- With `>`. -/
  | complete
  /-- With `/>`. -/
  | selfClosing
  /-- Not before the text does. -/
  | missing
  deriving DecidableEq, Repr, Inhabited

/-- A start tag behind its name. -/
structure TagBody where
  attributes : List Attribute
  issues : List Issue
  ending : TagEnd
  after : Cursor
  deriving DecidableEq, Repr, Inhabited

/-- Reads a start tag from behind its name. -/
def tagBody (c : Cursor) : TagBody :=
  let here := c.skipWhile Text.isMarkupBlank
  match _hr : here.rest with
  | [] => ⟨[], [], .missing, here⟩
  | '/' :: '>' :: _ => ⟨[], [], .selfClosing, here.skip 2⟩
  | '/' :: _ => tagBody (here.skip 1)
  | '>' :: _ => ⟨[], [], .complete, here.skip 1⟩
  | _ :: _ =>
    let first := attributeAt here
    let others := tagBody first.after
    { others with
      attributes := first.found :: others.attributes
      issues := first.issues ++ others.issues }
termination_by c.rest.length
decreasing_by
  · have h1 := (Cursor.reaches_skipWhile Text.isMarkupBlank c).length_le
    have h2 : (here.skip 1).rest.length < here.rest.length :=
      Cursor.length_skip_lt Nat.one_pos (by simp [_hr])
    exact Nat.lt_of_lt_of_le h2 h1
  · have h1 := (Cursor.reaches_skipWhile Text.isMarkupBlank c).length_le
    have h2 : (here.skip 1).rest.length < here.rest.length :=
      Cursor.length_skip_lt Nat.one_pos (by simp [_hr])
    have h3 := (reaches_attributeAt here).length_le
    exact Nat.lt_of_le_of_lt h3 (Nat.lt_of_lt_of_le h2 h1)

theorem reaches_tagBody (c : Cursor) : c.Reaches (tagBody c).after := by
  fun_induction tagBody c with
  | case1 c here => exact Cursor.reaches_skipWhile _ c
  | case2 c here => exact (Cursor.reaches_skipWhile _ c).trans (Cursor.reaches_skip 2 _)
  | case3 c here _ _ _ ih =>
    exact ((Cursor.reaches_skipWhile _ c).trans (Cursor.reaches_skip 1 _)).trans ih
  | case4 c here => exact (Cursor.reaches_skipWhile _ c).trans (Cursor.reaches_skip 1 _)
  | case5 c here _ _ _ _ _ _ first others ih =>
    exact ((Cursor.reaches_skipWhile _ c).trans (Cursor.reaches_skip 1 _)).trans
      ((reaches_attributeAt here).trans ih)

/-! ## Events -/

/-- What happens at a place of a template. -/
inductive Event where
  | issue (i : Issue)
  /-- An element that is complete with its start tag. -/
  | leaf (e : Element)
  /-- The start tag of an element that stays open. -/
  | opening (tag : Text) (start : Nat) (attributes : List Attribute)
  | closing (tag : Text) (span : Span)
  deriving Repr, Inhabited

/-- The end of the text that the raw text of an element runs to: its closing tag, or the end. -/
def skipRawText (tag : Text) (c : Cursor) : Cursor :=
  (c.findFolded? ('<' :: '/' :: tag)).getD c.toEnd

/-- The events of a start tag that begins at `start`, and the place behind it. -/
def TagBody.events (tag : Text) (start : Nat) (body : TagBody) : List Event × Cursor :=
  let leaf (selfClosing : Bool) : Event :=
    .leaf ⟨tag, ⟨start, body.after.offset⟩, body.attributes, [], selfClosing⟩
  let issues := body.issues.map Event.issue
  match body.ending with
  | .missing =>
    (issues ++ [.issue ⟨.unterminatedStartTag tag, ⟨start, body.after.offset⟩⟩, leaf false],
      body.after)
  | .selfClosing => (issues ++ [leaf true], body.after)
  | .complete =>
    if isVoid tag then (issues ++ [leaf false], body.after)
    else
      (issues ++ [.opening tag start body.attributes],
        if isRawText tag then skipRawText tag body.after else body.after)

/-- The start tag at the cursor. -/
def startTag (c : Cursor) : List Event × Cursor :=
  (tagBody ((c.skip 1).skipWhile isTagPart)).events ((c.skip 1).rest.takeWhile isTagPart) c.offset

/-- The closing tag at the cursor. -/
def closingTag (c : Cursor) : List Event × Cursor :=
  let tag := (c.skip 2).rest.takeWhile isTagPart
  let after := (c.skip 2).skipPast '>'
  ([.closing tag ⟨c.offset, after.offset⟩], after)

/-- The passage at the cursor that runs from a mark of `width` characters up to and including
`close`. -/
def passage (width : Nat) (close : Text) (problem : Problem) (c : Cursor) : List Event × Cursor :=
  match (c.skip width).find? close with
  | some found => ([], found.skip close.length)
  | none => ([.issue ⟨problem, ⟨c.offset, (c.skip width).offset⟩⟩], c.toEnd)

/-- One tag, comment, interpolation, declaration or run of text, and the place behind it. -/
def piece (c : Cursor) : List Event × Cursor :=
  match c.rest with
  | '<' :: '!' :: '-' :: '-' :: _ => passage 4 "-->".toList .unterminatedComment c
  | '{' :: '{' :: _ => passage 2 "\x7d\x7d".toList .unterminatedInterpolation c
  | '<' :: '/' :: _ => closingTag c
  | '<' :: '!' :: _ => ([], (c.skip 2).skipPast '>')
  | '<' :: '?' :: _ => ([], (c.skip 2).skipPast '>')
  | '<' :: first :: _ =>
    if first.isAlpha then startTag c else ([], skipText c)
  | _ => ([], skipText c)
where
  /-- Behind the first character, in front of the next one that can begin a tag. -/
  skipText (c : Cursor) : Cursor := (c.skip 1).skipWhile fun ch => ch != '<' && ch != '{'

theorem reaches_skipRawText (tag : Text) (c : Cursor) : c.Reaches (skipRawText tag c) := by
  unfold skipRawText
  cases h : c.findFolded? ('<' :: '/' :: tag) with
  | none => exact Cursor.reaches_toEnd c
  | some d => exact Cursor.reaches_of_findFolded? h

theorem TagBody.reaches_events (tag : Text) (start : Nat) (body : TagBody) :
    body.after.Reaches (body.events tag start).2 := by
  unfold TagBody.events
  split
  · exact Cursor.Reaches.refl _
  · exact Cursor.Reaches.refl _
  · split
    · exact Cursor.Reaches.refl _
    · dsimp only
      split
      · exact reaches_skipRawText _ _
      · exact Cursor.Reaches.refl _

theorem reaches_startTag (c : Cursor) : (c.skip 1).Reaches (startTag c).2 :=
  ((Cursor.reaches_skipWhile isTagPart _).trans (reaches_tagBody _)).trans
    (TagBody.reaches_events _ _ _)

/-- Reading a piece moves ahead. -/
theorem length_piece_lt {c : Cursor} (hc : c.rest ≠ []) :
    (piece c).2.rest.length < c.rest.length := by
  have ahead : ∀ {n : Nat} {d : Cursor}, 0 < n → (c.skip n).Reaches d →
      d.rest.length < c.rest.length := fun hn h =>
    Nat.lt_of_le_of_lt h.length_le (Cursor.length_skip_lt hn hc)
  have across : ∀ (n : Nat) (close : Text) (p : Problem), 0 < n →
      (passage n close p c).2.rest.length < c.rest.length := by
    intro n close p hn
    unfold passage
    split
    · next found hf =>
      exact ahead hn ((Cursor.reaches_of_find? hf).trans (Cursor.reaches_skip _ _))
    · exact List.length_pos_iff.2 hc
  have text : (piece.skipText c).rest.length < c.rest.length :=
    ahead Nat.one_pos (Cursor.reaches_skipWhile _ _)
  unfold piece
  split
  · exact across 4 _ _ (by decide)
  · exact across 2 _ _ (by decide)
  · exact ahead (n := 2) (by decide) (Cursor.reaches_skipPast _ _)
  · exact ahead (n := 2) (by decide) (Cursor.reaches_skipPast _ _)
  · exact ahead (n := 2) (by decide) (Cursor.reaches_skipPast _ _)
  · split
    · exact ahead Nat.one_pos (reaches_startTag c)
    · exact text
  · exact text

/-- The events of a template from the cursor on. -/
def events (c : Cursor) : List Event :=
  if _hc : c.rest = [] then [] else (piece c).1 ++ events (piece c).2
termination_by c.rest.length
decreasing_by exact length_piece_lt _hc

end Markup

end BindingToggle
