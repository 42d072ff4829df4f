import BindingToggle.Template.Markup

/-!
# Blocks of a component

A component is a sequence of blocks, each with a start tag and a closing tag: scripts, styles, and
at most one template that counts. `findTemplate?` goes through the blocks in order and finds the
template, its attributes and its content. A block of another name is skipped as a whole, so that
markup inside of scripts and styles is not looked at.

Closing tags are balanced against start tags of the same name, in any ASCII case, and comments are
skipped over, except in scripts and styles, where a comment mark means nothing.

Models `find_template_block`: `startTag` is `scan_start_tag`, `closingTag?` is `find_closing_tag`,
`atNameEnd` is `is_tag_boundary`, and `attribute?` is `attribute_value`.
-/

namespace BindingToggle

namespace Block

/-! ## Start tags -/

/-- A start tag behind its name: the text of its attributes, and the place behind the tag. -/
structure StartTag where
  attributes : Text
  after : Cursor
  selfClosing : Bool
  deriving DecidableEq, Repr, Inhabited

/-- The text up to the first `>` outside of quotes, and the text behind it, if there is one.
`quote` is the quote that is open. -/
def splitTag (quote : Option Char) : Text → Text × Option Text
  | [] => ([], none)
  | c :: t =>
    match quote with
    | some q =>
      let sides := splitTag (if c = q then none else some q) t
      (c :: sides.1, sides.2)
    | none =>
      if c = '>' then ([], some t)
      else
        let sides := splitTag (if c = '"' ∨ c = '\'' then some c else none) t
        (c :: sides.1, sides.2)

/-- The start tag that goes on at the cursor, behind its name. -/
def startTag (c : Cursor) : StartTag :=
  let sides := splitTag none c.rest
  match sides.2 with
  | none => ⟨sides.1, c.toEnd, false⟩
  | some rest =>
    ⟨sides.1, ⟨c.offset + Text.width sides.1 + 1, rest⟩, sides.1.getLast? == some '/'⟩

theorem append_splitTag (quote : Option Char) (t : Text) :
    (splitTag quote t).1 ++ (match (splitTag quote t).2 with | none => [] | some r => '>' :: r) =
      t := by
  induction t generalizing quote with
  | nil => rfl
  | cons c t ih =>
    unfold splitTag
    split
    · simpa using ih _
    · split
      · next hc => simp [hc]
      · simpa using ih _

theorem reaches_startTag (c : Cursor) : c.Reaches (startTag c).after := by
  have h := append_splitTag none c.rest
  unfold startTag
  dsimp only
  split
  · exact Cursor.reaches_toEnd c
  · next rest hr =>
    rw [hr] at h
    refine ⟨(splitTag none c.rest).1 ++ ['>'], ?_, ?_⟩
    · simpa using h.symm
    · simp only [Text.width_append, Nat.add_assoc]
      rfl

/-! ## Closing tags -/

/-- Whether a tag's name ends where the text begins. -/
def atNameEnd : Text → Bool
  | [] => true
  | c :: _ => !Markup.isTagPart c

/-- Whether the text begins with `mark`, in any ASCII case, and a tag's name ends behind it. -/
def startsWithTag (mark t : Text) : Bool :=
  Text.startsWithFolded mark t && atNameEnd (t.drop mark.length)

/-- Whether the text begins a comment. -/
def startsComment (t : Text) : Bool := "<!--".toList.isPrefixOf t

/-- Whether comments inside a block of this name are comments. -/
def hasComments (name : Text) : Bool :=
  !Text.eqFolded name "script".toList && !Text.eqFolded name "style".toList

/-- In front of the next tag or comment. -/
def nextMark (c : Cursor) : Cursor := c.skipWhile (· != '<')

/-- The closing tag of a block whose start tag has been read, when `depth` blocks of the same name
are open inside it: the places in front of the tag and behind it. -/
def closingTag? (name : Text) (depth : Nat) (c : Cursor) : Option (Cursor × Cursor) :=
  let here := nextMark c
  if _hr : here.rest = [] then none
  else if hasComments name && startsComment here.rest then
    match _hf : (here.skip 4).find? "-->".toList with
    | none => none
    | some found => closingTag? name depth (found.skip 3)
  else if startsWithTag ('<' :: '/' :: name) here.rest then
    let after := (here.skip 2).skipPast '>'
    match depth with
    | 0 => some (here, after)
    | d + 1 => closingTag? name d after
  else if startsWithTag ('<' :: name) here.rest then
    let tag := startTag (here.skip (name.length + 1))
    closingTag? name (if tag.selfClosing then depth else depth + 1) tag.after
  else closingTag? name depth (here.skip 1)
termination_by c.rest.length
decreasing_by
  all_goals
    refine Nat.lt_of_lt_of_le ?_ (Cursor.reaches_skipWhile (· != '<') c).length_le
  · exact Nat.lt_of_le_of_lt
      ((Cursor.reaches_of_find? _hf).trans (Cursor.reaches_skip _ _)).length_le
      (Cursor.length_skip_lt (by decide) _hr)
  · exact Nat.lt_of_le_of_lt (Cursor.reaches_skipPast _ _).length_le
      (Cursor.length_skip_lt (by decide) _hr)
  · exact Nat.lt_of_le_of_lt (reaches_startTag _).length_le
      (Cursor.length_skip_lt (by omega) _hr)
  · exact Cursor.length_skip_lt (by decide) _hr

/-! ## Attributes -/

/-- The text of a value: what stands between its quotes, or up to a blank or slash. -/
def valueText : Text → Text
  | '"' :: t => t.takeWhile (· != '"')
  | '\'' :: t => t.takeWhile (· != '\'')
  | t => t.takeWhile fun c => !Text.isMarkupBlank c && c != '/'

/-- The value of an attribute in front of whose name the text stands, if the name ends there. An
attribute without a value has the empty one. -/
def valueBehind? (t : Text) : Option Text :=
  match Text.trimLeft t with
  | [] => some []
  | '/' :: _ => some []
  | '=' :: value => some (valueText (Text.trimLeft value))
  | _ => none

/-- Whether a name can begin behind a text: at the start, or behind a blank. -/
def endsInBlank (before : Text) : Bool :=
  match before.getLast? with
  | none => true
  | some c => Text.isMarkupBlank c

/-- The value of the first attribute called `name` in the text of a start tag. A search that finds
the name where no attribute can begin or end goes on behind it. -/
def attribute? (name t : Text) : Option Text :=
  match Text.breakOn? name t with
  | none => none
  | some (before, found) =>
    let behind := found.drop name.length
    match if endsInBlank before then valueBehind? behind else none with
    | some value => some value
    | none => if _h : behind.length < t.length then attribute? name behind else none
termination_by t.length
decreasing_by exact _h

/-! ## The template block -/

/-- The template block of a component. -/
structure TemplateBlock where
  /-- Where its start tag begins. -/
  start : Nat
  /-- The text of the attributes in its start tag. -/
  attributes : Text
  /-- Where its content begins. -/
  contentStart : Nat
  content : Text
  /-- Whether it has a closing tag. -/
  closed : Bool
  deriving DecidableEq, Repr, Inhabited

/-- The name of the block that is looked for. -/
def templateName : Text := "template".toList

/-- The template block whose start tag begins at `start` and goes on in `tag`. -/
def templateBlock (start : Nat) (tag : StartTag) : TemplateBlock :=
  let body := tag.after
  match closingTag? templateName 0 body with
  | none => ⟨start, tag.attributes, body.offset, body.rest, false⟩
  | some (close, _) =>
    ⟨start, tag.attributes, body.offset, body.upTo close, true⟩

/-- The place behind the block that begins at `tag`, behind its name: behind its closing tag, or the
end of the text. -/
def skipBlock (name : Text) (tag : StartTag) : Cursor :=
  if tag.selfClosing then tag.after
  else
    match closingTag? name 0 tag.after with
    | none => tag.after.toEnd
    | some (_, after) => after

theorem reaches_closingTag? {name : Text} {depth : Nat} {c close after : Cursor}
    (h : closingTag? name depth c = some (close, after)) : c.Reaches close ∧ c.Reaches after := by
  fun_induction closingTag? name depth c with
  | case1 => cases h
  | case2 => cases h
  | case3 depth c here _ _ found hf ih =>
    have ho := ((Cursor.reaches_skipWhile (· != '<') c).trans (Cursor.reaches_skip 4 _)).trans
      ((Cursor.reaches_of_find? hf).trans (Cursor.reaches_skip 3 _))
    exact ⟨ho.trans (ih h).1, ho.trans (ih h).2⟩
  | case4 c here _ _ _ after' =>
    simp only [Option.some.injEq, Prod.mk.injEq] at h
    have ho := Cursor.reaches_skipWhile (· != '<') c
    rw [← h.1, ← h.2]
    exact ⟨ho, ho.trans ((Cursor.reaches_skip 2 _).trans (Cursor.reaches_skipPast _ _))⟩
  | case5 c here _ _ _ after' d ih =>
    have ho := (Cursor.reaches_skipWhile (· != '<') c).trans
      ((Cursor.reaches_skip 2 _).trans (Cursor.reaches_skipPast '>' _))
    exact ⟨ho.trans (ih h).1, ho.trans (ih h).2⟩
  | case6 depth c here _ _ _ _ tag ih =>
    have ho := (Cursor.reaches_skipWhile (· != '<') c).trans
      ((Cursor.reaches_skip (name.length + 1) _).trans (reaches_startTag _))
    exact ⟨ho.trans (ih h).1, ho.trans (ih h).2⟩
  | case7 depth c here _ _ _ _ ih =>
    have ho := (Cursor.reaches_skipWhile (· != '<') c).trans (Cursor.reaches_skip 1 _)
    exact ⟨ho.trans (ih h).1, ho.trans (ih h).2⟩

theorem reaches_skipBlock (name : Text) (tag : StartTag) :
    tag.after.Reaches (skipBlock name tag) := by
  unfold skipBlock
  split
  · exact Cursor.Reaches.refl _
  · split
    · exact Cursor.reaches_toEnd _
    · next hc => exact (reaches_closingTag? hc).2

/-- The first template block from the cursor on. A template tag that closes itself ends the search
without one. -/
def findTemplate? (c : Cursor) : Option TemplateBlock :=
  let here := nextMark c
  if _hr : here.rest = [] then none
  else if startsComment here.rest then
    match _hf : (here.skip 4).find? "-->".toList with
    | none => none
    | some found => findTemplate? (found.skip 3)
  else
    let name := (here.skip 1).rest.takeWhile Markup.isTagPart
    if (name.head?.map Char.isAlpha).getD false then
      let tag := startTag ((here.skip 1).skipWhile Markup.isTagPart)
      if !Text.eqFolded name templateName then findTemplate? (skipBlock name tag)
      else if tag.selfClosing then none
      else some (templateBlock here.offset tag)
    else findTemplate? (here.skip 1)
termination_by c.rest.length
decreasing_by
  all_goals
    refine Nat.lt_of_lt_of_le ?_ (Cursor.reaches_skipWhile (· != '<') c).length_le
  · exact Nat.lt_of_le_of_lt
      ((Cursor.reaches_of_find? _hf).trans (Cursor.reaches_skip _ _)).length_le
      (Cursor.length_skip_lt (by decide) _hr)
  · exact Nat.lt_of_le_of_lt
      (((Cursor.reaches_skipWhile _ _).trans (reaches_startTag _)).trans
        (reaches_skipBlock _ _)).length_le
      (Cursor.length_skip_lt (by decide) _hr)
  · exact Cursor.length_skip_lt (by decide) _hr

end Block

end BindingToggle
