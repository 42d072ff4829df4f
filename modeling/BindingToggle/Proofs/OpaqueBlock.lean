import BindingToggle.Proofs.BalancedBlock

/-!
# Blocks in front of the template

A block of another name in front of the template is passed over as a whole, so that the rest of the
document is read as if it stood alone, only further to the right.

* `findTemplate?_shift` — the search for the template takes the same steps, wherever the text
  begins.
* `findTemplate?_unmarked`, `findTemplate?_block` — a text without tags is passed over, and so is a
  block of another name whose closing tag is found.
* `SelfClosed` — a text whose start tags of a name close themselves; `closingTag?_selfClosed` says
  that the scan of a script passes over it.
* `parseComponent_script` — a script or a style with such a content only moves what follows it.
  `parseComponent_script_nested` shows why other start tags are excluded: they are balanced against
  closing tags, also in program text.
* `IsPreamble`, `parseComponent_preamble` — the same for blocks of any other name without comments
  in them, and for comments.
-/

namespace BindingToggle

open Text

/-! ## Moving a text -/

namespace Cursor

/-- The same place when the text begins further to the right. -/
def shift (delta : Nat) (c : Cursor) : Cursor := ⟨c.offset + delta, c.rest⟩

@[simp] theorem rest_shift (delta : Nat) (c : Cursor) : (c.shift delta).rest = c.rest := rfl

theorem skip_shift (delta n : Nat) (c : Cursor) :
    (c.shift delta).skip n = (c.skip n).shift delta := by
  simp [skip, shift, Nat.add_right_comm]

theorem skipWhile_shift (delta : Nat) (p : Char → Bool) (c : Cursor) :
    (c.shift delta).skipWhile p = (c.skipWhile p).shift delta := by
  simp [skipWhile, shift, Nat.add_right_comm]

theorem skipPast_shift (delta : Nat) (mark : Char) (c : Cursor) :
    (c.shift delta).skipPast mark = (c.skipPast mark).shift delta := by
  rw [skipPast, skipWhile_shift, skip_shift, skipPast]

theorem toEnd_shift (delta : Nat) (c : Cursor) : (c.shift delta).toEnd = c.toEnd.shift delta := by
  simp [toEnd, shift, Nat.add_right_comm]

theorem find?_shift (delta : Nat) (needle : Text) (c : Cursor) :
    (c.shift delta).find? needle = (c.find? needle).map (shift delta) := by
  simp only [find?, rest_shift, Option.map_map]
  cases breakOn? needle c.rest with
  | none => rfl
  | some sides => simp [shift, Nat.add_right_comm]

end Cursor

namespace Block

/-- The same start tag further to the right. -/
def StartTag.shift (delta : Nat) (tag : StartTag) : StartTag :=
  { tag with after := tag.after.shift delta }

/-- The same template block further to the right. -/
def TemplateBlock.shift (delta : Nat) (block : TemplateBlock) : TemplateBlock :=
  { block with
    start := block.start + delta
    contentStart := block.contentStart + delta }

@[simp] theorem StartTag.selfClosing_shift (delta : Nat) (tag : StartTag) :
    (tag.shift delta).selfClosing = tag.selfClosing := rfl

theorem nextMark_shift (delta : Nat) (c : Cursor) :
    nextMark (c.shift delta) = (nextMark c).shift delta := Cursor.skipWhile_shift _ _ _

theorem startTag_shift (delta : Nat) (c : Cursor) :
    startTag (c.shift delta) = (startTag c).shift delta := by
  simp only [startTag, Cursor.rest_shift, Cursor.toEnd_shift]
  cases (splitTag none c.rest).2 with
  | none => rfl
  | some rest => simp [StartTag.shift, Cursor.shift, Nat.add_right_comm]

/-- The scan for a closing tag takes the same steps, wherever the text begins. -/
theorem closingTag?_shift (delta : Nat) (name : Text) (depth : Nat) (c : Cursor) :
    closingTag? name depth (c.shift delta) =
      (closingTag? name depth c).map (Prod.map (Cursor.shift delta) (Cursor.shift delta)) := by
  fun_induction closingTag? name depth c
  all_goals rw [closingTag?_eq, nextMark_shift, Cursor.rest_shift]
  case case1 depth c here hr =>
    rw [if_pos hr]
    rfl
  case case2 depth c here hr hcomment hf =>
    rw [if_neg hr, if_pos hcomment, Cursor.skip_shift, Cursor.find?_shift, hf]
    rfl
  case case3 depth c here hr hcomment found hf ih =>
    rw [if_neg hr, if_pos hcomment, Cursor.skip_shift, Cursor.find?_shift, hf, ← ih,
      ← Cursor.skip_shift]
    rfl
  case case4 c here hr hcomment hclosing after =>
    rw [if_neg hr, if_neg hcomment, if_pos hclosing, Cursor.skip_shift, Cursor.skipPast_shift]
    rfl
  case case5 c here hr hcomment hclosing after depth ih =>
    rw [if_neg hr, if_neg hcomment, if_pos hclosing, Cursor.skip_shift, Cursor.skipPast_shift]
    exact ih
  case case6 depth c here hr hcomment hclosing hopening tag ih =>
    rw [if_neg hr, if_neg hcomment, if_neg hclosing, if_pos hopening, Cursor.skip_shift,
      startTag_shift]
    exact ih
  case case7 depth c here hr hcomment hclosing hopening ih =>
    rw [if_neg hr, if_neg hcomment, if_neg hclosing, if_neg hopening, Cursor.skip_shift]
    exact ih

theorem skipBlock_shift (delta : Nat) (name : Text) (tag : StartTag) :
    skipBlock name (tag.shift delta) = (skipBlock name tag).shift delta := by
  have hclosing : closingTag? name 0 (tag.shift delta).after = _ :=
    closingTag?_shift delta name 0 tag.after
  unfold skipBlock
  rw [StartTag.selfClosing_shift, hclosing]
  split
  · rfl
  · cases closingTag? name 0 tag.after with
    | none => exact Cursor.toEnd_shift delta tag.after
    | some p => rfl

theorem templateBlock_shift (delta start : Nat) (tag : StartTag) :
    templateBlock (start + delta) (tag.shift delta) = (templateBlock start tag).shift delta := by
  have hclosing : closingTag? templateName 0 (tag.shift delta).after = _ :=
    closingTag?_shift delta templateName 0 tag.after
  simp only [templateBlock, hclosing]
  cases closingTag? templateName 0 tag.after <;> rfl

/-- The search for the template takes the same steps, wherever the text begins. -/
theorem findTemplate?_shift (delta : Nat) (c : Cursor) :
    findTemplate? (c.shift delta) = (findTemplate? c).map (TemplateBlock.shift delta) := by
  fun_induction findTemplate? c
  all_goals
    rw [findTemplate?_eq, nextMark_shift]
    simp only [Cursor.rest_shift, Cursor.skip_shift, Cursor.skipWhile_shift, Cursor.find?_shift,
      startTag_shift, StartTag.selfClosing_shift]
  case case1 c here hr =>
    rw [if_pos hr]
    rfl
  case case2 c here hr hcomment hf =>
    rw [if_neg hr, if_pos hcomment, hf]
    rfl
  case case3 c here hr hcomment found hf ih =>
    rw [if_neg hr, if_pos hcomment, hf, ← ih, ← Cursor.skip_shift]
    rfl
  case case4 c here hr hcomment name hletter tag hname ih =>
    rw [if_neg hr, if_neg hcomment, if_pos hletter, if_pos hname, skipBlock_shift]
    exact ih
  case case5 c here hr hcomment name hletter tag hname hself =>
    rw [if_neg hr, if_neg hcomment, if_pos hletter, if_neg hname, if_pos hself]
    rfl
  case case6 c here hr hcomment name hletter tag hname hself =>
    rw [if_neg hr, if_neg hcomment, if_pos hletter, if_neg hname, if_neg hself]
    exact congrArg some (templateBlock_shift delta here.offset tag)
  case case7 c here hr hcomment name hletter ih =>
    rw [if_neg hr, if_neg hcomment, if_neg hletter]
    exact ih

/-! ## Passing over a block -/

/-- A text in which no tag begins is passed over. -/
theorem findTemplate?_unmarked {t : Text} (h : '<' ∉ t) (offset : Nat) (rest : Text) :
    findTemplate? ⟨offset, t ++ rest⟩ = findTemplate? ⟨offset + width t, rest⟩ := by
  have hmark : nextMark ⟨offset, t ++ rest⟩ = nextMark ⟨offset + width t, rest⟩ := by
    induction t generalizing offset with
    | nil => rfl
    | cons c t ih =>
      obtain ⟨hc, ht⟩ : '<' ≠ c ∧ '<' ∉ t := by simpa using h
      rw [List.cons_append, nextMark_cons (Ne.symm hc), ih ht, width_cons, Nat.add_assoc]
  rw [findTemplate?_eq, findTemplate?_eq ⟨offset + width t, rest⟩, hmark]

/-- The characters of a block. -/
def blockText (name attributes content : Text) : Text :=
  openTag name attributes ++ (content ++ closeTag name)

/-- The scan for the closing tag of a block with this content comes to the end of the content. -/
def Closed (name content : Text) : Prop :=
  ∀ offset rest, closingTag? name 0 ⟨offset, content ++ (closeTag name ++ rest)⟩ =
    some (⟨offset + width content, closeTag name ++ rest⟩,
      ⟨offset + width content + width (closeTag name), rest⟩)

/-- A block whose closing tag is found is passed over, unless it is a template. -/
theorem findTemplate?_block {name attributes content : Text} (hname : IsBlockName name)
    (hother : eqFolded name templateName = false) (ha : IsAttributes attributes)
    (hlast : attributes.getLast? ≠ some '/') (hc : Closed name content) (offset : Nat)
    (rest : Text) :
    findTemplate? ⟨offset, blockText name attributes content ++ rest⟩ =
      findTemplate? ⟨offset + width (blockText name attributes content), rest⟩ := by
  have htext : blockText name attributes content ++ rest =
      openTag name attributes ++ (content ++ (closeTag name ++ rest)) := by
    simp [blockText]
  have hself : (attributes.getLast? == some '/') = false := by
    simpa using hlast
  rw [htext, findTemplate?_openTag hname ha]
  simp only [hother, hself, skipBlock, hc _ rest, blockText, width_append,
    Nat.add_assoc, Bool.false_eq_true, if_false]

/-! ## Raw content -/

/-- A text in which every start tag of the name closes itself. Up to its end, such a tag is not
looked into. The text is taken to be followed by another tag. -/
inductive SelfClosed (name : Text) : Text → Prop
  | nil : SelfClosed name []
  | char {c : Char} {t : Text} (hc : startsWithTag ('<' :: name) (c :: (t ++ ['<'])) = false)
      (ht : SelfClosed name t) : SelfClosed name (c :: t)
  | tag {spelling attributes t : Text} (hs : eqFolded spelling name = true)
      (ha : IsAttributes attributes) (ht : SelfClosed name t) :
      SelfClosed name (openTag spelling (attributes ++ ['/']) ++ t)

/-- Whether a tag begins in a text is not changed by what follows the next tag. -/
theorem startsWithTag_seam {mark t rest : Text} (hmark : '<' ∉ mark.tail) (ht : t ≠ [])
    (hrest : rest.head? = some '<') (h : startsWithTag mark (t ++ ['<']) = false) :
    startsWithTag mark (t ++ rest) = false := by
  rw [Bool.eq_false_iff] at h ⊢
  intro hstarts
  obtain ⟨hfolded, hend⟩ := Bool.and_eq_true_iff.1 hstarts
  obtain ⟨name, after, rfl, hname⟩ := exists_spelling_of_seam hmark ht hrest hfolded
  rw [List.append_assoc, List.drop_left' (length_eq_of_lower_eq hname)] at hend
  refine h (startsWithTag_iff.2 ⟨name, after ++ ['<'], by simp, eqFolded_iff.2 hname, ?_⟩)
  obtain ⟨others, rfl⟩ := List.head?_eq_some_iff.1 hrest
  cases after with
  | nil => exact hend
  | cons c after => exact hend

/-- A text without start tags of the name does not change what stands behind it. -/
theorem SelfClosed.append {name s t : Text} (ht : SelfClosed name t) (hname : '<' ∉ name)
    (hs : ¬ HoldsTag ('<' :: name) s) (hhead : (t ++ ['<']).head? = some '<') :
    SelfClosed name (s ++ t) := by
  induction s with
  | nil => exact ht
  | cons c s ih =>
    have hchar : startsWithTag ('<' :: name) (c :: (s ++ t ++ ['<'])) = false := by
      rw [Bool.eq_false_iff, List.append_assoc]
      exact fun hstarts => hs (holdsTag_of_seam hname (List.cons_ne_nil c s) hhead hstarts)
    exact .char hchar (ih fun hin => hs (hin.cons c))

theorem HoldsTag.append_left {mark t : Text} (h : HoldsTag mark t) (s : Text) :
    HoldsTag mark (s ++ t) := by
  obtain ⟨before, name, after, rfl, hname, hend⟩ := h
  exact ⟨s ++ before, name, after, by rw [List.append_assoc], hname, hend⟩

/-- **In a script or a style** the scan passes over everything but closing tags and start tags that
do not close themselves. -/
theorem closingTag?_selfClosed {name content rest : Text} (hname : IsBlockName name)
    (hraw : hasComments name = false) (hc : SelfClosed name content)
    (hclosing : ¬ HoldsTag ('<' :: '/' :: name) content) (hrest : rest.head? = some '<')
    (depth offset : Nat) :
    closingTag? name depth ⟨offset, content ++ rest⟩ =
      closingTag? name depth ⟨offset + width content, rest⟩ := by
  have hclose : ∀ {c : Char} {t : Text}, ¬ HoldsTag ('<' :: '/' :: name) (c :: t) →
      startsWithTag ('<' :: '/' :: name) (c :: (t ++ rest)) = false := by
    intro c t h
    rw [Bool.eq_false_iff]
    exact fun hstarts =>
      h (holdsTag_of_seam (by simp [hname.unmarked]) (List.cons_ne_nil c t) hrest hstarts)
  induction hc generalizing offset with
  | nil => rfl
  | @char c t hc _ ih =>
    have hnext := ih (fun h => hclosing (h.cons c)) (offset + c.utf8Size)
    rw [width_cons, ← Nat.add_assoc, ← hnext, List.cons_append]
    by_cases hmark : c = '<'
    · subst hmark
      have hopening : startsWithTag ('<' :: name) (('<' :: t) ++ rest) = false :=
        startsWithTag_seam hname.unmarked (List.cons_ne_nil '<' t) hrest hc
      rw [List.cons_append] at hopening
      rw [closingTag?_eq, nextMark_mark rfl, if_neg (by simp), hraw, hclose hclosing, hopening,
        Cursor.skip_one]
      rfl
    · exact closingTag?_cons hmark name depth offset (t ++ rest)
  | @tag spelling attributes t hs ha _ ih =>
    have hlast : (attributes ++ ['/']).getLast? = some '/' := by simp
    have hnext := ih (fun h => hclosing (h.append_left _))
      (offset + width (openTag spelling (attributes ++ ['/'])))
    have hcomment : (hasComments name && startsComment
        (openTag spelling (attributes ++ ['/']) ++ (t ++ rest))) = false := by
      rw [hraw, Bool.false_and]
    have hno : startsWithTag ('<' :: '/' :: name)
        (openTag spelling (attributes ++ ['/']) ++ (t ++ rest)) = false := by
      rw [openTag_append] at hclosing ⊢
      simpa using hclose hclosing
    rw [List.append_assoc, closingTag?_spelling hs ha.slash hcomment hno, if_pos hlast, hnext,
      width_append, Nat.add_assoc]

theorem closed_selfClosed {name content : Text} (hname : IsBlockName name)
    (hraw : hasComments name = false) (hc : SelfClosed name content)
    (hclosing : ¬ HoldsTag ('<' :: '/' :: name) content) : Closed name content := by
  intro offset rest
  rw [closingTag?_selfClosed hname hraw hc hclosing rfl, closingTag?_closeTag hname]

end Block

/-! ## Components -/

/-- The same template further to the right. -/
def EmbeddedTemplate.shift (delta : Nat) (t : EmbeddedTemplate) : EmbeddedTemplate :=
  { t with anchor := ⟨t.anchor.offset + delta⟩ }

namespace Component

/-- The same component further to the right: its anchor and the spans of its issues are moved. -/
def shift (delta : Nat) (c : Component) : Component :=
  ⟨c.template.map (EmbeddedTemplate.shift delta), c.issues.map (Issue.shift delta)⟩

theorem ofBlock_shift (delta : Nat) (block : Block.TemplateBlock) :
    ofBlock (block.shift delta) = (ofBlock block).shift delta := by
  have hissues : ∀ issues : List Issue,
      issues.map (Issue.shift (block.contentStart + delta)) =
        (issues.map (Issue.shift block.contentStart)).map (Issue.shift delta) := by
    intro issues
    simp [Issue.shift, Span.shift_shift]
  have hmissing : missingEnd (block.shift delta) = (missingEnd block).map (Issue.shift delta) := by
    cases hclosed : block.closed <;>
      simp [missingEnd, Block.TemplateBlock.shift, hclosed, Issue.shift, Span.shift]
  rw [ofBlock, hmissing]
  simp [ofBlock, shift, Block.TemplateBlock.shift, hissues, EmbeddedTemplate.shift]

end Component

open Block

/-- A document whose template is searched for behind its first `delta` bytes is the rest of it,
further to the right. -/
theorem parseComponent_of_findTemplate? {document rest : Text} {delta : Nat}
    (h : findTemplate? ⟨0, document⟩ = findTemplate? ⟨delta, rest⟩) :
    parseComponent document = (parseComponent rest).shift delta := by
  have hshift : findTemplate? ⟨delta, rest⟩ =
      (findTemplate? ⟨0, rest⟩).map (TemplateBlock.shift delta) := by
    rw [← findTemplate?_shift, Cursor.shift, Nat.zero_add]
  unfold parseComponent
  rw [h, hshift]
  cases findTemplate? ⟨0, rest⟩ with
  | none => rfl
  | some block =>
    have hattributes : (block.shift delta).attributes = block.attributes := rfl
    simp only [Option.map_some, hattributes]
    split
    · exact Component.ofBlock_shift delta block
    · rfl

/-- Plain text in front of a document only moves it. -/
theorem parseComponent_unmarked {t : Text} (h : '<' ∉ t) (rest : Text) :
    parseComponent (t ++ rest) = (parseComponent rest).shift (width t) := by
  apply parseComponent_of_findTemplate?
  rw [Block.findTemplate?_unmarked h, Nat.zero_add]

/-- **A script or a style only moves what follows it**, when no closing tag of its own name stands
inside, and no start tag but those that close themselves. -/
theorem parseComponent_script {name content : Text}
    (hname : name = "script".toList ∨ name = "style".toList) (hopening : SelfClosed name content)
    (hclosing : ¬ HoldsTag ('<' :: '/' :: name) content) (rest : Text) :
    parseComponent (blockText name [] content ++ rest) =
      (parseComponent rest).shift (width (blockText name [] content)) := by
  have hraw : IsBlockName name ∧ eqFolded name templateName = false ∧
      hasComments name = false := by
    rcases hname with rfl | rfl
    · exact ⟨⟨by decide, by decide, by decide⟩, by decide, by decide⟩
    · exact ⟨⟨by decide, by decide, by decide⟩, by decide, by decide⟩
  obtain ⟨hblock, hother, hcomments⟩ := hraw
  have hclosed := closed_selfClosed hblock hcomments hopening hclosing
  apply parseComponent_of_findTemplate?
  rw [findTemplate?_block hblock hother ⟨rfl, .nil⟩ (by simp) hclosed, Nat.zero_add]

/-- Comment marks, quotes and tags of other names inside of a script, and one of its own name that
closes itself, with another in an attribute. -/
theorem parseComponent_script_marks :
    SelfClosed "script".toList "\"<!--'<template><SCRIPT a='<script>'/>".toList ∧
      ¬ HoldsTag "</script".toList "\"<!--'<template><SCRIPT a='<script>'/>".toList ∧
      parseComponent ("<script>\"<!--'<template><SCRIPT a='<script>'/></script>".toList ++
        "<template></template>".toList) =
          (parseComponent "<template></template>".toList).shift 55 := by
  have htext : IsTagText (" a=".toList ++ '\'' :: ("<script>".toList ++ ['\''])) :=
    (IsTagText.of_plain rfl).append (.quoted (.inr rfl) (by decide) .nil)
  have htag : SelfClosed "script".toList
      (openTag "SCRIPT".toList (" a='<script>'".toList ++ ['/']) ++ []) :=
    .tag (by decide) ⟨rfl, htext⟩ .nil
  have hopening : SelfClosed "script".toList ("\"<!--'<template>".toList ++
      (openTag "SCRIPT".toList (" a='<script>'".toList ++ ['/']) ++ [])) :=
    htag.append (by decide) (by decide +kernel) rfl
  have hclosing : ¬ HoldsTag "</script".toList
      "\"<!--'<template><SCRIPT a='<script>'/>".toList := by
    decide +kernel
  exact ⟨hopening, hclosing,
    parseComponent_script (.inl rfl) hopening hclosing "<template></template>".toList⟩

/-- A start tag inside of a script is balanced against its closing tag, so that the script goes on
and the template is lost. -/
theorem parseComponent_script_nested :
    ¬ ∀ name content rest : Text, name = "script".toList ∨ name = "style".toList →
      ¬ HoldsTag ('<' :: '/' :: name) content →
      parseComponent (blockText name [] content ++ rest) =
        (parseComponent rest).shift (width (blockText name [] content)) := by
  intro h
  have hmoved := h "script".toList "'<script>'".toList "<template></template>".toList (.inl rfl)
    (by decide +kernel)
  have hsome := congrArg (fun c => c.template.isSome) hmoved
  exact absurd hsome (by decide +kernel)

/-! ## Custom blocks and comments -/

/-- What only moves the template that follows it: a block of another name, with no comment and no
tag of its own name inside, or a comment. -/
inductive IsPreamble : Text → Prop
  | block {name attributes content : Text} (hname : IsBlockName name)
      (hother : eqFolded name templateName = false) (ha : IsAttributes attributes)
      (hlast : attributes.getLast? ≠ some '/') (hcomment : ¬ "<!--".toList <:+: content)
      (hopening : ¬ HoldsTag ('<' :: name) content)
      (hclosing : ¬ HoldsTag ('<' :: '/' :: name) content) :
      IsPreamble (blockText name attributes content)
  | comment {body : Text} (hb : ¬ "-->".toList <:+: body) :
      IsPreamble ("<!--".toList ++ (body ++ "-->".toList))

theorem IsPreamble.findTemplate?_eq {front : Text} (h : IsPreamble front) (offset : Nat)
    (rest : Text) :
    findTemplate? ⟨offset, front ++ rest⟩ = findTemplate? ⟨offset + width front, rest⟩ := by
  cases h with
  | block hname hother ha hlast hcomment hopening hclosing =>
    have hchunk : IsChunk _ _ := ⟨fun _ => hcomment, hopening, hclosing⟩
    exact findTemplate?_block hname hother ha hlast (closingTag?_block hname (.chunk hchunk))
      offset rest
  | comment hb =>
    rw [List.append_assoc, List.append_assoc]
    exact findTemplate?_comment hb offset rest

/-- **A custom block or a comment only moves what follows it**, whatever that is. -/
theorem parseComponent_preamble {front : Text} (h : IsPreamble front) (rest : Text) :
    parseComponent (front ++ rest) = (parseComponent rest).shift (width front) := by
  apply parseComponent_of_findTemplate?
  rw [h.findTemplate?_eq, Nat.zero_add]

/-- A custom block with a mark in its attributes and a template inside, and a comment with one. -/
theorem parseComponent_preamble_template :
    IsPreamble "<i18n a='>'>'<template></i18n>".toList ∧
      IsPreamble "<!--'<template>-->".toList ∧
      parseComponent "<i18n a='>'>'<template></i18n><template></template>".toList =
        (parseComponent "<template></template>".toList).shift 30 ∧
      parseComponent "<!--'<template>--><template></template>".toList =
        (parseComponent "<template></template>".toList).shift 18 := by
  have hquoted : IsTagText "'>'".toList :=
    @IsTagText.quoted '\'' ['>'] [] (.inr rfl) (by decide) .nil
  have hplain : IsTagText " a=".toList := .of_plain (by decide)
  have hblock : IsPreamble "<i18n a='>'>'<template></i18n>".toList :=
    @IsPreamble.block "i18n".toList " a='>'".toList "'<template>".toList
      ⟨by decide, by decide, by decide⟩ (by decide) ⟨by decide, hplain.append hquoted⟩ (by decide)
      (by decide +kernel) (by decide +kernel) (by decide +kernel)
  have hcomment : IsPreamble "<!--'<template>-->".toList :=
    @IsPreamble.comment "'<template>".toList (by decide +kernel)
  exact ⟨hblock, hcomment, parseComponent_preamble hblock "<template></template>".toList,
    parseComponent_preamble hcomment "<template></template>".toList⟩

end BindingToggle
