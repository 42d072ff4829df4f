import BindingToggle.Component.Block
import BindingToggle.Proofs.Lookahead
import BindingToggle.Proofs.Searching
import Mathlib.Data.List.Infix

/-!
# How blocks are scanned

The closing tag of a block is looked for from mark to mark. The lemmas below say what the scan does
with each thing that it can meet, in front of any text.

* `HoldsTag mark t` — somewhere in `t` a tag begins with `mark`, in any case.
* `IsChunk name t` — a text with nothing in it that the scan for a block called `name` stops at.
* `closingTag?_chunk`, `closingTag?_comment`, `closingTag?_spelling`, `closingTag?_closeTag` — chunks
  and comments are passed over, a start tag goes one block deeper unless it closes itself, and a
  closing tag goes one block back.
* `closingTag?_eq`, `findTemplate?_eq` — one step of the scan, and one of the search for the
  template; `findTemplate?_openTag` and `findTemplate?_comment` are the steps at a start tag and at
  a comment.
-/

namespace BindingToggle

namespace Block

open Text Markup

/-! ## Tags in a text -/

/-- The text holds a tag that begins with `mark`, in any ASCII case: the name of the tag ends behind
it, or the text does. -/
def HoldsTag (mark t : Text) : Prop :=
  ∃ before name after,
    t = before ++ (name ++ after) ∧ eqFolded name mark = true ∧ atNameEnd after = true

theorem stops_of_atNameEnd {t : Text} (h : atNameEnd t = true) : Stops isTagPart t := by
  intro c hc
  obtain ⟨u, rfl⟩ := List.head?_eq_some_iff.1 hc
  simpa [atNameEnd] using h

theorem startsWithTag_iff {mark t : Text} :
    startsWithTag mark t = true ↔
      ∃ name after, t = name ++ after ∧ eqFolded name mark = true ∧ atNameEnd after = true := by
  unfold startsWithTag
  rw [Bool.and_eq_true, startsWithFolded_iff]
  constructor
  · rintro ⟨⟨name, after, rfl, hname⟩, hend⟩
    rw [List.drop_left' (length_eq_of_lower_eq hname)] at hend
    exact ⟨name, after, rfl, eqFolded_iff.2 hname, hend⟩
  · rintro ⟨name, after, rfl, hname, hend⟩
    have hlower := eqFolded_iff.1 hname
    refine ⟨⟨name, after, rfl, hlower⟩, ?_⟩
    rwa [List.drop_left' (length_eq_of_lower_eq hlower)]

theorem holdsTag_iff {mark t : Text} :
    HoldsTag mark t ↔ t.tails.any (startsWithTag mark) = true := by
  simp only [List.any_eq_true, List.mem_tails, startsWithTag_iff]
  constructor
  · rintro ⟨before, name, after, rfl, hname, hend⟩
    exact ⟨name ++ after, List.suffix_append _ _, name, after, rfl, hname, hend⟩
  · rintro ⟨x, ⟨before, rfl⟩, name, after, rfl, hname, hend⟩
    exact ⟨before, name, after, rfl, hname, hend⟩

instance (mark t : Text) : Decidable (HoldsTag mark t) := decidable_of_iff _ holdsTag_iff.symm

theorem HoldsTag.cons {mark t : Text} (h : HoldsTag mark t) (c : Char) :
    HoldsTag mark (c :: t) := by
  obtain ⟨before, name, after, rfl, hname, hend⟩ := h
  exact ⟨c :: before, name, after, rfl, hname, hend⟩

/-- A tag that begins in a text, and is followed by a text that begins with `<`, is one that the
first text holds. -/
theorem holdsTag_of_seam {mark t rest : Text} (hmark : '<' ∉ mark.tail) (ht : t ≠ [])
    (hrest : rest.head? = some '<') (h : startsWithTag mark (t ++ rest) = true) :
    HoldsTag mark t := by
  have hstarts : startsWithFolded mark (t ++ rest) = true := (Bool.and_eq_true_iff.1 h).1
  obtain ⟨name, after, rfl, hname⟩ := exists_spelling_of_seam hmark ht hrest hstarts
  refine ⟨[], name, after, rfl, eqFolded_iff.2 hname, ?_⟩
  have hend : atNameEnd ((name ++ after ++ rest).drop mark.length) = true :=
    (Bool.and_eq_true_iff.1 h).2
  rw [List.append_assoc, List.drop_left' (length_eq_of_lower_eq hname)] at hend
  -- where the first text ends with the mark, its end is the end of the name
  cases after with
  | nil => rfl
  | cons c after => exact hend

/-- A text with nothing in it that the scan for a block called `name` stops at. -/
structure IsChunk (name t : Text) : Prop where
  comment : hasComments name = true → ¬ "<!--".toList <:+: t
  opening : ¬ HoldsTag ('<' :: name) t
  closing : ¬ HoldsTag ('<' :: '/' :: name) t

instance (name t : Text) : Decidable (IsChunk name t) :=
  decidable_of_iff ((hasComments name = true → ¬ "<!--".toList <:+: t) ∧
      ¬ HoldsTag ('<' :: name) t ∧ ¬ HoldsTag ('<' :: '/' :: name) t)
    ⟨fun h => ⟨h.1, h.2.1, h.2.2⟩, fun h => ⟨h.comment, h.opening, h.closing⟩⟩

theorem IsChunk.tail {name t : Text} {c : Char} (h : IsChunk name (c :: t)) : IsChunk name t := by
  refine ⟨fun hname hin => h.comment hname ?_, fun hin => h.opening (hin.cons c),
    fun hin => h.closing (hin.cons c)⟩
  exact hin.trans (List.suffix_cons c t).isInfix

/-! ## Tags as they are written -/

/-- The name of a block. -/
structure IsBlockName (name : Text) : Prop where
  letter : name.head?.any Char.isAlpha = true
  parts : name.all isTagPart = true
  /-- A name in which no other tag begins. -/
  unmarked : '<' ∉ name

/-- The text of the attributes in a start tag: it has no `>` outside of quotes, and all quotes are
closed. -/
inductive IsTagText : Text → Prop
  | nil : IsTagText []
  | char {c : Char} {t : Text} (hend : c ≠ '>') (hquote : c ≠ '"' ∧ c ≠ '\'') (ht : IsTagText t) :
      IsTagText (c :: t)
  | quoted {q : Char} {content t : Text} (hq : q = '"' ∨ q = '\'') (hc : q ∉ content)
      (ht : IsTagText t) : IsTagText (q :: (content ++ q :: t))

theorem IsTagText.append {s t : Text} (hs : IsTagText s) (ht : IsTagText t) :
    IsTagText (s ++ t) := by
  induction hs with
  | nil => exact ht
  | char hend hquote _ ih => exact .char hend hquote ih
  | quoted hq hc _ ih =>
    rw [List.cons_append, List.append_assoc, List.cons_append]
    exact .quoted hq hc ih

theorem IsTagText.of_plain {t : Text}
    (h : t.all (fun c => c != '>' && (c != '"' && c != '\'')) = true) : IsTagText t := by
  induction t with
  | nil => exact .nil
  | cons c t ih =>
    simp only [List.all_cons, Bool.and_eq_true, bne_iff_ne] at h
    obtain ⟨⟨hend, hquote⟩, ht⟩ := h
    exact .char hend hquote (ih (by simpa using ht))

/-- What can stand between the name of a start tag and its end: nothing, or the text of attributes,
which begins with a blank or a slash so that the name ends there. -/
structure IsAttributes (attributes : Text) : Prop where
  ends : atNameEnd attributes = true
  text : IsTagText attributes

def openTag (name attributes : Text) : Text := '<' :: (name ++ (attributes ++ ['>']))

def closeTag (name : Text) : Text := '<' :: '/' :: (name ++ ['>'])

theorem openTag_append (name attributes rest : Text) :
    openTag name attributes ++ rest = '<' :: (name ++ (attributes ++ '>' :: rest)) := by
  simp [openTag]

theorem width_openTag (name attributes : Text) :
    width (openTag name attributes) = 1 + width name + width attributes + 1 := by
  have hmarks : '<'.utf8Size = 1 ∧ '>'.utf8Size = 1 := by decide
  simp only [openTag, width_cons, width_append, width_nil, hmarks]
  omega

theorem splitTag_quoted {q : Char} {content : Text} (hc : q ∉ content) (t : Text) :
    splitTag (some q) (content ++ q :: t) =
      (content ++ q :: (splitTag none t).1, (splitTag none t).2) := by
  induction content with
  | nil => simp [splitTag]
  | cons c content ih =>
    have hne : c ≠ q := by
      rintro rfl
      exact hc List.mem_cons_self
    have hcontent := ih fun h => hc (List.mem_cons_of_mem c h)
    simp [splitTag, hne, hcontent]

theorem splitTag_tagText {t : Text} (ht : IsTagText t) (rest : Text) :
    splitTag none (t ++ '>' :: rest) = (t, some rest) := by
  induction ht with
  | nil => simp [splitTag]
  | char hend hquote _ ih => simp [splitTag, hend, hquote, ih]
  | @quoted q content t hq hc _ ih =>
    have hne : q ≠ '>' := by
      rintro rfl
      simp at hq
    simp [splitTag, hne, hq, splitTag_quoted hc, ih]

/-- A start tag behind its name. -/
theorem startTag_attributes {attributes : Text} (ha : IsTagText attributes) (offset : Nat)
    (rest : Text) :
    startTag ⟨offset, attributes ++ '>' :: rest⟩ =
      ⟨attributes, ⟨offset + width attributes + 1, rest⟩, attributes.getLast? == some '/'⟩ := by
  simp only [startTag, splitTag_tagText ha]

theorem atNameEnd_attributes {attributes : Text} (h : IsAttributes attributes) (rest : Text) :
    atNameEnd (attributes ++ '>' :: rest) = true := by
  cases attributes with
  | nil => rfl
  | cons c attributes => exact h.ends

/-! ## One step of the scan -/

theorem nextMark_mark {t : Text} (ht : t.head? = some '<') (offset : Nat) :
    nextMark ⟨offset, t⟩ = ⟨offset, t⟩ := by
  obtain ⟨u, rfl⟩ := List.head?_eq_some_iff.1 ht
  simp [nextMark, Cursor.skipWhile]

theorem nextMark_cons {c : Char} (hc : c ≠ '<') (offset : Nat) (t : Text) :
    nextMark ⟨offset, c :: t⟩ = nextMark ⟨offset + c.utf8Size, t⟩ := by
  simp [nextMark, Cursor.skipWhile, hc, Nat.add_assoc]

/-- What the scan does at the next mark. -/
theorem closingTag?_eq (name : Text) (depth : Nat) (c : Cursor) :
    closingTag? name depth c =
      if (nextMark c).rest = [] then none
      else if hasComments name && startsComment (nextMark c).rest then
        (((nextMark c).skip 4).find? "-->".toList).bind fun found =>
          closingTag? name depth (found.skip 3)
      else if startsWithTag ('<' :: '/' :: name) (nextMark c).rest then
        match depth with
        | 0 => some (nextMark c, ((nextMark c).skip 2).skipPast '>')
        | d + 1 => closingTag? name d (((nextMark c).skip 2).skipPast '>')
      else if startsWithTag ('<' :: name) (nextMark c).rest then
        closingTag? name
          (if (startTag ((nextMark c).skip (name.length + 1))).selfClosing then depth
            else depth + 1)
          (startTag ((nextMark c).skip (name.length + 1))).after
      else closingTag? name depth ((nextMark c).skip 1) := by
  rw [closingTag?.eq_def]
  refine dite_congr rfl (fun _ => rfl) (fun _ => ite_congr rfl (fun _ => ?_) (fun _ => rfl))
  split
  · rename_i hf
    rw [hf]
    rfl
  · rename_i hf
    rw [hf]
    rfl

/-- The scan passes over a character that is not a mark. -/
theorem closingTag?_cons {c : Char} (hc : c ≠ '<') (name : Text) (depth offset : Nat) (t : Text) :
    closingTag? name depth ⟨offset, c :: t⟩ =
      closingTag? name depth ⟨offset + c.utf8Size, t⟩ := by
  rw [closingTag?_eq name depth ⟨offset, c :: t⟩, nextMark_cons hc, ← closingTag?_eq]

theorem startsComment_eq_false {c : Char} (hc : c ≠ '!') (t : Text) :
    startsComment ('<' :: c :: t) = false := by
  rw [Bool.eq_false_iff]
  intro h
  obtain ⟨u, hu⟩ := List.isPrefixOf_iff_prefix.1 h
  simp only [String.reduceToList, List.cons_append, List.cons.injEq] at hu
  exact hc hu.2.1.symm

theorem startsWithTag_closing_eq_false {c : Char} (hc : c ≠ '/') (name t : Text) :
    startsWithTag ('<' :: '/' :: name) ('<' :: c :: t) = false := by
  rw [Bool.eq_false_iff]
  intro h
  obtain ⟨spelling, after, heq, hname⟩ := startsWithFolded_iff.1 (Bool.and_eq_true_iff.1 h).1
  rcases spelling with _ | ⟨a, _ | ⟨b, spelling⟩⟩
  · simp at hname
  · simp at hname
  · simp only [List.cons_append, List.cons.injEq, lower_cons] at heq hname
    rw [← heq.2.1] at hname
    exact hc (eq_of_toLower_eq (by decide) hname.2.1)

theorem IsBlockName.startsComment_eq_false {name : Text} (h : IsBlockName name) (t : Text) :
    startsComment ('<' :: (name ++ t)) = false := by
  obtain ⟨first, others, rfl, halpha⟩ := exists_cons_of_head? h.letter
  apply Block.startsComment_eq_false
  rintro rfl
  exact absurd halpha (by decide)

/-- Nothing stops the scan inside a chunk. -/
theorem closingTag?_chunk {name t rest : Text} (hname : IsBlockName name) (ht : IsChunk name t)
    (hrest : rest.head? = some '<') (depth offset : Nat) :
    closingTag? name depth ⟨offset, t ++ rest⟩ =
      closingTag? name depth ⟨offset + width t, rest⟩ := by
  -- character by character: at a `<` nothing begins that the chunk excludes, not even across the
  -- seam, since what follows begins with the next `<`
  induction t generalizing offset with
  | nil => rfl
  | cons c t ih =>
    have hnext := ih ht.tail (offset + c.utf8Size)
    rw [width_cons, ← Nat.add_assoc, ← hnext, List.cons_append]
    by_cases hc : c = '<'
    · subst hc
      have hcomment : (hasComments name && startsComment ('<' :: (t ++ rest))) = false := by
        rw [Bool.eq_false_iff]
        intro h
        obtain ⟨hhas, hstarts⟩ := Bool.and_eq_true_iff.1 h
        have hprefix : "<!--".toList <+: '<' :: t ++ rest := List.isPrefixOf_iff_prefix.1 hstarts
        exact ht.comment hhas (prefix_of_seam (by decide) (by simp) hrest hprefix).isInfix
      have hclosing : startsWithTag ('<' :: '/' :: name) ('<' :: (t ++ rest)) = false := by
        rw [Bool.eq_false_iff]
        intro h
        exact ht.closing (holdsTag_of_seam (by simp [hname.unmarked]) (by simp) hrest h)
      have hopening : startsWithTag ('<' :: name) ('<' :: (t ++ rest)) = false := by
        rw [Bool.eq_false_iff]
        intro h
        exact ht.opening (holdsTag_of_seam (by simp [hname.unmarked]) (by simp) hrest h)
      rw [closingTag?_eq, nextMark_mark rfl, if_neg (by simp), hcomment, hclosing, hopening,
        Cursor.skip_one]
      rfl
    · exact closingTag?_cons hc name depth offset (t ++ rest)

/-- Behind a comment a scan goes on, whatever stands in the comment. -/
theorem bind_comment {α : Type} (go : Cursor → Option α) {body : Text}
    (hb : ¬ "-->".toList <:+: body) (offset : Nat) (rest : Text) :
    (((Cursor.mk offset ("<!--".toList ++ (body ++ ("-->".toList ++ rest)))).skip 4).find?
        "-->".toList).bind (fun found => go (found.skip 3)) =
      go ⟨offset + width ("<!--".toList ++ (body ++ "-->".toList)), rest⟩ := by
  have hskip : (Cursor.mk offset ("<!--".toList ++ (body ++ ("-->".toList ++ rest)))).skip 4 =
      ⟨offset + width "<!--".toList, body ++ ("-->".toList ++ rest)⟩ :=
    Cursor.skip_run "<!--".toList _ offset
  have hfind : (Cursor.mk (offset + width "<!--".toList) (body ++ ("-->".toList ++ rest))).find?
      "-->".toList = some ⟨offset + width "<!--".toList + width body, "-->".toList ++ rest⟩ := by
    rw [Cursor.find?, breakOn?_commentEnd hb]
    rfl
  have hbehind : (Cursor.mk (offset + width "<!--".toList + width body)
      ("-->".toList ++ rest)).skip 3 =
        ⟨offset + width ("<!--".toList ++ (body ++ "-->".toList)), rest⟩ := by
    simp only [width_append, ← Nat.add_assoc]
    exact Cursor.skip_run "-->".toList rest _
  rw [hskip, hfind, Option.bind_some, hbehind]

theorem startsComment_comment (t : Text) : startsComment ("<!--".toList ++ t) = true :=
  List.isPrefixOf_iff_prefix.2 (List.prefix_append _ _)

/-- A comment is passed over, whatever stands in it. -/
theorem closingTag?_comment {name body : Text} (hname : hasComments name = true)
    (hb : ¬ "-->".toList <:+: body) (depth offset : Nat) (rest : Text) :
    closingTag? name depth ⟨offset, "<!--".toList ++ (body ++ ("-->".toList ++ rest))⟩ =
      closingTag? name depth ⟨offset + width ("<!--".toList ++ (body ++ "-->".toList)), rest⟩ := by
  rw [closingTag?_eq, nextMark_mark rfl, if_neg (by simp),
    if_pos (Bool.and_eq_true_iff.2 ⟨hname, startsComment_comment _⟩), bind_comment _ hb]

/-- A start tag of the same name, in any case, goes one block deeper, unless it closes itself. -/
theorem closingTag?_spelling {name spelling attributes rest : Text}
    (hs : eqFolded spelling name = true) (ha : IsAttributes attributes)
    (hcomment : (hasComments name && startsComment (openTag spelling attributes ++ rest)) = false)
    (hclosing : startsWithTag ('<' :: '/' :: name) (openTag spelling attributes ++ rest) = false)
    (depth offset : Nat) :
    closingTag? name depth ⟨offset, openTag spelling attributes ++ rest⟩ =
      closingTag? name (if attributes.getLast? = some '/' then depth else depth + 1)
        ⟨offset + width (openTag spelling attributes), rest⟩ := by
  have hlower := eqFolded_iff.1 hs
  have hopening : startsWithTag ('<' :: name)
      ('<' :: (spelling ++ (attributes ++ '>' :: rest))) = true :=
    startsWithTag_iff.2 ⟨'<' :: spelling, _, rfl,
      eqFolded_iff.2 (by rw [lower_cons, lower_cons, hlower]), atNameEnd_attributes ha rest⟩
  have hskip : (Cursor.mk offset ('<' :: (spelling ++ (attributes ++ '>' :: rest)))).skip
      (name.length + 1) = ⟨offset + width ('<' :: spelling), attributes ++ '>' :: rest⟩ := by
    rw [← length_eq_of_lower_eq hlower]
    exact Cursor.skip_run ('<' :: spelling) _ offset
  have hbehind : offset + width ('<' :: spelling) + width attributes + 1 =
      offset + width (openTag spelling attributes) := by
    have hmark : '<'.utf8Size = 1 := by decide
    rw [width_openTag, width_cons, hmark]
    omega
  rw [openTag_append] at hcomment hclosing ⊢
  rw [closingTag?_eq, nextMark_mark rfl, if_neg (by simp), hcomment, hclosing, hopening, hskip,
    startTag_attributes ha.text, hbehind]
  simp

theorem closingTag?_openTag {name attributes : Text} (hname : IsBlockName name)
    (ha : IsAttributes attributes) (depth offset : Nat) (rest : Text) :
    closingTag? name depth ⟨offset, openTag name attributes ++ rest⟩ =
      closingTag? name (if attributes.getLast? = some '/' then depth else depth + 1)
        ⟨offset + width (openTag name attributes), rest⟩ := by
  refine closingTag?_spelling (eqFolded_self name) ha ?_ ?_ depth offset
  · rw [openTag_append, hname.startsComment_eq_false, Bool.and_false]
  · obtain ⟨first, others, rfl, halpha⟩ := exists_cons_of_head? hname.letter
    rw [openTag_append]
    apply startsWithTag_closing_eq_false
    rintro rfl
    exact absurd halpha (by decide)

/-- A closing tag of the same name ends the block if no other is open, and else goes one block
back. -/
theorem closingTag?_closeTag {name : Text} (hname : IsBlockName name) (depth offset : Nat)
    (rest : Text) :
    closingTag? name depth ⟨offset, closeTag name ++ rest⟩ =
      match depth with
      | 0 => some (⟨offset, closeTag name ++ rest⟩, ⟨offset + width (closeTag name), rest⟩)
      | d + 1 => closingTag? name d ⟨offset + width (closeTag name), rest⟩ := by
  have hbound : '>' ∉ name := by
    intro h
    exact absurd (List.all_eq_true.1 hname.parts _ h) (by decide)
  have hcomment : startsComment (closeTag name ++ rest) = false :=
    startsComment_eq_false (by decide) _
  have hclosing : startsWithTag ('<' :: '/' :: name) (closeTag name ++ rest) = true :=
    startsWithTag_iff.2 ⟨'<' :: '/' :: name, '>' :: rest, by simp [closeTag], eqFolded_self _, rfl⟩
  have hskip : ((Cursor.mk offset (closeTag name ++ rest)).skip 2).skipPast '>' =
      ⟨offset + width (closeTag name), rest⟩ := by
    have htext : closeTag name ++ rest = ['<', '/'] ++ (name ++ '>' :: rest) := by
      simp [closeTag]
    have hpast : ((Cursor.mk offset (['<', '/'] ++ (name ++ '>' :: rest))).skip 2).skipPast '>' =
        ⟨offset + width ['<', '/'] + width name + '>'.utf8Size, rest⟩ :=
      Cursor.skip_skipPast_mark hbound rest offset
    rw [htext, hpast]
    simp only [closeTag, width_cons, width_append, width_nil, Nat.add_assoc, Nat.add_zero]
  rw [closingTag?_eq, nextMark_mark rfl, if_neg (by simp [closeTag]), hcomment, hclosing, hskip,
    Bool.and_false, if_neg (by decide), if_pos rfl]

/-! ## The search for the template -/

/-- What the search does at the next mark. -/
theorem findTemplate?_eq (c : Cursor) :
    findTemplate? c =
      let here := nextMark c
      let name := (here.skip 1).rest.takeWhile isTagPart
      let tag := startTag ((here.skip 1).skipWhile isTagPart)
      if here.rest = [] then none
      else if startsComment here.rest then
        ((here.skip 4).find? "-->".toList).bind fun found => findTemplate? (found.skip 3)
      else if (name.head?.map Char.isAlpha).getD false then
        if !eqFolded name templateName then findTemplate? (skipBlock name tag)
        else if tag.selfClosing then none
        else some (templateBlock here.offset tag)
      else findTemplate? (here.skip 1) := by
  rw [findTemplate?.eq_def]
  refine dite_congr rfl (fun _ => rfl) (fun _ => ite_congr rfl (fun _ => ?_) (fun _ => rfl))
  split
  · rename_i hf
    rw [hf]
    rfl
  · rename_i hf
    rw [hf]
    rfl

/-- What the search does at a start tag: it passes over the block, unless it is a template. -/
theorem findTemplate?_openTag {name attributes : Text} (hname : IsBlockName name)
    (ha : IsAttributes attributes) (offset : Nat) (rest : Text) :
    findTemplate? ⟨offset, openTag name attributes ++ rest⟩ =
      let tag : StartTag := ⟨attributes, ⟨offset + width (openTag name attributes), rest⟩,
        attributes.getLast? == some '/'⟩
      if eqFolded name templateName then
        if tag.selfClosing then none else some (templateBlock offset tag)
      else findTemplate? (skipBlock name tag) := by
  have hstops : Stops isTagPart (attributes ++ '>' :: rest) :=
    stops_of_atNameEnd (atNameEnd_attributes ha rest)
  have hskip : (Cursor.mk offset ('<' :: (name ++ (attributes ++ '>' :: rest)))).skip 1 =
      ⟨offset + 1, name ++ (attributes ++ '>' :: rest)⟩ := Cursor.skip_one _ _ _
  have hparts : ∀ c ∈ name, isTagPart c = true := List.all_eq_true.1 hname.parts
  have hread : (name ++ (attributes ++ '>' :: rest)).takeWhile isTagPart = name :=
    takeWhile_run hparts hstops
  have hletter : (name.head?.map Char.isAlpha).getD false = true := by
    obtain ⟨first, others, rfl, halpha⟩ := exists_cons_of_head? hname.letter
    exact halpha
  have hbehind : offset + 1 + width name + width attributes + 1 =
      offset + width (openTag name attributes) := by
    rw [width_openTag]
    omega
  rw [openTag_append, findTemplate?_eq, nextMark_mark rfl]
  simp only [hskip, hread, Cursor.skipWhile_run hparts hstops, startTag_attributes ha.text,
    hbehind, hname.startsComment_eq_false, hletter, reduceCtorEq, if_false, if_true,
    Bool.false_eq_true]
  cases eqFolded name templateName <;> rfl

/-- The search passes over a comment. -/
theorem findTemplate?_comment {body : Text} (hb : ¬ "-->".toList <:+: body) (offset : Nat)
    (rest : Text) :
    findTemplate? ⟨offset, "<!--".toList ++ (body ++ ("-->".toList ++ rest))⟩ =
      findTemplate? ⟨offset + width ("<!--".toList ++ (body ++ "-->".toList)), rest⟩ := by
  rw [findTemplate?_eq, nextMark_mark rfl]
  dsimp only
  rw [if_neg (by simp), if_pos (startsComment_comment _), bind_comment _ hb]

end Block

end BindingToggle
