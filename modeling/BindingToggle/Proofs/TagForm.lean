import BindingToggle.Proofs.AttributeForm

/-!
# How start tags are written

Behind its name, a start tag is a list of items, attributes and stray slashes, with blanks in front
of each, and then an end. A `TagForm` holds all of these characters.

* `tagBody_form` — a tag form is read as what it stands for, and the cursor comes behind it.
* `exists_tagForm` — every text begins with one.
* `Replaces` — a text can stand for another behind the items of a tag, without the items being read
  differently; `replaces_attribute` is the case of a new attribute, and `TagForm.Fits.replace` says
  that a tag is read without regard to what follows its end.
-/

namespace BindingToggle

namespace Markup

open Text

/-! ## Items -/

/-- What can stand in a start tag behind blanks. -/
inductive TagItem where
  /-- A slash that does not close the tag. -/
  | slash
  | attr (form : AttributeForm)
  deriving DecidableEq, Repr, Inhabited

namespace TagItem

def text : TagItem → Text
  | slash => ['/']
  | attr form => form.text

/-- The attribute that an item at `start` is, if it is one. -/
def attributes (start : Nat) : TagItem → List Attribute
  | slash => []
  | attr form => [form.toAttribute start]

def issues (start : Nat) : TagItem → List Issue
  | slash => []
  | attr form => form.issues start

/-- Whether the item ends in front of `rest`. -/
def Fits (rest : Text) : TagItem → Prop
  | slash => rest.head? ≠ some '>'
  | attr form => form.Fits rest

end TagItem

/-- Items with the blanks in front of each. -/
abbrev TagItems := List (Text × TagItem)

namespace TagItems

def text : TagItems → Text
  | [] => []
  | (blanks, item) :: items => blanks ++ (item.text ++ text items)

/-- The attributes of items that begin at `start`. -/
def attributes (start : Nat) : TagItems → List Attribute
  | [] => []
  | (blanks, item) :: items =>
    item.attributes (start + width blanks) ++
      attributes (start + width blanks + width item.text) items

/-- The issues of items that begin at `start`. -/
def issues (start : Nat) : TagItems → List Issue
  | [] => []
  | (blanks, item) :: items =>
    item.issues (start + width blanks) ++ issues (start + width blanks + width item.text) items

/-- Whether the items end in front of `rest`. -/
def Fits (rest : Text) : TagItems → Prop
  | [] => True
  | (blanks, item) :: items =>
    (∀ c ∈ blanks, isMarkupBlank c = true) ∧ item.Fits (text items ++ rest) ∧ Fits rest items

end TagItems

/-! ## Reading items -/

/-- What is read in a tag behind attributes and issues that have been met. -/
def TagBody.behind (attributes : List Attribute) (issues : List Issue) (body : TagBody) : TagBody :=
  { body with
    attributes := attributes ++ body.attributes
    issues := issues ++ body.issues }

theorem tagBody_missing {blanks : Text} (hb : ∀ c ∈ blanks, isMarkupBlank c = true)
    (offset : Nat) :
    tagBody ⟨offset, blanks⟩ = ⟨[], [], .missing, ⟨offset + width blanks, []⟩⟩ := by
  have hs : (Cursor.mk offset blanks).skipWhile isMarkupBlank = ⟨offset + width blanks, []⟩ := by
    simpa using Cursor.skipWhile_run hb (stops_nil _) offset
  rw [tagBody, hs]

theorem tagBody_complete {blanks : Text} (hb : ∀ c ∈ blanks, isMarkupBlank c = true)
    (offset : Nat) (rest : Text) :
    tagBody ⟨offset, blanks ++ '>' :: rest⟩ =
      ⟨[], [], .complete, ⟨offset + width blanks + 1, rest⟩⟩ := by
  have hstop : Stops isMarkupBlank ('>' :: rest) := stops_cons.2 (by decide)
  have hs := Cursor.skipWhile_run hb hstop offset
  rw [tagBody, hs]
  rfl

theorem tagBody_selfClosing {blanks : Text} (hb : ∀ c ∈ blanks, isMarkupBlank c = true)
    (offset : Nat) (rest : Text) :
    tagBody ⟨offset, blanks ++ '/' :: '>' :: rest⟩ =
      ⟨[], [], .selfClosing, ⟨offset + width blanks + 2, rest⟩⟩ := by
  have hstop : Stops isMarkupBlank ('/' :: '>' :: rest) := stops_cons.2 (by decide)
  have hs := Cursor.skipWhile_run hb hstop offset
  rw [tagBody, hs]
  rfl

theorem tagBody_slash {blanks rest : Text} (hb : ∀ c ∈ blanks, isMarkupBlank c = true)
    (hr : rest.head? ≠ some '>') (offset : Nat) :
    tagBody ⟨offset, blanks ++ '/' :: rest⟩ = tagBody ⟨offset + width blanks + 1, rest⟩ := by
  have hstop : Stops isMarkupBlank ('/' :: rest) := stops_cons.2 (by decide)
  have hs := Cursor.skipWhile_run hb hstop offset
  rw [tagBody, hs]
  split
  · rename_i h; cases h
  · rename_i h; cases h; exact absurd rfl hr
  · rw [Cursor.skip_one]; rfl
  · rename_i h; cases h
  · rename_i hne _ h; cases h; exact (hne rfl).elim

theorem tagBody_attribute {blanks rest : Text} (hb : ∀ c ∈ blanks, isMarkupBlank c = true)
    {form : AttributeForm} (hf : form.Fits rest) (offset : Nat) :
    tagBody ⟨offset, blanks ++ (form.text ++ rest)⟩ =
      (tagBody ⟨offset + width blanks + width form.text, rest⟩).behind
        [form.toAttribute (offset + width blanks)] (form.issues (offset + width blanks)) := by
  obtain ⟨c, u, htext, hc, hslash, hend⟩ := hf.starts_text.append rest
  have hs : (Cursor.mk offset (blanks ++ (form.text ++ rest))).skipWhile isMarkupBlank =
      ⟨offset + width blanks, form.text ++ rest⟩ :=
    Cursor.skipWhile_run hb (by rw [htext]; exact stops_cons.2 hc) offset
  have ha := attributeAt_form hf (offset + width blanks)
  rw [tagBody, hs]
  split
  · rename_i h; rw [htext] at h; cases h
  · rename_i h; rw [htext] at h; cases h; exact absurd rfl hslash
  · rename_i h; rw [htext] at h; cases h; exact absurd rfl hslash
  · rename_i h; rw [htext] at h; cases h; exact absurd rfl hend
  · rw [ha]
    rfl

theorem tagBody_items {items : TagItems} {rest : Text} (h : items.Fits rest) (offset : Nat) :
    tagBody ⟨offset, items.text ++ rest⟩ =
      (tagBody ⟨offset + width items.text, rest⟩).behind (items.attributes offset)
        (items.issues offset) := by
  induction items generalizing offset with
  | nil => rfl
  | cons first items ih =>
    obtain ⟨blanks, item⟩ := first
    obtain ⟨hb, hitem, hitems⟩ := h
    cases item with
    | slash =>
      simp only [TagItems.text, TagItem.text, List.cons_append, List.nil_append, List.append_assoc]
      rw [tagBody_slash hb hitem, ih hitems]
      have hw : '/'.utf8Size = 1 := by decide
      simp [TagItems.attributes, TagItems.issues, TagItem.attributes, TagItem.issues, TagItem.text,
        hw, Nat.add_assoc]
    | attr form =>
      simp only [TagItems.text, TagItem.text, List.append_assoc]
      rw [tagBody_attribute hb hitem, ih hitems]
      simp [TagBody.behind, TagItems.attributes, TagItems.issues, TagItem.attributes,
        TagItem.issues, TagItem.text, Nat.add_assoc]

/-! ## Whole tags -/

/-- The characters of a start tag behind its name. -/
structure TagForm where
  items : TagItems
  /-- The blanks in front of the end. -/
  blanks : Text
  ending : TagEnd
  deriving DecidableEq, Repr, Inhabited

/-- The characters of the end of a tag. -/
def TagEnd.text : TagEnd → Text
  | complete => ['>']
  | selfClosing => ['/', '>']
  | missing => []

namespace TagForm

/-- The blanks at the end of the tag, and its end. -/
def close (f : TagForm) : Text := f.blanks ++ f.ending.text

def text (f : TagForm) : Text := f.items.text ++ f.close

/-- What is read at `start`, in front of `rest`. -/
def body (f : TagForm) (start : Nat) (rest : Text) : TagBody :=
  ⟨f.items.attributes start, f.items.issues start, f.ending, ⟨start + width f.text, rest⟩⟩

/-- Whether the tag ends in front of `rest`. -/
structure Fits (f : TagForm) (rest : Text) : Prop where
  items : f.items.Fits (f.close ++ rest)
  blanks : ∀ c ∈ f.blanks, isMarkupBlank c = true
  ending : f.ending = .missing → rest = []

end TagForm

/-- **A tag form is read as what it stands for.** -/
theorem tagBody_form {f : TagForm} {rest : Text} (h : f.Fits rest) (offset : Nat) :
    tagBody ⟨offset, f.text ++ rest⟩ = f.body offset rest := by
  rw [TagForm.text, List.append_assoc, tagBody_items h.items]
  have hb := h.blanks
  cases he : f.ending with
  | complete =>
    simp only [TagForm.close, he, TagEnd.text, List.append_assoc, List.cons_append, List.nil_append]
    rw [tagBody_complete hb]
    simp [TagBody.behind, TagForm.body, TagForm.text, TagForm.close, he, TagEnd.text, Nat.add_assoc]
    decide
  | selfClosing =>
    simp only [TagForm.close, he, TagEnd.text, List.append_assoc, List.cons_append, List.nil_append]
    rw [tagBody_selfClosing hb]
    simp [TagBody.behind, TagForm.body, TagForm.text, TagForm.close, he, TagEnd.text, Nat.add_assoc]
    decide
  | missing =>
    have hr := h.ending he
    subst hr
    simp only [TagForm.close, he, TagEnd.text, List.append_nil]
    rw [tagBody_missing hb]
    simp [TagBody.behind, TagForm.body, TagForm.text, TagForm.close, he, TagEnd.text, Nat.add_assoc]

theorem TagForm.Fits.cons {f : TagForm} {rest blanks : Text} {item : TagItem} (h : f.Fits rest)
    (hb : ∀ c ∈ blanks, isMarkupBlank c = true) (hi : item.Fits (f.text ++ rest)) :
    TagForm.Fits { f with items := (blanks, item) :: f.items } rest := by
  refine ⟨⟨hb, ?_, h.items⟩, h.blanks, h.ending⟩
  simpa [TagForm.text, TagForm.close] using hi

/-- **Every text begins with a tag form.** -/
theorem exists_tagForm (t : Text) :
    ∃ (f : TagForm) (rest : Text), f.Fits rest ∧ t = f.text ++ rest := by
  -- by the length of the text: an item is taken off, and a tag form stands behind it
  induction hn : t.length using Nat.strongRecOn generalizing t with
  | ind n ih =>
    subst hn
    obtain ⟨blanks, u, rfl, hb, hstop⟩ := exists_run isMarkupBlank t
    cases u with
    | nil =>
      exact ⟨⟨[], blanks, .missing⟩, [], ⟨trivial, hb, fun _ => rfl⟩,
        by simp [TagForm.text, TagForm.close, TagItems.text, TagEnd.text]⟩
    | cons c u =>
      by_cases hend : c = '>'
      · subst hend
        exact ⟨⟨[], blanks, .complete⟩, u, ⟨trivial, hb, fun h => (by cases h)⟩,
          by simp [TagForm.text, TagForm.close, TagItems.text, TagEnd.text]⟩
      by_cases hslash : c = '/'
      · subst hslash
        by_cases hclose : u.head? = some '>'
        · obtain ⟨v, rfl⟩ := List.head?_eq_some_iff.1 hclose
          exact ⟨⟨[], blanks, .selfClosing⟩, v, ⟨trivial, hb, fun h => (by cases h)⟩,
            by simp [TagForm.text, TagForm.close, TagItems.text, TagEnd.text]⟩
        · obtain ⟨f, rest, hf, rfl⟩ := ih u.length (by simp; omega) u rfl
          exact ⟨_, rest, hf.cons hb (show TagItem.Fits _ .slash from hclose),
            by simp [TagForm.text, TagForm.close, TagItems.text, TagItem.text]⟩
      · have hstarts : AttributeForm.Starts (c :: u) :=
          ⟨c, u, rfl, stops_cons.1 hstop, hslash, hend⟩
        obtain ⟨form, v, hform, hv⟩ := exists_attributeForm hstarts
        have hlen : v.length < (blanks ++ c :: u).length := by
          obtain ⟨d, w, hd, -⟩ := hform.starts
          rw [hv, AttributeForm.text, hd]
          simp
          omega
        obtain ⟨f, rest, hf, rfl⟩ := ih v.length hlen v rfl
        refine ⟨_, rest, hf.cons hb (show TagItem.Fits _ (.attr form) from hform), ?_⟩
        rw [hv]
        simp [TagForm.text, TagForm.close, TagItems.text, TagItem.text]

/-! ## Changing what stands behind the items -/

/-- Items that end in front of `t` also end in front of `t'`. -/
structure Replaces (t t' : Text) : Prop where
  form : ∀ f : AttributeForm, f.Fits t → f.Fits t'
  /-- A name that is followed by `t` gets no value by `t'`. -/
  mark : (t.dropWhile isMarkupBlank).head? ≠ some '=' →
    (t'.dropWhile isMarkupBlank).head? ≠ some '='
  /-- A slash that is followed by `t` does not close the tag by `t'`. -/
  close : t.head? ≠ some '>' → t'.head? ≠ some '>'

theorem Replaces.append {t t' : Text} (h : Replaces t t') (x : Text) :
    Replaces (x ++ t) (x ++ t') := by
  cases x with
  | nil => exact h
  | cons c x =>
    have hmark : ((c :: x ++ t).dropWhile isMarkupBlank).head? ≠ some '=' →
        ((c :: x ++ t').dropWhile isMarkupBlank).head? ≠ some '=' := by
      rw [List.dropWhile_append, List.dropWhile_append]
      split
      · exact h.mark
      · rename_i hx
        obtain ⟨d, y, hy⟩ := List.exists_cons_of_ne_nil (mt List.isEmpty_iff.2 hx)
        rw [hy]
        exact id
    exact ⟨fun f hf => hf.congr (by simp) rfl hmark, hmark, id⟩

/-- Behind the same character, unless it is a blank, any text is as good as any other. -/
theorem replaces_cons {c : Char} (hc : isMarkupBlank c = false) (t t' : Text) :
    Replaces (c :: t) (c :: t') := by
  have hmark : ((c :: t).dropWhile isMarkupBlank).head? ≠ some '=' →
      ((c :: t').dropWhile isMarkupBlank).head? ≠ some '=' := by
    simp [hc]
  exact ⟨fun f hf => hf.congr (by simp) rfl hmark, hmark, id⟩

/-- An attribute can take the place of another, unless its name begins with an equals sign. -/
theorem replaces_attribute {t t' : Text} (ht : AttributeForm.Starts t)
    (ht' : AttributeForm.Starts t') (heq : t'.head? ≠ some '=') : Replaces t t' := by
  obtain ⟨c, u, rfl, hc, hslash, hend⟩ := ht
  obtain ⟨c', u', rfl, hc', hslash', hend'⟩ := ht'
  refine ⟨fun f hf => ?_, fun _ => ?_, fun _ => ?_⟩
  · refine ⟨hf.starts, hf.name, fun hn => ?_, fun p hp => ?_⟩
    · -- a name without a value would have gone on
      obtain ⟨hstop, hmark⟩ := hf.alone hn
      have hpart := stops_cons.1 hstop
      simp only [List.dropWhile_cons, hc, Bool.false_eq_true, if_false, List.head?_cons, ne_eq,
        Option.some.injEq] at hmark
      simp [isAttributePart, hc, hslash, hend, hmark] at hpart
    · obtain ⟨hform, hbefore, hbehind, hblank⟩ := hf.valued p hp
      cases hv : p.form with
      | quoted q content closed =>
        rw [hv] at hform hblank
        obtain ⟨hq, hn, hclosed⟩ := hform
        exact ⟨⟨hq, hn, fun h => absurd (hclosed h) (by simp)⟩, hbefore, hbehind, hblank⟩
      | unquoted content =>
        -- and so would a value without quotes
        rw [hv] at hform
        have hpart := stops_cons.1 hform.2.1
        simp [isUnquotedPart, hc, hend] at hpart
  · simpa [List.dropWhile_cons, hc'] using heq
  · simpa using hend'

theorem TagItems.Fits.replace {items : TagItems} {t t' : Text} (h : items.Fits t)
    (hr : Replaces t t') : items.Fits t' := by
  induction items with
  | nil => trivial
  | cons first items ih =>
    obtain ⟨blanks, item⟩ := first
    obtain ⟨hb, hitem, hitems⟩ := h
    refine ⟨hb, ?_, ih hitems⟩
    cases item with
    | slash => exact (hr.append _).close hitem
    | attr form => exact (hr.append _).form form hitem

/-- A tag that ends does not depend on what follows it. -/
theorem TagForm.Fits.replace {f : TagForm} {rest : Text} (h : f.Fits rest)
    (he : f.ending ≠ .missing) (rest' : Text) : f.Fits rest' := by
  refine ⟨?_, h.blanks, fun hm => absurd hm he⟩
  have hclose : Replaces (f.close ++ rest) (f.close ++ rest') := by
    rw [TagForm.close, List.append_assoc, List.append_assoc]
    refine Replaces.append ?_ f.blanks
    cases hend : f.ending with
    | complete => exact replaces_cons (by decide) _ _
    | selfClosing => exact replaces_cons (by decide) _ _
    | missing => exact absurd hend he
  exact h.items.replace hclose

/-! ## Taking items apart -/

namespace TagItems

theorem text_append (xs ys : TagItems) : text (xs ++ ys) = text xs ++ text ys := by
  induction xs with
  | nil => rfl
  | cons x xs ih => simp [text, ih]

theorem attributes_append (xs ys : TagItems) (start : Nat) :
    attributes start (xs ++ ys) =
      attributes start xs ++ attributes (start + width (text xs)) ys := by
  induction xs generalizing start with
  | nil => rfl
  | cons x xs ih => simp [attributes, text, ih, Nat.add_assoc]

theorem issues_append (xs ys : TagItems) (start : Nat) :
    issues start (xs ++ ys) = issues start xs ++ issues (start + width (text xs)) ys := by
  induction xs generalizing start with
  | nil => rfl
  | cons x xs ih => simp [issues, text, ih, Nat.add_assoc]

theorem fits_append {xs ys : TagItems} {rest : Text} :
    Fits rest (xs ++ ys) ↔ Fits (text ys ++ rest) xs ∧ Fits rest ys := by
  induction xs with
  | nil => simp [Fits]
  | cons x xs ih =>
    simp only [List.cons_append, Fits, ih, text_append, List.append_assoc, and_assoc]

/-- Every attribute of a list of items is written in it. -/
theorem exists_form_of_mem {items : TagItems} {start : Nat} {a : Attribute}
    (h : a ∈ attributes start items) :
    ∃ (front : TagItems) (blanks : Text) (form : AttributeForm) (back : TagItems),
      items = front ++ (blanks, .attr form) :: back ∧
      a = form.toAttribute (start + width (text front) + width blanks) := by
  induction items generalizing start with
  | nil => cases h
  | cons first items ih =>
    obtain ⟨blanks, item⟩ := first
    simp only [attributes, List.mem_append] at h
    rcases h with h | h
    · cases item with
      | slash => cases h
      | attr form =>
        simp only [TagItem.attributes, List.mem_singleton] at h
        exact ⟨[], blanks, form, items, rfl, by rw [h]; rfl⟩
    · obtain ⟨front, blanks', form, back, rfl, ha⟩ := ih h
      refine ⟨(blanks, item) :: front, blanks', form, back, rfl, ?_⟩
      rw [ha]
      simp [text, Nat.add_assoc]

end TagItems

end Markup

end BindingToggle
