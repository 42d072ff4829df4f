import BindingToggle.Proofs.Places

/-!
# Exchanging one attribute

A `Site` is a template with a gap in one of its start tags, where an attribute can be written.

* `exists_site` — every attribute of a template is written at a site, and its place is the place of
  the site.
* `Site.Holds.rewrite` — another attribute can be written there, with another end of the tag behind
  it, if its name does not begin with an equals sign. `Site.Holds.replace` is the case of an
  attribute that ends where the first one did.
* `Site.outline_fill` — the template is then read as before, with the other attribute in the place
  of the first, and with all places behind it moved. `substituted_fill` is the statement by address.
-/

namespace BindingToggle

namespace Markup

open Text

/-- A start tag of a template, with a gap for an attribute. -/
structure Site where
  /-- The text in front of the tag, and its events. -/
  before : Text
  passed : List Event
  tag : Text
  /-- What stands in the tag in front of the attribute. -/
  items : TagItems
  blanks : Text
  /-- What stands in the tag behind the attribute. -/
  others : TagForm
  /-- The text behind the tag. -/
  rest : Text

namespace Site

/-- What stands between the name of the tag and the attribute. -/
def lead (s : Site) : Text := s.items.text ++ s.blanks

/-- The text in front of the attribute. -/
def head (s : Site) : Text := s.before ++ '<' :: (s.tag ++ s.lead)

/-- The text behind the attribute. -/
def tail (s : Site) : Text := s.others.text ++ s.rest

/-- The template with an attribute at the site. -/
def fill (s : Site) (f : AttributeForm) : Text := s.head ++ (f.text ++ s.tail)

/-- Where the attribute begins. -/
def start (s : Site) : Nat := width s.head

/-- The tag with an attribute, behind its name. -/
def form (s : Site) (f : AttributeForm) : TagForm :=
  { s.others with items := s.items ++ (s.blanks, .attr f) :: s.others.items }

/-- The place behind the name of the tag. -/
def bodyStart (s : Site) : Nat := width s.before + 1 + width s.tag

/-- The template is read up to the tag, and the attribute is read at the site. -/
structure Holds (s : Site) (f : AttributeForm) : Prop where
  passes : Passes ⟨0, s.before ++ '<' :: (s.tag ++ ((s.form f).text ++ s.rest))⟩ s.passed
    ⟨width s.before, '<' :: (s.tag ++ ((s.form f).text ++ s.rest))⟩
  alpha : ∃ c u, s.tag = c :: u ∧ c.isAlpha = true
  tag : ∀ c ∈ s.tag, isTagPart c = true
  stops : Stops isTagPart ((s.form f).text ++ s.rest)
  fits : (s.form f).Fits s.rest

theorem text_form (s : Site) (f : AttributeForm) :
    (s.form f).text = s.lead ++ (f.text ++ s.others.text) := by
  simp [form, TagForm.text, TagForm.close, lead, TagItems.text_append, TagItems.text, TagItem.text]

theorem fill_eq (s : Site) (f : AttributeForm) :
    s.fill f = s.before ++ '<' :: (s.tag ++ ((s.form f).text ++ s.rest)) := by
  simp [fill, head, tail, text_form]

theorem start_eq (s : Site) : s.start = s.bodyStart + width s.items.text + width s.blanks := by
  have hw : '<'.utf8Size = 1 := by decide
  simp only [start, head, lead, bodyStart, width_append, width_cons, hw]
  omega

/-! ## Finding the site of an attribute -/

theorem Holds.fits_attr {s : Site} {f : AttributeForm} (h : s.Holds f) : f.Fits s.tail := by
  have hitems := (TagItems.fits_append.1 h.fits.items).2.2.1
  simpa [TagItem.Fits, tail, TagForm.text, TagForm.close, form] using hitems

end Site

theorem isTagPart_of_isAlpha {c : Char} (h : c.isAlpha = true) : isTagPart c = true := by
  have hn : c.toNat = c.val.toNat := rfl
  have hval : ∀ d : Char, c = d → c.val.toNat = d.val.toNat := by
    rintro d rfl
    rfl
  have hslash := hval '/'
  have hend := hval '>'
  simp [isAlpha_eq_ranges, UInt32.le_iff_toNat_le] at h hslash hend
  simp only [isTagPart, isMarkupBlank, hn, Bool.and_eq_true, Bool.not_eq_true',
    Bool.or_eq_false_iff, beq_eq_false_iff_ne, bne_iff_ne]
  refine ⟨⟨by omega, fun hc => ?_⟩, fun hc => ?_⟩
  · have := hslash hc
    omega
  · have := hend hc
    omega

open Element (allAttributes)

/-- **Every attribute of a template is written at a site.** -/
theorem exists_site {source : Text} {a : Attribute}
    (h : a ∈ allAttributes (parseTemplate source).roots) :
    ∃ (s : Site) (f : AttributeForm),
      s.Holds f ∧ source = s.fill f ∧ a = f.toAttribute s.start := by
  obtain ⟨es, ⟨offset, t⟩, hp, hm, ha⟩ :=
    exists_passes_of_mem ((perm_allAttributes source).mem_iff.1 h)
  obtain ⟨before, hsource, hoffset⟩ := hp.reaches
  obtain ⟨first, u, rfl, halpha⟩ := cons_of_markOf_start hm
  obtain ⟨tag, f, rest, ht, htag, hstop, hf⟩ := exists_startTag (first :: u)
  rw [ht, startTag_form htag hstop hf, attributes_events] at ha
  obtain ⟨items, blanks, form, back, hitems, rfl⟩ := TagItems.exists_form_of_mem ha
  simp only [Nat.zero_add] at hsource hoffset
  subst hoffset hsource
  rw [ht] at hp
  have hform :
      Site.form ⟨before, es, tag, items, blanks, { f with items := back }, rest⟩ form = f := by
    simp only [Site.form, ← hitems]
  have htagStart : ∃ c u, tag = c :: u ∧ c.isAlpha = true := by
    cases tag with
    | nil =>
      rw [List.nil_append] at ht
      rw [← ht] at hstop
      exact absurd (isTagPart_of_isAlpha halpha) (by simp [stops_cons.1 hstop])
    | cons c tag =>
      obtain rfl : first = c := (List.cons.inj ht).1
      exact ⟨first, tag, rfl, halpha⟩
  refine ⟨⟨before, es, tag, items, blanks, { f with items := back }, rest⟩, form, ?_, ?_, ?_⟩
  · refine ⟨?_, htagStart, htag, ?_, ?_⟩ <;> simp only [hform]
    · exact hp
    · exact hstop
    · exact hf
  · rw [Site.fill_eq, hform, ht]
  · rw [Site.start_eq]
    rfl

namespace Site

/-! ## Writing another attribute -/

/-- Something stands between the name of a tag and an attribute. -/
theorem Holds.exists_lead {s : Site} {f : AttributeForm} (h : s.Holds f) :
    ∃ c l, s.lead = c :: l ∧ isTagPart c = false := by
  have hstop := h.stops
  rw [text_form] at hstop
  cases hl : s.lead with
  | nil =>
    -- the first character of the attribute would be one of the name
    obtain ⟨c, u, hu, hc, hslash, hend⟩ := h.fits_attr.starts
    rw [hl, AttributeForm.text, hu] at hstop
    have := stops_cons.1 hstop
    simp [isTagPart, hc, hslash, hend] at this
  | cons c l =>
    rw [hl] at hstop
    exact ⟨c, l, rfl, stops_cons.1 hstop⟩

theorem Holds.fits_others {s : Site} {f : AttributeForm} (h : s.Holds f) :
    s.others.Fits s.rest :=
  ⟨(TagItems.fits_append.1 h.fits.items).2.2.2, h.fits.blanks, h.fits.ending⟩

/-- **Another attribute can be written at a site**, also with another end of the tag behind it. -/
theorem Holds.rewrite {s : Site} {f f' : AttributeForm} (h : s.Holds f) {others : TagForm}
    {rest : Text} (hf : f'.Fits (others.text ++ rest)) (hothers : others.Fits rest)
    (heq : f'.name.head? ≠ some '=') : Site.Holds { s with others, rest } f' := by
  obtain ⟨c, l, hl, hc⟩ := h.exists_lead
  obtain ⟨d, u, hd, halpha⟩ := h.alpha
  have htext : ∀ (others : TagForm) (rest : Text) (g : AttributeForm),
      (Site.form { s with others, rest } g).text ++ rest =
        c :: (l ++ (g.text ++ (others.text ++ rest))) := by
    intro others rest g
    rw [text_form]
    simp only [lead] at hl
    simp [lead, hl]
  have hstarts : AttributeForm.Starts (f.text ++ s.tail) := h.fits_attr.starts_text.append _
  have hstarts' : AttributeForm.Starts (f'.text ++ (others.text ++ rest)) :=
    hf.starts_text.append _
  refine ⟨?_, h.alpha, h.tag, ?_, ?_⟩
  · -- the characters up to the first one behind the name tell that a tag begins
    have hpasses := h.passes
    have hw : ∀ (others : TagForm) (rest : Text) (g : AttributeForm),
        '<' :: (s.tag ++ ((Site.form { s with others, rest } g).text ++ rest)) =
          ('<' :: (s.tag ++ [c])) ++ (l ++ (g.text ++ (others.text ++ rest))) := by
      intro others rest g
      simp [htext]
    have hold := hw s.others s.rest f
    simp only [hold] at hpasses
    simp only [hw]
    refine hpasses.congr (by simp [hd]) ?_ _
    rw [hd]
    exact markOf_start halpha _
  · rw [htext]
    exact stops_cons.2 hc
  · have hback : ∀ (others : TagForm) (rest : Text) (g : AttributeForm),
        TagItems.text ((s.blanks, .attr g) :: others.items) ++ (others.close ++ rest) =
          s.blanks ++ (g.text ++ (others.text ++ rest)) := by
      intro others rest g
      simp [TagItems.text, TagItem.text, TagForm.text]
    obtain ⟨hfront, hb, -, -⟩ := TagItems.fits_append.1 h.fits.items
    refine ⟨TagItems.fits_append.2 ⟨?_, hb, ?_, hothers.items⟩, hothers.blanks, hothers.ending⟩
    · have hhead : (f'.text ++ (others.text ++ rest)).head? ≠ some '=' := by
        obtain ⟨x, v, hv, -⟩ := hf.starts
        rw [hv] at heq
        simpa [AttributeForm.text, hv] using heq
      have hreplaces := (replaces_attribute hstarts hstarts' hhead).append s.blanks
      rw [tail, ← hback, ← hback] at hreplaces
      exact hfront.replace hreplaces
    · have htail : TagItems.text others.items ++ (others.close ++ rest) = others.text ++ rest := by
        simp [TagForm.text]
      exact htail ▸ hf

/-- Another attribute can be written at a site, if it ends where the first one did. -/
theorem Holds.replace {s : Site} {f f' : AttributeForm} (h : s.Holds f) (hf : f'.Fits s.tail)
    (heq : f'.name.head? ≠ some '=') : s.Holds f' :=
  h.rewrite hf h.fits_others heq

/-- Any text that begins with an attribute can be written from a site on. -/
theorem Holds.exists_rewrite {s : Site} {f : AttributeForm} (h : s.Holds f) {t : Text}
    (ht : AttributeForm.Starts t) (heq : t.head? ≠ some '=') :
    ∃ (others : TagForm) (rest : Text) (f' : AttributeForm),
      Site.Holds { s with others, rest } f' ∧ f'.Fits (others.text ++ rest) ∧
        t = f'.text ++ (others.text ++ rest) := by
  obtain ⟨f', u, hf, rfl⟩ := exists_attributeForm ht
  obtain ⟨others, rest, hothers, rfl⟩ := exists_tagForm u
  have hname : f'.name.head? ≠ some '=' := by
    obtain ⟨c, v, hv, -⟩ := hf.starts
    rw [AttributeForm.text, hv] at heq
    simpa [hv] using heq
  exact ⟨others, rest, f', h.rewrite hf hothers hname, hf, rfl⟩

/-! ## Reading the other attribute -/

/-- What is read in the tag. -/
def body (s : Site) (f : AttributeForm) : TagBody := (s.form f).body s.bodyStart s.rest

/-- The place behind the tag. -/
def after (s : Site) (f : AttributeForm) : Cursor := ((s.body f).events s.tag (width s.before)).2

theorem Holds.events_fill {s : Site} {f : AttributeForm} (h : s.Holds f) :
    events ⟨0, s.fill f⟩ =
      s.passed ++ (((s.body f).events s.tag (width s.before)).1 ++ events (s.after f)) := by
  obtain ⟨c, u, hu, hc⟩ := h.alpha
  have hmark : markOf ('<' :: (s.tag ++ ((s.form f).text ++ s.rest))) = .start := by
    rw [hu]
    exact markOf_start hc _
  have hpiece : piece ⟨width s.before, '<' :: (s.tag ++ ((s.form f).text ++ s.rest))⟩ =
      (s.body f).events s.tag (width s.before) := by
    rw [piece_eq, hmark]
    exact startTag_form h.tag h.stops h.fits _
  rw [fill_eq, h.passes.events_eq, events_of_ne_nil (by simp), hpiece]
  rfl

theorem attributes_body (s : Site) (f : AttributeForm) :
    (s.body f).attributes = s.items.attributes s.bodyStart ++
      f.toAttribute s.start :: s.others.items.attributes (s.start + width f.text) := by
  simp [body, TagForm.body, form, TagItems.attributes_append, TagItems.attributes,
    TagItem.attributes, TagItem.text, start_eq]

/-- The attribute at a site is one of the template. -/
theorem Holds.mem_allAttributes {s : Site} {f : AttributeForm} (h : s.Holds f) :
    f.toAttribute s.start ∈ allAttributes (parseTemplate (s.fill f)).roots := by
  rw [(perm_allAttributes _).mem_iff, h.events_fill, List.flatMap_append, List.flatMap_append,
    body, attributes_events]
  have hbody := s.attributes_body f
  simp only [body, TagForm.body] at hbody
  simp [hbody]

theorem issues_body (s : Site) (f : AttributeForm) :
    (s.body f).issues = s.items.issues s.bodyStart ++
      (f.issues s.start ++ s.others.items.issues (s.start + width f.text)) := by
  simp [body, TagForm.body, form, TagItems.issues_append, TagItems.issues, TagItem.issues,
    TagItem.text, start_eq]

/-- The site with other blanks at the end of the tag. -/
def closeBlanks (s : Site) (blanks : Text) : Site := { s with others := { s.others with blanks } }

/-- The text behind the tag does not depend on the attribute and on the blanks. -/
theorem rest_after (s : Site) (f f' : AttributeForm) (blanks : Text) :
    (s.after f).rest = ((s.closeBlanks blanks).after f').rest := by
  apply TagBody.rest_events <;> rfl

theorem Holds.start_lt_after {s : Site} {f : AttributeForm} (h : s.Holds f) :
    s.start < (s.after f).offset := by
  have hafter : s.bodyStart + width (s.form f).text ≤ (s.after f).offset :=
    (TagBody.reaches_events s.tag (width s.before) (s.body f)).offset_le
  have hpos := h.fits_attr.width_pos
  rw [text_form, lead] at hafter
  rw [start_eq]
  simp only [width_append] at hafter
  omega

/-- Away from the attribute, an exchange changes nothing. -/
theorem exchange_eq_unplaced {start : Nat} {new : Attribute} {attributes : List Attribute}
    (h : ∀ a ∈ attributes, a.span.start ≠ start) :
    ∀ a ∈ attributes, Attribute.exchange start new a = a.unplaced :=
  fun a ha => if_neg (h a ha)

/-- The attributes of the tag are as before, but for the one at the site. -/
theorem Holds.exchange_attributes {s : Site} {f : AttributeForm} (h : s.Holds f)
    (f' : AttributeForm) :
    (s.body f').attributes.map Attribute.unplaced =
      (s.body f).attributes.map (Attribute.exchange s.start (f'.toAttribute s.start)) := by
  have hstart := s.start_eq
  have hpos := h.fits_attr.width_pos
  have hfits := TagItems.fits_append.1 h.fits.items
  have hfront : (s.items.attributes s.bodyStart).map
      (Attribute.exchange s.start (f'.toAttribute s.start)) =
      (s.items.attributes s.bodyStart).map Attribute.unplaced := by
    refine List.map_congr_left (exchange_eq_unplaced fun a ha => ?_)
    have := (TagItems.ascend hfits.1 s.bodyStart).bounds a ha
    omega
  have hback : (s.others.items.attributes (s.start + width f.text)).map
      (Attribute.exchange s.start (f'.toAttribute s.start)) =
      (s.others.items.attributes (s.start + width f.text)).map Attribute.unplaced := by
    refine List.map_congr_left (exchange_eq_unplaced fun a ha => ?_)
    have := (TagItems.ascend hfits.2.2.2 (s.start + width f.text)).bounds a ha
    omega
  have hself : Attribute.exchange s.start (f'.toAttribute s.start) (f.toAttribute s.start) =
      (f'.toAttribute s.start).unplaced := by
    rw [Attribute.exchange, if_pos (AttributeForm.span_start_toAttribute _ _)]
  rw [attributes_body, attributes_body, List.map_append, List.map_append, List.map_cons,
    List.map_cons, hfront, hback, hself,
    TagItems.unplaced_attributes _ (s.start + width f'.text) (s.start + width f.text)]

theorem problems_body (s : Site) {f f' : AttributeForm}
    (hi : (f.issues 0).map (·.problem) = (f'.issues 0).map (·.problem)) :
    (s.body f').issues.map (·.problem) = (s.body f).issues.map (·.problem) := by
  rw [issues_body, issues_body]
  simp only [List.map_append]
  rw [f'.problems_issues s.start 0, ← hi, f.problems_issues 0 s.start,
    TagItems.problems_issues _ (s.start + width f'.text) (s.start + width f.text)]

/-- **A template is read as before but for the attribute at the site**, also with other blanks at
the end of the tag. -/
theorem outline_fill {s : Site} {f f' : AttributeForm} {blanks : Text} (h : s.Holds f)
    (h' : (s.closeBlanks blanks).Holds f')
    (hi : (f.issues 0).map (·.problem) = (f'.issues 0).map (·.problem)) :
    (events ⟨0, (s.closeBlanks blanks).fill f'⟩).map (Event.outline Attribute.unplaced) =
      (events ⟨0, s.fill f⟩).map
        (Event.outline (Attribute.exchange s.start (f'.toAttribute s.start))) := by
  have hpassed : s.passed.map (Event.outline Attribute.unplaced) =
      s.passed.map (Event.outline (Attribute.exchange s.start (f'.toAttribute s.start))) := by
    refine (map_outline_congr (exchange_eq_unplaced fun a ha => ?_)).symm
    have hbefore := (ascend_passes h.passes).bounds a ha
    have hstart := s.start_eq
    simp only [bodyStart] at hbefore hstart
    omega
  have htag : (((s.closeBlanks blanks).body f').events s.tag (width s.before)).1.map
        (Event.outline Attribute.unplaced) =
      ((s.body f).events s.tag (width s.before)).1.map
        (Event.outline (Attribute.exchange s.start (f'.toAttribute s.start))) := by
    apply TagBody.outline_events
    · exact h.exchange_attributes f'
    · exact s.problems_body hi
    · rfl
  have hbehind : (events ((s.closeBlanks blanks).after f')).map
        (Event.outline Attribute.unplaced) =
      (events (s.after f)).map
        (Event.outline (Attribute.exchange s.start (f'.toAttribute s.start))) := by
    have hcursor : (s.closeBlanks blanks).after f' =
        ⟨((s.closeBlanks blanks).after f').offset, (s.after f).rest⟩ := by
      rw [s.rest_after f f' blanks]
    rw [hcursor, outline_events _ (s.after f).offset]
    refine (map_outline_congr (exchange_eq_unplaced fun a ha => ?_)).symm
    have hafter := (ascend_events (s.after f)).bounds a ha
    have hlt := h.start_lt_after
    omega
  rw [h.events_fill, h'.events_fill]
  simp only [List.map_append]
  rw [← hpassed, ← htag, ← hbehind]
  rfl

end Site

end Markup

/-! ## By address -/

/-- The template `edited` is the template `original` with `new` for the attribute at an address and
an index, apart from places. -/
structure Template.Substituted (original edited : Template) (index : Nat) (path : List Nat)
    (place : Nat) (new : Attribute) : Prop where
  attr : ∃ e, Element.elementAt? edited.roots index path = some e ∧
    e.attributes[place]? = some new
  forest : edited.roots.map Element.unplaced =
    (Element.modifyAt (Element.setAttribute place new) original.roots index path).map
      Element.unplaced
  problems : edited.issues.map (·.problem) = original.issues.map (·.problem)

/-- An attribute of a template that is exchanged for another is exchanged at its address. The blanks
at the end of its tag may change. -/
theorem substituted_closeBlanks {s : Markup.Site} {f f' : Markup.AttributeForm} {blanks : Text}
    {index place : Nat} {path : List Nat} {e : Element} (h : s.Holds f)
    (h' : (s.closeBlanks blanks).Holds f')
    (hi : (f.issues 0).map (·.problem) = (f'.issues 0).map (·.problem))
    (he : Element.elementAt? (parseTemplate (s.fill f)).roots index path = some e)
    (ha : e.attributes[place]? = some (f.toAttribute s.start)) :
    ∃ new, new.unplaced = (f'.toAttribute s.start).unplaced ∧
      (parseTemplate (s.fill f)).Substituted (parseTemplate ((s.closeBlanks blanks).fill f'))
        index path place new := by
  obtain ⟨hroots, hproblems⟩ := outline_parseTemplate (Markup.Site.outline_fill h h' hi)
  have hexchange := Element.map_outline_exchange (nodup_starts (s.fill f)) he ha
  rw [Markup.AttributeForm.span_start_toAttribute] at hexchange
  obtain ⟨e', new, he', hnew, hunplaced⟩ :=
    Element.exists_attribute_of_map_unplaced he ha (hroots.trans (hexchange _))
  refine ⟨new, hunplaced, ⟨e', he', hnew⟩, ?_, hproblems⟩
  have hsame : Attribute.exchange s.start new =
      Attribute.exchange s.start (f'.toAttribute s.start) := by
    funext a
    rw [Attribute.exchange, Attribute.exchange, hunplaced]
  rw [← hexchange new, hsame]
  exact hroots

/-- An attribute of a template that is exchanged for one that ends in the same place is exchanged at
its address. -/
theorem substituted_fill {s : Markup.Site} {f f' : Markup.AttributeForm} {index place : Nat}
    {path : List Nat} {e : Element} (h : s.Holds f) (hf : f'.Fits s.tail)
    (heq : f'.name.head? ≠ some '=')
    (hi : (f.issues 0).map (·.problem) = (f'.issues 0).map (·.problem))
    (he : Element.elementAt? (parseTemplate (s.fill f)).roots index path = some e)
    (ha : e.attributes[place]? = some (f.toAttribute s.start)) :
    ∃ new, new.unplaced = (f'.toAttribute s.start).unplaced ∧
      (parseTemplate (s.fill f)).Substituted (parseTemplate (s.fill f')) index path place new := by
  have hsame : (s.closeBlanks s.others.blanks).Holds f' := h.replace hf heq
  exact substituted_closeBlanks h hsame hi he ha

end BindingToggle
