import BindingToggle.Proofs.UnmarkedName

/-!
# Removing a binding from a value without quotes

The expression of a binding may stand without quotes, as a template literal does or a string behind
a comment. Removing the binding leaves the characters of the string in its place, and these are read
anew: as a value in quotes when they begin with a quote, and as nothing at all when there are none,
so that the value is taken from what follows the attribute.

* `Attribute.valueContent` — the characters of the value of an attribute, bound or not.
* `Markup.unboundPlain` — the form of the attribute that is left. When the string is empty, the
  blanks at the end of the tag become part of it.
* `substituted_removeUnquoted` — apart from these two cases, removing the binding changes its
  attribute only. `substituted_removeUnquoted_empty` shows that an empty string can take up the
  attribute that follows.
-/

namespace BindingToggle

open Text

/-- The characters of an attribute's value, or of the expression of a directive; none if there is no
value. -/
def Attribute.valueContent : Attribute → Text
  | static a => (a.value.map (·.content)).getD []
  | directive d => (d.expression.map (·.source)).getD []

theorem Attribute.rawName_unplaced (a : Attribute) : a.unplaced.rawName = a.rawName := by
  cases a <;> rfl

theorem Attribute.valueContent_unplaced (a : Attribute) :
    a.unplaced.valueContent = a.valueContent := by
  cases a with
  | static a => cases h : a.value <;> simp [unplaced, valueContent, h, AttributeValue.unplaced]
  | directive d => cases h : d.expression <;> simp [unplaced, valueContent, h]

namespace Markup

theorem valueContent_toAttribute {f : AttributeForm} {p : ValuePart} (h : f.value = some p)
    (start : Nat) : (f.toAttribute start).valueContent = p.form.content := by
  cases hn : DirectiveName.ofText? f.name with
  | none =>
    rw [toAttribute_static hn]
    simp [Attribute.valueContent, h, ValueForm.value]
  | some parts =>
    rw [toAttribute_directive hn]
    simp only [Attribute.valueContent, h, Option.map_some, Attribute.boundExpression,
      ValueForm.value]
    split
    · rename_i hempty
      exact (List.isEmpty_iff.1 hempty).symm
    · rfl

theorem valueContent_toAttribute_none {f : AttributeForm} (h : f.value = none) (start : Nat) :
    (f.toAttribute start).valueContent = [] := by
  cases hn : DirectiveName.ofText? f.name with
  | none =>
    rw [toAttribute_static hn]
    simp [Attribute.valueContent, h]
  | some parts =>
    rw [toAttribute_directive hn]
    simp [Attribute.valueContent, h, Attribute.boundExpression]

/-- There is a quote in front of the content of a value in quotes. -/
theorem slice?_quote {f : AttributeForm} {p : ValuePart} {content : Text} {q : Char} {closed : Bool}
    (hp : f.value = some p) (hform : p.form = .quoted q content closed) (hq : q = '"' ∨ q = '\'')
    (before after : Text) :
    slice? (before ++ (f.text ++ after))
      ((p.form.value (f.valueStart p (width before))).contentSpan.start - 1)
      (p.form.value (f.valueStart p (width before))).contentSpan.start = some [q] := by
  have hsize : q.utf8Size = 1 := by rcases hq with rfl | rfl <;> rfl
  have htext : before ++ (f.text ++ after) = (before ++ (f.name ++ p.separator)) ++
      ([q] ++ (p.form.content ++ (p.form.closing ++ after))) := by
    simp only [AttributeForm.text_of_value hp, List.append_assoc]
    rw [hform]
    rfl
  refine slice?_eq_some htext ?_ ?_
  · simp only [hform, ValueForm.value, ValueForm.opening, AttributeForm.valueStart, hsize,
      width_append, width_cons, width_nil]
    omega
  · simp [hform, ValueForm.value, ValueForm.opening, AttributeForm.valueStart, Nat.add_assoc]

/-- The value of an attribute stands without quotes when there is no quote in front of its
content. -/
theorem unquoted_of_slice? {f : AttributeForm} {p : ValuePart} {before after : Text}
    (hf : f.Fits after) (hp : f.value = some p)
    (h : ∀ q, slice? (before ++ (f.text ++ after))
      ((p.form.value (f.valueStart p (width before))).contentSpan.start - 1)
      (p.form.value (f.valueStart p (width before))).contentSpan.start = some [q] →
      q ≠ '"' ∧ q ≠ '\'') :
    ∃ content, p.form = .unquoted content := by
  cases hform : p.form with
  | unquoted content => exact ⟨content, rfl⟩
  | quoted q content closed =>
    have hq : q = '"' ∨ q = '\'' := by
      have hfits := (hf.valued p hp).1
      rw [hform] at hfits
      exact hfits.1
    have hnot := h q (slice?_quote hp hform hq before after)
    exact absurd hq (by simp [hnot])

/-! ## What is left of the attribute -/

/-- Nothing but blanks stands between a place and the next `>`, or the end of the text. -/
def AtTagEnd (t : Text) : Prop := ∀ c, (t.dropWhile isMarkupBlank).head? = some c → c = '>'

theorem AtTagEnd.of_blanks {blanks t : Text} (h : AtTagEnd (blanks ++ t))
    (hb : ∀ c ∈ blanks, isMarkupBlank c = true) (ht : Stops isMarkupBlank t) :
    ∀ c, t.head? = some c → c = '>' := by
  intro c hc
  exact h c (by rw [dropWhile_run hb ht, hc])

/-- A tag in which nothing but its end follows. -/
theorem TagForm.Fits.bare {f : TagForm} {rest : Text} (h : f.Fits rest)
    (hend : AtTagEnd (f.text ++ rest)) :
    f.items = [] ∧ ∀ c, (f.ending.text ++ rest).head? = some c → c = '>' := by
  obtain ⟨items, blanks, ending⟩ := f
  obtain ⟨hitems, hblanks, hmissing⟩ := h
  cases items with
  | nil =>
    refine ⟨rfl, ?_⟩
    simp only [TagForm.text, TagForm.close, TagItems.text, List.nil_append, List.append_assoc]
      at hend
    refine hend.of_blanks hblanks ?_
    cases ending with
    | complete => exact stops_cons.2 (by decide)
    | selfClosing => exact stops_cons.2 (by decide)
    | missing =>
      rw [hmissing rfl]
      exact stops_nil _
  | cons first items =>
    -- an item begins with a character that does not end the tag
    obtain ⟨gap, item⟩ := first
    obtain ⟨hgap, hitem, -⟩ := hitems
    have hstart : ∃ c u, item.text = c :: u ∧ isMarkupBlank c = false ∧ c ≠ '>' := by
      cases item with
      | slash => exact ⟨'/', [], rfl, by decide, by decide⟩
      | attr form =>
        obtain ⟨c, u, hu, hc, -, hgt⟩ := AttributeForm.Fits.starts_text hitem
        exact ⟨c, u, hu, hc, hgt⟩
    obtain ⟨c, u, hu, hc, hgt⟩ := hstart
    simp only [TagForm.text, TagItems.text, hu, List.append_assoc, List.cons_append] at hend
    exact absurd (hend.of_blanks hgap (stops_cons.2 hc) c rfl) hgt

/-- The form of an attribute whose binding to the string `body` is removed from a value without
quotes. The blanks `extra` have come in front of the value. -/
def unboundPlain (name : Text) (p : ValuePart) (extra body : Text) : AttributeForm :=
  ⟨name, some ⟨p.before, p.behind ++ extra, .unquoted body⟩⟩

theorem text_unboundPlain (name : Text) (p : ValuePart) (extra body : Text) :
    (unboundPlain name p extra body).text = name ++ (p.separator ++ (extra ++ body)) := by
  simp [unboundPlain, AttributeForm.text, ValuePart.separator, ValueForm.text, ValueForm.opening,
    ValueForm.content, ValueForm.closing]

theorem fits_unboundPlain {f : AttributeForm} {p : ValuePart}
    {lead name content extra body rest tail : Text} (h : f.Fits rest)
    (hname : f.name = lead ++ name) (hlead : lead ≠ []) (hne : name ≠ []) (hp : f.value = some p)
    (hform : p.form = .unquoted content) (hbody : ∀ c ∈ body, c ∈ content)
    (hdouble : body.head? ≠ some '"') (hsingle : body.head? ≠ some '\'')
    (hextra : ∀ c ∈ extra, isMarkupBlank c = true) (hvalue : Stops isUnquotedPart tail)
    (hblank : body = [] → Stops isMarkupBlank tail) :
    (unboundPlain name p extra body).Fits tail ∧ name.head? ≠ some '=' := by
  have hparts := h.name_of_lead hname hlead
  obtain ⟨hfits, hbefore, hbehind, -⟩ := h.valued p hp
  rw [hform] at hfits
  obtain ⟨c, u, rfl⟩ := List.exists_cons_of_ne_nil hne
  have hc := hparts c (by simp)
  simp only [isAttributePart, Bool.and_eq_true, Bool.not_eq_true', bne_iff_ne] at hc
  obtain ⟨⟨⟨hgap, hslash⟩, hend⟩, heq⟩ := hc
  refine ⟨⟨⟨c, u, rfl, hgap, hslash, hend⟩, ?_, fun hn => (by cases hn), ?_⟩, by simpa using heq⟩
  · intro d hd
    exact hparts d (List.mem_cons_of_mem c hd)
  · rintro p' ⟨⟩
    have hunquoted : ∀ d ∈ body, isUnquotedPart d = true := fun d hd => hfits.1 d (hbody d hd)
    refine ⟨⟨hunquoted, hvalue, hdouble, hsingle⟩, hbefore, ?_, ?_⟩
    · intro d hd
      rcases List.mem_append.1 hd with hd | hd
      · exact hbehind d hd
      · exact hextra d hd
    · simp only [ValueForm.text, ValueForm.opening, ValueForm.content, ValueForm.closing,
        List.nil_append, List.append_nil]
      cases body with
      | nil => exact hblank rfl
      | cons d body =>
        have hd := hunquoted d (by simp)
        simp only [isUnquotedPart, Bool.and_eq_true, Bool.not_eq_true'] at hd
        exact stops_cons.2 hd.1

theorem AttributeForm.issues_unquoted {f : AttributeForm} {p : ValuePart} {content : Text}
    (hp : f.value = some p) (hform : p.form = .unquoted content) (start : Nat) :
    f.issues start = [] := by
  simp [issues, hp, hform, ValueForm.issues]

theorem Site.applyAll_unboundPlain (s : Site) {f : AttributeForm} {p : ValuePart}
    {lead name gap body behind content : Text} {q : Char} (hname : f.name = lead ++ name)
    (hp : f.value = some p) (hform : p.form = .unquoted content) (hq : Lexer.IsPlainBody q body)
    (hcontent : p.form.content = gap ++ q :: (body ++ q :: behind)) :
    Edit.applyAll (s.fill f) (ToggleAction.removeBinding ⟨0⟩
      ⟨⟨s.start, s.start + width lead⟩, (p.form.value (f.valueStart p s.start)).contentSpan, 0,
        width gap, literalSpan gap q body⟩).edits =
      s.head ++ (name ++ (p.separator ++ (body ++ s.tail))) := by
  have hedited := (applyAll_removeForm hname hp hq hcontent [] s.head s.tail).2
  have hopening : p.form.opening = [] := by rw [hform]; rfl
  have hclosing : p.form.closing = [] := by rw [hform]; rfl
  simpa [fill, start, hopening, hclosing] using hedited

/-- **What is left of the attribute is read as a whole**, when the string does not begin with a
quote, and when an empty one stands at the end of its tag. -/
theorem Site.Holds.exists_unboundPlain {s : Site} {f : AttributeForm} (h : s.Holds f)
    {p : ValuePart} {lead name content body : Text} (hname : f.name = lead ++ name)
    (hlead : lead ≠ []) (hne : name ≠ []) (hp : f.value = some p)
    (hform : p.form = .unquoted content) (hbody : ∀ c ∈ body, c ∈ content)
    (hdouble : body.head? ≠ some '"') (hsingle : body.head? ≠ some '\'')
    (hempty : body = [] → AtTagEnd s.tail) :
    ∃ extra blanks, (s.closeBlanks blanks).Holds (unboundPlain name p extra body) ∧
      (s.closeBlanks blanks).fill (unboundPlain name p extra body) =
        s.head ++ (name ++ (p.separator ++ (body ++ s.tail))) := by
  have hfits := h.fits_attr
  by_cases hnil : body = []
  · obtain ⟨hitems, hend⟩ := h.fits_others.bare (hempty hnil)
    have hothers : TagForm.Fits { s.others with blanks := [] } s.rest :=
      ⟨by rw [hitems]; trivial, by simp, h.fits_others.ending⟩
    have htail : TagForm.text { s.others with blanks := [] } ++ s.rest =
        s.others.ending.text ++ s.rest := by
      simp [TagForm.text, TagForm.close, hitems, TagItems.text]
    have hstops : ∀ q : Char → Bool, q '>' = false →
        Stops q (TagForm.text { s.others with blanks := [] } ++ s.rest) := by
      intro q hq c hc
      rw [htail] at hc
      rw [hend c hc, hq]
    obtain ⟨hnew, heq⟩ := fits_unboundPlain hfits hname hlead hne hp hform hbody hdouble hsingle
      h.fits_others.blanks (hstops _ (by decide)) fun _ => hstops _ (by decide)
    refine ⟨s.others.blanks, [], h.rewrite hnew hothers heq, ?_⟩
    have hbehind : s.tail = s.others.blanks ++ (s.others.ending.text ++ s.rest) := by
      simp [tail, TagForm.text, TagForm.close, hitems, TagItems.text]
    show s.head ++ (_ ++ (TagForm.text { s.others with blanks := [] } ++ s.rest)) = _
    rw [text_unboundPlain, htail, hbehind, hnil]
    simp
  · have hvalue : Stops isUnquotedPart s.tail := by
      have hvalued := (hfits.valued p hp).1
      rw [hform] at hvalued
      exact hvalued.2.1
    have hnone : ∀ c ∈ ([] : Text), isMarkupBlank c = true := by simp
    obtain ⟨hnew, heq⟩ := fits_unboundPlain hfits hname hlead hne hp hform hbody hdouble hsingle
      hnone hvalue fun hb => absurd hb hnil
    refine ⟨[], s.others.blanks, h.replace hnew heq, ?_⟩
    show s.head ++ (_ ++ s.tail) = _
    rw [text_unboundPlain]
    simp

/-- The text behind an attribute begins where the attribute ends. -/
theorem Site.splitAt?_stop (s : Site) (f : AttributeForm) :
    splitAt? (s.start + width f.text) (s.fill f) = some (s.head ++ f.text, s.tail) := by
  refine splitAt?_eq_some_iff.2 ⟨?_, ?_⟩
  · rw [List.append_assoc]
    rfl
  · rw [width_append]
    rfl

end Markup

/-- The template in which only the string `body` is left of the value of an attribute, and only
`name` of its name. -/
theorem substituted_unboundPlain {s : Markup.Site} {f : Markup.AttributeForm}
    {p : Markup.ValuePart} {lead name content body : Text} {index place : Nat} {path : List Nat}
    {e : Element} (h : s.Holds f) (hname : f.name = lead ++ name) (hlead : lead ≠ [])
    (hne : name ≠ []) (hp : f.value = some p) (hform : p.form = .unquoted content)
    (hbody : ∀ c ∈ body, c ∈ content) (hdouble : body.head? ≠ some '"')
    (hsingle : body.head? ≠ some '\'') (hempty : body = [] → Markup.AtTagEnd s.tail)
    (he : Element.elementAt? (parseTemplate (s.fill f)).roots index path = some e)
    (ha : e.attributes[place]? = some (f.toAttribute s.start)) :
    ∃ new, (parseTemplate (s.fill f)).Substituted
        (parseTemplate (s.head ++ (name ++ (p.separator ++ (body ++ s.tail))))) index path place
        new ∧
      new.rawName = name ∧ new.valueContent = body := by
  obtain ⟨extra, blanks, hholds, hfill⟩ :=
    h.exists_unboundPlain hname hlead hne hp hform hbody hdouble hsingle hempty
  have hissues : (f.issues 0).map (·.problem) =
      ((Markup.unboundPlain name p extra body).issues 0).map (·.problem) := by
    rw [Markup.AttributeForm.issues_unquoted hp hform,
      Markup.AttributeForm.issues_unquoted rfl rfl]
  obtain ⟨new, hnew, hsubstituted⟩ := substituted_closeBlanks h hholds hissues he ha
  rw [hfill] at hsubstituted
  refine ⟨new, hsubstituted, ?_, ?_⟩
  · rw [← new.rawName_unplaced, hnew, Attribute.rawName_unplaced, Markup.rawName_toAttribute]
    rfl
  · rw [← new.valueContent_unplaced, hnew, Attribute.valueContent_unplaced,
      Markup.valueContent_toAttribute rfl]
    rfl

/-- **Removing a binding from a value without quotes changes its attribute only**, when the string
does not begin with a quote, and when an empty string stands at the end of its tag. -/
theorem substituted_removeUnquoted {source body : Text} {index place : Nat} {path : List Nat}
    {e : Element} {d : Directive} {b : LiteralBinding} {x : BoundExpression}
    (he : Element.elementAt? (parseTemplate source).roots index path = some e)
    (ha : e.attributes[place]? = some (.directive d))
    (hb : classify (.directive d) = .removable b) (hx : d.expression = some x)
    (hunquoted : ∀ q, slice? source (x.span.start - 1) x.span.start = some [q] →
      q ≠ '"' ∧ q ≠ '\'')
    (hbody : slice? x.source (b.literal.start + 1) (b.literal.stop - 1) = some body)
    (hdouble : body.head? ≠ some '"') (hsingle : body.head? ≠ some '\'')
    (hempty : body = [] → ∀ before behind, splitAt? d.span.stop source = some (before, behind) →
      Markup.AtTagEnd behind) :
    ∃ action lead name new, synthesize ⟨0⟩ (.directive d) (classify (.directive d)) = some action ∧
      d.markerSpan.slice? source = some lead ∧ d.rawName = lead ++ name ∧
      (parseTemplate source).Substituted (parseTemplate (Edit.applyAll source action.edits))
        index path place new ∧
      new.rawName = name ∧ new.valueContent = body := by
  obtain ⟨s, f, hs, rfl, hattr⟩ := Markup.exists_site
    (Element.mem_allAttributes_of_elementAt? he (List.mem_of_getElem? ha))
  have hremovable := hb
  rw [hattr] at hb
  obtain ⟨parts, name, p, gap, q', body', hparts, hname, hp, hsole, rfl⟩ :=
    Markup.exists_parts_of_removable hb
  obtain ⟨-, hplain, behind, -, hcontent⟩ := hsole
  have hnamene : name ≠ [] := by
    obtain ⟨content, points, -, hne, hpoints, -, -⟩ := Markup.exists_points_of_removable hparts hb
    rw [List.append_cancel_left (hname.symm.trans hpoints)]
    simp [hne]
  rw [Markup.toAttribute_directive hparts] at hattr
  cases hattr
  have hexpression : Attribute.boundExpression
      (f.value.map fun p => p.form.value (f.valueStart p s.start)) =
        some ⟨p.form.content, (p.form.value (f.valueStart p s.start)).contentSpan⟩ := by
    simp [hp, Attribute.boundExpression, Markup.ValueForm.value, hcontent]
  obtain rfl := Option.some.inj (hx.symm.trans hexpression)
  -- the string is what the literal stands around
  obtain rfl : body' = body := by
    have hslice := slice?_body hplain gap behind
    rw [← hcontent] at hslice
    exact Option.some.inj (hslice.symm.trans hbody)
  obtain ⟨content, hform⟩ := Markup.unquoted_of_slice? hs.fits_attr hp hunquoted
  have hmem : ∀ c ∈ body', c ∈ content := by
    intro c hmem
    have htext : p.form.content = content := by rw [hform]; rfl
    rw [← htext, hcontent]
    simp [hmem]
  have hend : body' = [] → Markup.AtTagEnd s.tail := by
    intro hnil
    exact hempty hnil _ _ (s.splitAt?_stop f)
  rw [← Markup.toAttribute_directive hparts] at ha
  obtain ⟨new, hsubstituted, hrawName, hvalue⟩ := substituted_unboundPlain hs hname
    (parts_of_ofText? hparts).2.1 hnamene hp hform hmem hdouble hsingle hend he ha
  refine ⟨_, parts.lead, name, new, by rw [hremovable]; rfl, s.slice?_lead hname hp, hname, ?_,
    hrawName, hvalue⟩
  rw [s.applyAll_unboundPlain hname hp hform hplain hcontent]
  exact hsubstituted

/-- An empty template literal, with a blank between it and the end of its tag. -/
theorem substituted_removeUnquoted_last :
    ∃ action new, (parseTemplate "<p :a=`` ></p>".toList).Substituted
        (parseTemplate (Edit.applyAll "<p :a=`` ></p>".toList (ToggleAction.edits action))) 0 [] 0
        new ∧
      new.valueContent = [] := by
  let d : Directive :=
    { name := "bind".toList
      rawName := ":a".toList
      marker := .colon
      markerSpan := ⟨3, 4⟩
      argument := some ⟨"a".toList, ⟨4, 5⟩⟩
      modifiers := []
      expression := some ⟨"``".toList, ⟨6, 8⟩⟩
      span := ⟨3, 8⟩ }
  have hplace : (Element.elementAt? (parseTemplate "<p :a=`` ></p>".toList).roots 0 []).bind
      (·.attributes[0]?) = some (.directive d) := by
    decide +kernel
  obtain ⟨e, he, ha⟩ := Option.bind_eq_some_iff.1 hplace
  have hremovable : classify (.directive d) = .removable ⟨⟨3, 4⟩, ⟨6, 8⟩, 0, 0, ⟨0, 2⟩⟩ := by
    decide +kernel
  have hbefore : slice? "<p :a=`` ></p>".toList 5 6 = some ['='] := by decide +kernel
  have hbehind : splitAt? 8 "<p :a=`` ></p>".toList = some ("<p :a=``".toList, " ></p>".toList) := by
    decide +kernel
  have hbody : slice? "``".toList 1 1 = some [] := by decide +kernel
  obtain ⟨action, -, -, new, -, -, -, hsubstituted, -, hvalue⟩ :=
    substituted_removeUnquoted he ha hremovable rfl
      (by
        intro q hq
        cases Option.some.inj (hbefore.symm.trans hq)
        decide)
      hbody (by decide) (by decide)
      (by
        intro _ before behind hsplit
        obtain ⟨-, rfl⟩ := Prod.mk.inj (Option.some.inj (hbehind.symm.trans hsplit))
        intro c hc
        exact (Option.some.inj hc).symm)
  exact ⟨action, new, hsubstituted, hvalue⟩

/-- Behind an empty string the next attribute becomes the value. -/
theorem substituted_removeUnquoted_empty :
    ¬ ∀ (source body : Text) (index place : Nat) (path : List Nat) (e : Element) (d : Directive)
      (b : LiteralBinding) (x : BoundExpression),
      Element.elementAt? (parseTemplate source).roots index path = some e →
      e.attributes[place]? = some (.directive d) → classify (.directive d) = .removable b →
      d.expression = some x →
      (∀ q, slice? source (x.span.start - 1) x.span.start = some [q] → q ≠ '"' ∧ q ≠ '\'') →
      slice? x.source (b.literal.start + 1) (b.literal.stop - 1) = some body →
      ∃ action new, synthesize ⟨0⟩ (.directive d) (classify (.directive d)) = some action ∧
        (parseTemplate source).Substituted (parseTemplate (Edit.applyAll source action.edits))
          index path place new ∧
        new.valueContent = body := by
  intro h
  let d : Directive :=
    { name := "bind".toList
      rawName := ":a".toList
      marker := .colon
      markerSpan := ⟨3, 4⟩
      argument := some ⟨"a".toList, ⟨4, 5⟩⟩
      modifiers := []
      expression := some ⟨"``".toList, ⟨6, 8⟩⟩
      span := ⟨3, 8⟩ }
  have hplace : (Element.elementAt? (parseTemplate "<p :a=`` b></p>".toList).roots 0 []).bind
      (·.attributes[0]?) = some (.directive d) := by
    decide +kernel
  obtain ⟨e, he, ha⟩ := Option.bind_eq_some_iff.1 hplace
  have hbefore : slice? "<p :a=`` b></p>".toList 5 6 = some ['='] := by decide +kernel
  obtain ⟨action, new, hsynthesize, ⟨⟨e', he', hnew⟩, -, -⟩, hvalue⟩ :=
    h _ [] 0 0 [] e d ⟨⟨3, 4⟩, ⟨6, 8⟩, 0, 0, ⟨0, 2⟩⟩ _ he ha (by decide +kernel) rfl
      (by
        intro q hq
        cases Option.some.inj (hbefore.symm.trans hq)
        decide)
      (by decide +kernel)
  have haction : synthesize ⟨0⟩ (.directive d) (classify (.directive d)) =
      some ⟨.remove, [.delete ⟨3, 4⟩, .delete ⟨6, 7⟩, .delete ⟨7, 8⟩], none⟩ := by
    decide +kernel
  obtain rfl := Option.some.inj (haction.symm.trans hsynthesize)
  have hedited : Edit.applyAll "<p :a=`` b></p>".toList
      [.delete ⟨3, 4⟩, .delete ⟨6, 7⟩, .delete ⟨7, 8⟩] = "<p a= b></p>".toList :=
    Edit.applyAll_script [⟨"<p ".toList, [':'], []⟩, ⟨"a=".toList, ['`'], []⟩, ⟨[], ['`'], []⟩]
      " b></p>".toList
  have hread : (Element.elementAt? (parseTemplate "<p a= b></p>".toList).roots 0 []).bind
      (·.attributes[0]?.map Attribute.valueContent) = some "b".toList := by
    decide +kernel
  simp only [hedited] at he'
  rw [he', Option.bind_some, hnew, Option.map_some, hvalue] at hread
  cases hread

end BindingToggle
