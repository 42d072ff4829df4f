import BindingToggle.Proofs.Site
import BindingToggle.Proofs.ToggleEdits

/-!
# Reading an edited template

The document that an action leaves behind is read again, and the two templates are compared. They
differ in the attribute that was toggled, and nowhere else: the forest, the other attributes and the
problems are the same.

* `substituted_addBinding` — a static attribute becomes a binding to its value, unless its name
  begins with an equals sign.
* `substituted_removeBinding` — a binding to a string in quotes becomes a static attribute with the
  characters of the string as its value, unless the argument would be read as a directive.
-/

namespace BindingToggle

open Text

namespace Markup

/-! ## Binding an attribute -/

/-- The form of an attribute that is bound. -/
def AttributeForm.bound (f : AttributeForm) : AttributeForm :=
  ⟨':' :: f.name, some (f.value.getD ⟨[], [], .quoted '"' [] true⟩)⟩

theorem AttributeForm.text_bound (f : AttributeForm) :
    f.bound.text = ':' :: (f.text ++ boundSuffix f.value.isSome) := by
  obtain ⟨name, value⟩ := f
  cases value with
  | none =>
    simp [bound, text, boundSuffix, ValuePart.separator, ValueForm.text, ValueForm.opening,
      ValueForm.content, ValueForm.closing]
  | some p => simp [bound, text, boundSuffix]

theorem AttributeForm.Fits.bound {f : AttributeForm} {rest : Text} (h : f.Fits rest)
    (heq : f.name.head? ≠ some '=') : f.bound.Fits rest := by
  refine ⟨⟨':', f.name, rfl, by decide, by decide, by decide⟩, ?_, fun hn => (by cases hn), ?_⟩
  · obtain ⟨c, u, hu, hc, hslash, hend⟩ := h.starts
    have hname := h.name
    rw [hu] at heq hname
    simp only [List.head?_cons, ne_eq, Option.some.injEq] at heq
    intro d hd
    simp only [AttributeForm.bound, hu, List.tail_cons, List.mem_cons] at hd
    rcases hd with rfl | hd
    · simp [isAttributePart, hc, hslash, hend, heq]
    · exact hname d hd
  · intro p hp
    cases hv : f.value with
    | none =>
      simp only [AttributeForm.bound, hv, Option.getD_none, Option.some.injEq] at hp
      subst hp
      exact ⟨⟨.inl rfl, by simp, fun hc => (by cases hc)⟩, by simp, by simp,
        stops_cons.2 (by decide)⟩
    | some p' =>
      simp only [AttributeForm.bound, hv, Option.getD_some, Option.some.injEq] at hp
      subst hp
      exact h.valued p' hv

theorem AttributeForm.problems_bound (f : AttributeForm) :
    (f.issues 0).map (·.problem) = (f.bound.issues 0).map (·.problem) := by
  obtain ⟨name, value⟩ := f
  cases value with
  | none => rfl
  | some p =>
    simp only [issues, bound, Option.map_some, Option.getD_some]
    exact p.form.problems_issues _ _

theorem Site.applyAll_bound (s : Site) (f : AttributeForm) :
    Edit.applyAll (s.fill f) (ToggleAction.addBinding ⟨0⟩ ⟨s.start, s.start + width f.text⟩
      f.value.isSome).edits = s.fill f.bound := by
  have hedited := (applyAll_addBinding [] s.head f.text s.tail f.value.isSome).2
  simpa [fill, start, AttributeForm.text_bound] using hedited

end Markup

/-- A directive is told by its outline, apart from places. -/
theorem exists_directive_of_unplaced {new : Attribute} {d : Directive}
    (h : new.unplaced = (Attribute.directive d).unplaced) :
    ∃ d' : Directive, new = .directive d' ∧ d'.name = d.name ∧ d'.rawName = d.rawName ∧
      d'.marker = d.marker ∧ d'.expression.map (·.source) = d.expression.map (·.source) := by
  cases new with
  | static a => cases h
  | directive d' =>
    simp only [Attribute.unplaced, Attribute.directive.injEq, Directive.mk.injEq] at h
    obtain ⟨hname, hraw, hmarker, -, -, -, hexpression, -⟩ := h
    have hsource := congrArg (Option.map (·.source)) hexpression
    simp only [Option.map_map] at hsource
    exact ⟨d', rfl, hname, hraw, hmarker, hsource⟩

/-- **Binding an attribute changes that attribute only.** -/
theorem substituted_addBinding {source : Text} {index place : Nat} {path : List Nat} {e : Element}
    {a : StaticAttribute}
    (he : Element.elementAt? (parseTemplate source).roots index path = some e)
    (ha : e.attributes[place]? = some (.static a)) (heq : a.name.head? ≠ some '=') :
    ∃ action d, synthesize ⟨0⟩ (.static a) (classify (.static a)) = some action ∧
      (parseTemplate source).Substituted (parseTemplate (Edit.applyAll source action.edits))
        index path place (.directive d) ∧
      d.name = "bind".toList ∧ d.marker = .colon ∧ d.rawName = ':' :: a.name ∧
      d.expression.map (·.source) =
        match a.value with
        | none => none
        | some v => if v.content.isEmpty then none else some v.content := by
  obtain ⟨s, f, hs, rfl, hattr⟩ := Markup.exists_site
    (Element.mem_allAttributes_of_elementAt? he (List.mem_of_getElem? ha))
  have hn : DirectiveName.ofText? f.name = none := by
    cases hn : DirectiveName.ofText? f.name with
    | none => rfl
    | some parts =>
      rw [Markup.toAttribute_directive hn] at hattr
      cases hattr
  rw [Markup.toAttribute_static hn] at hattr
  cases hattr
  obtain ⟨new, hnew, hsubstituted⟩ := substituted_fill hs (hs.fits_attr.bound heq)
    (by simp [Markup.AttributeForm.bound]) f.problems_bound he
    (by rw [Markup.toAttribute_static hn]; exact ha)
  have hparts : DirectiveName.ofText? f.bound.name =
      some (DirectiveName.withArgument "bind".toList .colon [':'] f.name) := rfl
  rw [Markup.toAttribute_directive hparts] at hnew
  obtain ⟨d, rfl, hname, hraw, hmarker, hexpression⟩ := exists_directive_of_unplaced hnew
  refine ⟨_, d, rfl, ?_, hname, hmarker, hraw, ?_⟩
  · simp only [Option.isSome_map, Attribute.span]
    rw [s.applyAll_bound f]
    exact hsubstituted
  · rw [hexpression]
    cases hv : f.value with
    | none => simp [Markup.AttributeForm.bound, hv, Attribute.boundExpression,
        Markup.ValueForm.value, Markup.ValueForm.content]
    | some p =>
      simp only [Markup.AttributeForm.bound, hv, Option.getD_some, Option.map_some,
        Attribute.boundExpression, Markup.ValueForm.value]
      split <;> rfl

/-- An attribute in single quotes, inside an element that is not closed. -/
theorem substituted_addBinding_nested :
    ∃ action d, (parseTemplate "<p><b c d='é'>".toList).Substituted
        (parseTemplate (Edit.applyAll "<p><b c d='é'>".toList (ToggleAction.edits action))) 0 [0] 1
        (.directive d) ∧
      d.rawName = ":d".toList ∧ d.expression.map (·.source) = some "é".toList := by
  have hplace : (Element.elementAt? (parseTemplate "<p><b c d='é'>".toList).roots 0 [0]).bind
      (·.attributes[1]?) = some (.static ⟨"d".toList, ⟨8, 9⟩,
        some ⟨"é".toList, some '\'', ⟨10, 14⟩, ⟨11, 13⟩⟩, ⟨8, 14⟩⟩) := by
    decide +kernel
  obtain ⟨e, he, ha⟩ := Option.bind_eq_some_iff.1 hplace
  obtain ⟨action, d, -, hsubstituted, -, -, hraw, hexpression⟩ :=
    substituted_addBinding he ha (by decide)
  exact ⟨action, d, hsubstituted, hraw, hexpression⟩

/-! ## Removing a binding -/

/-- The character in front of an offset. -/
theorem exists_init_of_slice? {t x y : Text} {c : Char} {n : Nat} (ht : t = x ++ y)
    (hn : width x = n) (h : slice? t (n - 1) n = some [c]) : ∃ u, x = u ++ [c] := by
  rw [slice?, if_pos (Nat.sub_le n 1)] at h
  split at h
  · cases h
  · rename_i u after hu
    obtain ⟨⟨c', rest⟩, hafter, rfl⟩ := Option.map_eq_some_iff.1 h
    obtain ⟨htu, hwu⟩ := append_of_splitAt? hu
    obtain ⟨hsplit, hwc⟩ := append_of_splitAt? hafter
    have hpos := c.utf8Size_pos
    simp only [width_cons, width_nil] at hwc
    have hboth : splitAt? n t = some (u ++ [c], rest) := by
      rw [splitAt?_eq_some_iff, htu, hsplit]
      refine ⟨by simp, ?_⟩
      simp only [width_append, width_cons, width_nil]
      omega
    have hx : splitAt? n t = some (x, y) := splitAt?_eq_some_iff.2 ⟨ht, hn⟩
    rw [hx] at hboth
    exact ⟨u, (Prod.mk.inj (Option.some.inj hboth)).1⟩

namespace Markup

/-- The value of an attribute stands in quotes when there is a quote in front of its content. -/
theorem quoted_of_slice? {f : AttributeForm} {p : ValuePart} {before after : Text} {q : Char}
    (hf : f.Fits after) (hp : f.value = some p) (hq : q = '"' ∨ q = '\'')
    (h : slice? (before ++ (f.text ++ after))
      ((p.form.value (f.valueStart p (width before))).contentSpan.start - 1)
      (p.form.value (f.valueStart p (width before))).contentSpan.start = some [q]) :
    ∃ content closed, p.form = .quoted q content closed := by
  have htext : before ++ (f.text ++ after) =
      (before ++ (f.name ++ (p.separator ++ p.form.opening))) ++
        (p.form.content ++ (p.form.closing ++ after)) := by
    simp only [AttributeForm.text_of_value hp, List.append_assoc]
  have hwidth : width (before ++ (f.name ++ (p.separator ++ p.form.opening))) =
      (p.form.value (f.valueStart p (width before))).contentSpan.start := by
    simp only [ValueForm.value, AttributeForm.valueStart, width_append]
    omega
  obtain ⟨u, hu⟩ := exists_init_of_slice? htext hwidth h
  cases hv : p.form with
  | quoted q' content closed =>
    simp only [hv, ValueForm.opening, ← List.append_assoc] at hu
    obtain rfl : q' = q := by simpa using List.append_inj_right' hu rfl
    exact ⟨content, closed, rfl⟩
  | unquoted content =>
    -- in front of it there is the equals sign or a blank
    have hbehind := (hf.valued p hp).2.2.1
    rcases List.eq_nil_or_concat p.behind with hnil | ⟨bs, c, hc⟩
    · simp only [hv, ValueForm.opening, ValuePart.separator, hnil, List.append_nil,
        ← List.append_assoc] at hu
      obtain rfl : '=' = q := by simpa using List.append_inj_right' hu rfl
      simp at hq
    · rw [List.concat_eq_append] at hc
      simp only [hv, ValueForm.opening, ValuePart.separator, hc, List.append_nil,
        ← List.append_assoc, ← List.cons_append] at hu
      obtain rfl : c = q := by simpa using List.append_inj_right' hu rfl
      have hblank := hbehind c (by simp [hc])
      rcases hq with rfl | rfl <;> exact absurd hblank (by decide)

/-- The form of an attribute whose binding to the string `body` is removed. -/
def unbound (argument : Text) (p : ValuePart) (q : Char) (body : Text) (closed : Bool) :
    AttributeForm :=
  ⟨argument, some { p with form := .quoted q body closed }⟩

theorem text_unbound {p : ValuePart} {content : Text} {q : Char} {closed : Bool}
    (hform : p.form = .quoted q content closed) (argument body : Text) :
    (unbound argument p q body closed).text =
      argument ++ (p.separator ++ (p.form.opening ++ (body ++ p.form.closing))) := by
  rw [hform]
  cases closed <;> rfl

/-- What stands behind a marker goes on with characters of a name. -/
theorem AttributeForm.Fits.name_of_lead {f : AttributeForm} {lead argument rest : Text}
    (h : f.Fits rest) (hname : f.name = lead ++ argument) (hlead : lead ≠ []) :
    ∀ c ∈ argument, isAttributePart c = true := by
  obtain ⟨x, l, rfl⟩ := List.exists_cons_of_ne_nil hlead
  intro c hc
  exact h.name c (by simp [hname, hc])

theorem AttributeForm.Fits.unbound {f : AttributeForm} {p : ValuePart}
    {lead argument content body rest : Text} {q : Char} {closed : Bool} (h : f.Fits rest)
    (hname : f.name = lead ++ argument) (hlead : lead ≠ []) (hargument : argument ≠ [])
    (hp : f.value = some p) (hform : p.form = .quoted q content closed)
    (hbody : ∀ c ∈ body, c ∈ content) :
    (unbound argument p q body closed).Fits rest ∧ argument.head? ≠ some '=' := by
  have hparts := h.name_of_lead hname hlead
  obtain ⟨c, u, rfl⟩ := List.exists_cons_of_ne_nil hargument
  have hc := hparts c (by simp)
  simp only [isAttributePart, Bool.and_eq_true, Bool.not_eq_true', bne_iff_ne] at hc
  obtain ⟨⟨⟨hblank, hslash⟩, hend⟩, heq⟩ := hc
  refine ⟨⟨⟨c, u, rfl, hblank, hslash, hend⟩, ?_, fun hn => (by cases hn), ?_⟩, by simpa using heq⟩
  · intro d hd
    exact hparts d (List.mem_cons_of_mem c hd)
  · rintro p' ⟨⟩
    obtain ⟨hfits, hbefore, hbehind, hstops⟩ := h.valued p hp
    rw [hform] at hfits hstops
    obtain ⟨hquote, hnot, hclosed⟩ := hfits
    exact ⟨⟨hquote, fun hmem => hnot (hbody q hmem), hclosed⟩, hbefore, hbehind,
      stops_cons.2 (stops_cons.1 hstops)⟩

theorem problems_unbound {f : AttributeForm} {p : ValuePart} {content : Text} {q : Char}
    {closed : Bool} (hp : f.value = some p) (hform : p.form = .quoted q content closed)
    (argument body : Text) :
    (f.issues 0).map (·.problem) =
      ((unbound argument p q body closed).issues 0).map (·.problem) := by
  simp only [AttributeForm.issues, hp, unbound, Option.map_some, Option.getD_some, hform]
  cases closed <;> rfl

theorem Site.applyAll_unbound (s : Site) {f : AttributeForm} {p : ValuePart}
    {lead argument gap body behind content : Text} {q q' : Char} {closed : Bool}
    (hname : f.name = lead ++ argument) (hp : f.value = some p)
    (hform : p.form = .quoted q content closed) (hq : Lexer.IsPlainBody q' body)
    (hcontent : p.form.content = gap ++ q' :: (body ++ q' :: behind)) :
    Edit.applyAll (s.fill f) (ToggleAction.removeBinding ⟨0⟩
      ⟨⟨s.start, s.start + width lead⟩, (p.form.value (f.valueStart p s.start)).contentSpan, 0,
        width gap, literalSpan gap q' body⟩).edits = s.fill (unbound argument p q body closed) := by
  have hedited := (applyAll_removeForm hname hp hq hcontent [] s.head s.tail).2
  simpa [fill, start, text_unbound hform] using hedited

/-- The marker of a binding stands where its attribute begins. -/
theorem Site.slice?_lead (s : Site) {f : AttributeForm} {p : ValuePart} {lead argument : Text}
    (hname : f.name = lead ++ argument) (hp : f.value = some p) :
    slice? (s.fill f) s.start (s.start + width lead) = some lead := by
  have htext : s.fill f = s.head ++ (lead ++ (argument ++ (p.separator ++ (p.form.opening ++
      (p.form.content ++ p.form.closing))) ++ s.tail)) := by
    simp only [fill, AttributeForm.text_of_value hp, hname, List.append_assoc]
  exact slice?_eq_some htext rfl rfl

end Markup

/-- A static attribute is told by its outline, apart from places. -/
theorem exists_static_of_unplaced {new : Attribute} {a : StaticAttribute} {v : AttributeValue}
    (h : new.unplaced = (Attribute.static a).unplaced) (hv : a.value = some v) :
    ∃ (a' : StaticAttribute) (v' : AttributeValue), new = .static a' ∧ a'.name = a.name ∧
      a'.value = some v' ∧ v'.quote = v.quote ∧ v'.content = v.content := by
  cases new with
  | directive d => cases h
  | static a' =>
    simp only [Attribute.unplaced, Attribute.static.injEq, StaticAttribute.mk.injEq, hv,
      Option.map_some, Option.map_eq_some_iff] at h
    obtain ⟨hname, -, ⟨v', hv', hunplaced⟩, -⟩ := h
    simp only [AttributeValue.unplaced, AttributeValue.mk.injEq] at hunplaced
    exact ⟨a', v', rfl, hname, hv', hunplaced.2.1, hunplaced.1⟩

/-- **Removing a binding changes its attribute only.** -/
theorem substituted_removeBinding {source lead : Text} {index place : Nat} {path : List Nat}
    {e : Element} {d : Directive} {b : LiteralBinding} {x : BoundExpression} {argument : Argument}
    {q : Char} (he : Element.elementAt? (parseTemplate source).roots index path = some e)
    (ha : e.attributes[place]? = some (.directive d))
    (hb : classify (.directive d) = .removable b) (hx : d.expression = some x)
    (hquote : slice? source (x.span.start - 1) x.span.start = some [q]) (hq : q = '"' ∨ q = '\'')
    (hargument : d.argument = some argument) (hlead : d.markerSpan.slice? source = some lead)
    (hraw : d.rawName = lead ++ argument.content)
    (hstatic : DirectiveName.ofText? argument.content = none) :
    ∃ action a v, synthesize ⟨0⟩ (.directive d) (classify (.directive d)) = some action ∧
      (parseTemplate source).Substituted (parseTemplate (Edit.applyAll source action.edits))
        index path place (.static a) ∧
      a.name = argument.content ∧ a.value = some v ∧ v.quote = some q ∧
      slice? x.source (b.literal.start + 1) (b.literal.stop - 1) = some v.content := by
  obtain ⟨s, f, hs, rfl, hattr⟩ := Markup.exists_site
    (Element.mem_allAttributes_of_elementAt? he (List.mem_of_getElem? ha))
  have hremovable := hb
  rw [hattr] at hb
  obtain ⟨parts, name, p, gap, q', body, hparts, hname, hp, hsole, rfl⟩ :=
    Markup.exists_parts_of_removable hb
  obtain ⟨-, hplain, behind, -, hcontent⟩ := hsole
  obtain ⟨-, hleadne, hargumentne⟩ := parts_of_ofText? hparts
  rw [Markup.toAttribute_directive hparts] at hattr
  cases hattr
  have hexpression : Attribute.boundExpression
      (f.value.map fun p => p.form.value (f.valueStart p s.start)) =
        some ⟨p.form.content, (p.form.value (f.valueStart p s.start)).contentSpan⟩ := by
    simp [hp, Attribute.boundExpression, Markup.ValueForm.value, hcontent]
  obtain rfl := Option.some.inj (hx.symm.trans hexpression)
  -- the argument is all that stands behind the marker
  obtain rfl : parts.lead = lead :=
    Option.some.inj ((s.slice?_lead hname hp).symm.trans hlead)
  obtain ⟨content, hc, rfl⟩ := Option.map_eq_some_iff.1 hargument
  obtain rfl : name = content := List.append_cancel_left (hname.symm.trans hraw)
  obtain ⟨text, closed, hform⟩ := Markup.quoted_of_slice? hs.fits_attr hp hq hquote
  have hbody : ∀ c ∈ body, c ∈ text := by
    intro c hmem
    have : p.form.content = text := by rw [hform]; rfl
    rw [← this, hcontent]
    simp [hmem]
  obtain ⟨hfits, heq⟩ := hs.fits_attr.unbound hname hleadne
    (by rintro rfl; exact hargumentne hc) hp hform hbody
  obtain ⟨new, hnew, hsubstituted⟩ := substituted_fill hs hfits heq
    (Markup.problems_unbound hp hform name body) he
    (by rw [Markup.toAttribute_directive hparts]; exact ha)
  rw [Markup.toAttribute_static hstatic] at hnew
  obtain ⟨a, v, rfl, haname, hav, hvquote, hvcontent⟩ := exists_static_of_unplaced hnew rfl
  refine ⟨_, a, v, by rw [hremovable]; rfl, ?_, haname, hav, hvquote, ?_⟩
  · rw [s.applyAll_unbound hname hp hform hplain hcontent]
    exact hsubstituted
  · rw [hvcontent, hcontent]
    exact slice?_body hplain gap behind

/-- A binding with a long marker in a tag that is not closed. -/
theorem substituted_removeBinding_long :
    ∃ action a v, (parseTemplate "<p><b c v-bind:d=\" 'é'\"".toList).Substituted
        (parseTemplate (Edit.applyAll "<p><b c v-bind:d=\" 'é'\"".toList
          (ToggleAction.edits action))) 0 [0] 1 (.static a) ∧
      a.name = "d".toList ∧ a.value = some v ∧ v.quote = some '"' ∧ v.content = "é".toList := by
  let d : Directive :=
    { name := "bind".toList
      rawName := "v-bind:d".toList
      marker := .long
      markerSpan := ⟨8, 15⟩
      argument := some ⟨"d".toList, ⟨15, 16⟩⟩
      modifiers := []
      expression := some ⟨" 'é'".toList, ⟨18, 23⟩⟩
      span := ⟨8, 24⟩ }
  have hplace : (Element.elementAt? (parseTemplate "<p><b c v-bind:d=\" 'é'\"".toList).roots 0
      [0]).bind (·.attributes[1]?) = some (.directive d) := by
    decide +kernel
  obtain ⟨e, he, ha⟩ := Option.bind_eq_some_iff.1 hplace
  have hsole : SoleLiteral " 'é'".toList " ".toList '\'' "é".toList :=
    ⟨.space (by decide) .nil, ⟨.inl rfl, by decide, by decide, by decide, by decide⟩, [],
      .inl .nil, rfl⟩
  have hlead : d.markerSpan.slice? "<p><b c v-bind:d=\" 'é'\"".toList = some "v-bind:".toList := by
    decide +kernel
  obtain ⟨action, a, v, -, hsubstituted, hname, hvalue, hquote, hcontent⟩ :=
    substituted_removeBinding he ha (removable_of_soleLiteral rfl rfl rfl hsole) rfl
      (by decide +kernel) (.inl rfl) rfl hlead rfl (by decide +kernel)
  have hbody : slice? " 'é'".toList 2 4 = some "é".toList := by decide +kernel
  exact ⟨action, a, v, hsubstituted, hname, hvalue, hquote,
    (Option.some.inj (hbody.symm.trans hcontent)).symm⟩

end BindingToggle
