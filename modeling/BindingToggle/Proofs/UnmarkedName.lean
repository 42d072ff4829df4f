import BindingToggle.Proofs.EditedTemplate

/-!
# The name of a binding without its marker

Removing a binding deletes its marker, and what is left of the name is the name of the attribute
from then on. It is meant to be the argument of the binding, and a name that stands for itself.

* `DirectiveName.exists_points` — the name of a directive with a fixed argument and no modifiers is
  its marker, its argument and points, which leave no modifier.
* `rawName_of_removable` — without points, and with an argument that is not marked, the edited
  attribute is static and has the argument for its name. `rawName_of_removable_points` shows that
  bindings with points and with marked arguments are removable as well.
-/

namespace BindingToggle

open Text

/-! ## Points behind the argument -/

namespace DirectiveName

/-- A text has only empty pieces when there are only separators in it. -/
theorem splitOn_eq_nil_iff (separator : Char) (t : Text) :
    (∀ piece ∈ List.splitOn separator t, piece = []) ↔ ∀ c ∈ t, c = separator := by
  induction t with
  | nil => simp
  | cons c t ih =>
    rw [List.splitOn_cons_eq_if_modifyHead]
    by_cases hc : c = separator
    · simp [hc, ih]
    · obtain ⟨piece, pieces, hpieces⟩ :=
        List.exists_cons_of_ne_nil (List.splitOn_ne_nil separator t)
      simp [hc, hpieces]

/-- Only points leave no modifiers. -/
theorem modifiersOf_eq_nil_iff (t : Text) : modifiersOf t = [] ↔ ∀ c ∈ t, c = '.' := by
  rw [← splitOn_eq_nil_iff, modifiersOf, List.filter_eq_nil_iff]
  simp

/-- The name of a directive with a fixed argument and no modifiers. -/
theorem exists_points {name argument : Text} {parts : DirectiveName}
    (h : ofText? name = some parts) (ha : parts.argument = some argument)
    (hstatic : argument.head? ≠ some '[') (hm : parts.modifiers = []) :
    ∃ points, name = parts.lead ++ (argument ++ points) ∧ (∀ c ∈ points, c = '.') ∧
      '.' ∉ argument := by
  obtain ⟨tail, hspelled⟩ := exists_spelled h
  have hends := hspelled.argument
  have hwhole := hspelled.whole
  have hmodifiers := hspelled.modifiers
  rw [ha, Option.getD_some] at hends hwhole
  rw [hm, modifiersBehind_eq] at hmodifiers
  refine ⟨tail, hwhole, ?_, ?_⟩
  · rw [← modifiersOf_eq_nil_iff]
    split at hmodifiers
    · exact absurd hmodifiers.symm (by simp)
    · exact hmodifiers.symm
  · -- an argument in brackets is not fixed
    cases hends with
    | plain _ hpoint _ => exact hpoint
    | closed => exact absurd rfl hstatic
    | unclosed => exact absurd rfl hstatic

end DirectiveName

/-- A binding that is removable has a fixed argument and no modifiers. -/
theorem plain_of_removable {d : Directive} {b : LiteralBinding}
    (h : classify (.directive d) = .removable b) :
    (∃ argument, d.argument = some argument ∧ argument.content.head? ≠ some '[') ∧
      d.modifiers = [] := by
  have hplain : Classification.isPlain d = true := by
    cases hplain : Classification.isPlain d with
    | true => rfl
    | false =>
      simp only [classify, Classification.literalBinding, hplain, Bool.not_false, if_true] at h
      cases hbinding : d.isBinding <;> simp [hbinding] at h
  simp only [Classification.isPlain, Bool.and_eq_true, List.isEmpty_iff] at hplain
  obtain ⟨⟨hargument, -⟩, hmodifiers⟩ := hplain
  refine ⟨?_, hmodifiers⟩
  cases hd : d.argument with
  | none =>
    rw [hd] at hargument
    cases hargument
  | some argument =>
    rw [hd] at hargument
    exact ⟨argument, rfl, bne_iff_ne.1 hargument⟩

/-! ## The name in the edited template -/

namespace Markup

/-- The argument of a removable binding stands in its name, with nothing but points behind it. -/
theorem exists_points_of_removable {f : AttributeForm} {start : Nat} {parts : DirectiveName}
    {b : LiteralBinding} (hparts : DirectiveName.ofText? f.name = some parts)
    (hb : classify (f.toAttribute start) = .removable b) :
    ∃ content points, parts.argument = some content ∧ content ≠ [] ∧
      f.name = parts.lead ++ (content ++ points) ∧ (∀ c ∈ points, c = '.') ∧ '.' ∉ content := by
  rw [toAttribute_directive hparts] at hb
  obtain ⟨⟨argument, hargument, hfixed⟩, hmodifiers⟩ := plain_of_removable hb
  obtain ⟨content, hc, rfl⟩ := Option.map_eq_some_iff.1 hargument
  obtain ⟨points, hpoints, hall, hdot⟩ :=
    DirectiveName.exists_points hparts hc hfixed hmodifiers
  refine ⟨content, points, hc, ?_, hpoints, hall, hdot⟩
  rintro rfl
  exact (parts_of_ofText? hparts).2.2 hc

theorem rawName_toAttribute (f : AttributeForm) (start : Nat) :
    (f.toAttribute start).rawName = f.name := by
  cases hn : DirectiveName.ofText? f.name with
  | none => rw [toAttribute_static hn]; rfl
  | some parts => rw [toAttribute_directive hn]; rfl

theorem rawName_attributeAt (c : Cursor) : (attributeAt c).found.rawName = attributeName c := by
  have hof : ∀ name start value, (Attribute.of name start value).rawName = name := by
    intro name start value
    unfold Attribute.of
    cases DirectiveName.ofText? name <;> rfl
  unfold attributeAt
  dsimp only
  split <;> exact hof _ _ _

/-- The name of an attribute is the run of characters that it begins with. -/
theorem AttributeForm.Fits.name_eq {f : AttributeForm} {rest name u : Text} (h : f.Fits rest)
    (ht : f.text ++ rest = name ++ u) (hne : name ≠ [])
    (hname : ∀ c ∈ name, isAttributePart c = true) (hu : Stops isAttributePart u) :
    f.name = name := by
  obtain ⟨c, name, rfl⟩ := List.exists_cons_of_ne_nil hne
  have hread := congrArg (fun r => r.found.rawName) (attributeAt_form h 0)
  simp only [rawName_attributeAt, rawName_toAttribute, ht] at hread
  have htail : ∀ d ∈ name, isAttributePart d = true := fun d hd => hname d (by simp [hd])
  rw [← hread]
  simp [attributeName, Cursor.skip, takeWhile_run htail hu]

/-- A name ends in front of the equals sign and the blanks there. -/
theorem ValuePart.stops_separator {p : ValuePart} (h : ∀ c ∈ p.before, isMarkupBlank c = true)
    (t : Text) : Stops isAttributePart (p.separator ++ t) := by
  rw [separator]
  cases hb : p.before with
  | nil => exact stops_cons.2 (by decide)
  | cons c before =>
    exact stops_cons.2 (isAttributePart_of_isMarkupBlank (h c (by simp [hb])))

/-- **A static attribute with the name `argument`** is read where a text that begins with that name
is written at a site. -/
theorem Site.Holds.exists_static {s : Site} {f : AttributeForm} (h : s.Holds f)
    {argument u : Text} (hne : argument ≠ [])
    (hparts : ∀ c ∈ argument, isAttributePart c = true) (hu : Stops isAttributePart u)
    (hstatic : DirectiveName.ofText? argument = none) :
    ∃ new : StaticAttribute,
      Attribute.static new ∈
        Element.allAttributes (parseTemplate (s.head ++ (argument ++ u))).roots ∧
      new.span.start = s.start ∧ new.name = argument := by
  obtain ⟨c, v, hv⟩ := List.exists_cons_of_ne_nil hne
  have hc := hparts c (by simp [hv])
  simp only [isAttributePart, Bool.and_eq_true, Bool.not_eq_true', bne_iff_ne] at hc
  obtain ⟨⟨⟨hblank, hslash⟩, hend⟩, heq⟩ := hc
  have hstarts : AttributeForm.Starts (argument ++ u) :=
    ⟨c, v ++ u, by simp [hv], hblank, hslash, hend⟩
  obtain ⟨others, rest, f', hholds, hfits, htext⟩ :=
    h.exists_rewrite hstarts (by simpa [hv] using heq)
  have hname : f'.name = argument := hfits.name_eq htext.symm hne hparts hu
  have hmem := hholds.mem_allAttributes
  rw [toAttribute_static (by rw [hname, hstatic])] at hmem
  rw [htext]
  exact ⟨_, hmem, rfl, hname⟩

end Markup

/-- **The name of a removable binding** is its marker, its argument and points. If there are none,
and the argument is not marked, then the edited attribute is static and named like the argument. -/
theorem rawName_of_removable {source : Text} {a : Attribute} {b : LiteralBinding}
    (ha : a ∈ Element.allAttributes (parseTemplate source).roots)
    (hb : classify a = .removable b) :
    ∃ d argument lead points, a = .directive d ∧ d.argument = some argument ∧
      d.markerSpan.slice? source = some lead ∧ d.rawName = lead ++ (argument.content ++ points) ∧
      argument.content ≠ [] ∧ '.' ∉ argument.content ∧ (∀ c ∈ points, c = '.') ∧
      (points = [] → ¬ DirectiveName.Marked argument.content →
        DirectiveName.ofText? argument.content = none ∧
        ∃ action new, synthesize ⟨0⟩ a (classify a) = some action ∧
          Attribute.static new ∈
            Element.allAttributes (parseTemplate (Edit.applyAll source action.edits)).roots ∧
          new.span.start = a.span.start ∧ new.name = argument.content) := by
  obtain ⟨s, f, hs, rfl, rfl⟩ := Markup.exists_site ha
  obtain ⟨parts, name, p, gap, q, body, hparts, hname, hp, hsole, rfl⟩ :=
    Markup.exists_parts_of_removable hb
  obtain ⟨-, hplain, behind, -, hcontent⟩ := hsole
  obtain ⟨content, points, hc, hne, hpoints, hall, hdot⟩ :=
    Markup.exists_points_of_removable hparts hb
  have hd := Markup.toAttribute_directive hparts s.start
  refine ⟨_, _, parts.lead, points, hd, by rw [hc]; rfl, s.slice?_lead hname hp, hpoints, hne, hdot,
    hall, ?_⟩
  rintro rfl hmarked
  rw [List.append_nil] at hpoints
  have hstatic := (DirectiveName.ofText?_eq_none_iff content).2 hmarked
  have hfits := hs.fits_attr
  obtain ⟨new, hmem, hstart, hnew⟩ := hs.exists_static hne
    (hfits.name_of_lead hpoints (parts_of_ofText? hparts).2.1)
    (Markup.ValuePart.stops_separator (hfits.valued p hp).2.1 (p.form.opening ++
      (body ++ (p.form.closing ++ s.tail)))) hstatic
  have hedited := (Markup.applyAll_removeForm hpoints hp hplain hcontent [] s.head s.tail).2
  simp only [List.nil_append, width_nil] at hedited
  refine ⟨hstatic, _, new, by rw [hb, hd]; rfl, ?_, ?_, hnew⟩
  · rw [← hedited] at hmem
    exact hmem
  · rw [hstart, Markup.AttributeForm.span_start_toAttribute]

/-- A binding with a long marker, whose name is its marker and its argument. -/
theorem rawName_of_removable_long :
    ∃ action new, Attribute.static new ∈ Element.allAttributes
        (parseTemplate (Edit.applyAll "<p v-bind:b=\"'x'\">".toList
          (ToggleAction.edits action))).roots ∧
      new.span.start = 3 ∧ new.name = "b".toList := by
  let d : Directive :=
    { name := "bind".toList
      rawName := "v-bind:b".toList
      marker := .long
      markerSpan := ⟨3, 10⟩
      argument := some ⟨"b".toList, ⟨10, 11⟩⟩
      modifiers := []
      expression := some ⟨"'x'".toList, ⟨13, 16⟩⟩
      span := ⟨3, 17⟩ }
  have hmem : Attribute.directive d ∈
      Element.allAttributes (parseTemplate "<p v-bind:b=\"'x'\">".toList).roots := by
    decide +kernel
  have hremovable : classify (.directive d) = .removable ⟨⟨3, 10⟩, ⟨13, 16⟩, 0, 0, ⟨0, 3⟩⟩ := by
    decide +kernel
  obtain ⟨d', argument, lead, points, hd, hargument, hlead, hraw, -, -, -, hedited⟩ :=
    rawName_of_removable hmem hremovable
  cases hd
  cases hargument
  have hslice : d.markerSpan.slice? "<p v-bind:b=\"'x'\">".toList = some "v-bind:".toList := by
    decide +kernel
  obtain rfl : "v-bind:".toList = lead := Option.some.inj (hslice.symm.trans hlead)
  have hnone : points = [] := by
    have hlength := congrArg List.length hraw
    simpa [d] using hlength
  have hmarked : ¬ DirectiveName.Marked "b".toList :=
    (DirectiveName.ofText?_eq_none_iff _).1 (by decide)
  obtain ⟨-, action, new, -, hnew, hstart, hname⟩ := hedited hnone hmarked
  exact ⟨action, new, hnew, hstart, hname⟩

/-- A binding with a point behind its argument is removable, and so is one with a marked argument:
the name that is left is not the argument, or it is the name of a directive again. -/
theorem rawName_of_removable_points :
    (¬ ∀ (source : Text) (d : Directive) (b : LiteralBinding) (argument : Argument) (lead : Text),
      Attribute.directive d ∈ Element.allAttributes (parseTemplate source).roots →
      classify (.directive d) = .removable b → d.argument = some argument →
      d.markerSpan.slice? source = some lead → d.rawName = lead ++ argument.content) ∧
    ¬ ∀ (source : Text) (d : Directive) (b : LiteralBinding) (argument : Argument),
      Attribute.directive d ∈ Element.allAttributes (parseTemplate source).roots →
      classify (.directive d) = .removable b → d.argument = some argument →
      DirectiveName.ofText? argument.content = none := by
  constructor
  · intro h
    have hname := h "<p :a.=\"'x'\"></p>".toList
      { name := "bind".toList
        rawName := ":a.".toList
        marker := .colon
        markerSpan := ⟨3, 4⟩
        argument := some ⟨"a".toList, ⟨4, 5⟩⟩
        modifiers := []
        expression := some ⟨"'x'".toList, ⟨8, 11⟩⟩
        span := ⟨3, 12⟩ }
      ⟨⟨3, 4⟩, ⟨8, 11⟩, 0, 0, ⟨0, 3⟩⟩ ⟨"a".toList, ⟨4, 5⟩⟩ ":".toList (by decide +kernel)
      (by decide +kernel) rfl (by decide +kernel)
    exact absurd hname (by decide)
  · intro h
    have hname := h "<p ::a=\"'x'\"></p>".toList
      { name := "bind".toList
        rawName := "::a".toList
        marker := .colon
        markerSpan := ⟨3, 4⟩
        argument := some ⟨":a".toList, ⟨4, 6⟩⟩
        modifiers := []
        expression := some ⟨"'x'".toList, ⟨8, 11⟩⟩
        span := ⟨3, 12⟩ }
      ⟨⟨3, 4⟩, ⟨8, 11⟩, 0, 0, ⟨0, 3⟩⟩ ⟨":a".toList, ⟨4, 6⟩⟩ (by decide +kernel)
      (by decide +kernel) rfl
    exact absurd hname (by decide)

end BindingToggle
