import BindingToggle.Proofs.Scanning
import BindingToggle.Template.Markup

/-!
# How attributes are written

An `AttributeForm` is an attribute with all of its characters: its name, and its value with the
blanks around the equals sign and the quotes. `Fits` says in front of which texts a form is read as
a whole.

* `attributeAt_form` — in front of a text that it fits, a form is read as the attribute it stands
  for, and the cursor comes to that text.
* `exists_attributeForm` — wherever an attribute is read, a form is written.
* `Fits.congr` — fitting is a matter of the next few characters.

So a statement about the attributes of a template can be made about forms, and a change to an
attribute is a change of its form.
-/

namespace BindingToggle

namespace Markup

open Text

/-! ## Values -/

/-- The characters of a value. -/
inductive ValueForm where
  /-- A value in quotes; one that is not `closed` goes on to the end of the text. -/
  | quoted (quote : Char) (content : Text) (closed : Bool)
  | unquoted (content : Text)
  deriving DecidableEq, Repr, Inhabited

namespace ValueForm

/-- What stands in front of the content. -/
def opening : ValueForm → Text
  | quoted q _ _ => [q]
  | unquoted _ => []

def content : ValueForm → Text
  | quoted _ content _ => content
  | unquoted content => content

/-- What stands behind the content. -/
def closing : ValueForm → Text
  | quoted q _ true => [q]
  | _ => []

def quote : ValueForm → Option Char
  | quoted q _ _ => some q
  | unquoted _ => none

def text (v : ValueForm) : Text := v.opening ++ (v.content ++ v.closing)

/-- The value that begins at `start`. -/
def value (v : ValueForm) (start : Nat) : AttributeValue :=
  let contentStart := start + width v.opening
  { content := v.content
    quote := v.quote
    span := ⟨start, start + width v.text⟩
    contentSpan := ⟨contentStart, contentStart + width v.content⟩ }

/-- The issues of the value that begins at `start`. -/
def issues (start : Nat) : ValueForm → List Issue
  | quoted q _ false => [⟨.unterminatedValue, ⟨start, start + q.utf8Size⟩⟩]
  | _ => []

/-- Whether the value ends in front of `rest`. -/
def Fits (rest : Text) : ValueForm → Prop
  | quoted q content closed =>
    (q = '"' ∨ q = '\'') ∧ q ∉ content ∧ (closed = false → rest = [])
  | unquoted content =>
    (∀ c ∈ content, isUnquotedPart c = true) ∧ Stops isUnquotedPart rest ∧
      content.head? ≠ some '"' ∧ content.head? ≠ some '\''

theorem text_unquoted (content : Text) : (unquoted content).text = content := by
  simp [text, opening, ValueForm.content, closing]

theorem text_quoted (q : Char) (content : Text) :
    (quoted q content true).text = q :: (content ++ [q]) := rfl

end ValueForm

theorem quotedValue_form {q : Char} {content rest : Text} {closed : Bool} (hq : q ∉ content)
    (hr : closed = false → rest = []) (offset : Nat) :
    quotedValue q ⟨offset, (ValueForm.quoted q content closed).text ++ rest⟩ =
      ⟨(ValueForm.quoted q content closed).value offset,
        (ValueForm.quoted q content closed).issues offset,
        ⟨offset + width (ValueForm.quoted q content closed).text, rest⟩⟩ := by
  have hrun : ∀ c ∈ content, (c != q) = true := by
    intro c hc
    simp only [bne_iff_ne]
    rintro rfl
    exact hq hc
  cases closed with
  | true =>
    have htake : (content ++ q :: rest).takeWhile (· != q) = content :=
      takeWhile_run hrun (stops_cons.2 (by simp))
    have hdrop : (content ++ q :: rest).dropWhile (· != q) = q :: rest :=
      dropWhile_run hrun (stops_cons.2 (by simp))
    simp [quotedValue, Cursor.skip, Cursor.skipWhile, htake, hdrop, ValueForm.text,
      ValueForm.opening, ValueForm.content, ValueForm.closing, ValueForm.value, ValueForm.issues,
      ValueForm.quote, Nat.add_assoc]
  | false =>
    have hr0 := hr rfl
    subst hr0
    have htake : content.takeWhile (· != q) = content := by
      simpa using takeWhile_run hrun (stops_nil _)
    have hdrop : content.dropWhile (· != q) = [] := by
      simpa using dropWhile_run hrun (stops_nil _)
    simp [quotedValue, Cursor.skip, Cursor.skipWhile, htake, hdrop, ValueForm.text,
      ValueForm.opening, ValueForm.content, ValueForm.closing, ValueForm.value, ValueForm.issues,
      ValueForm.quote, Nat.add_assoc]

theorem valueAt_form {v : ValueForm} {rest : Text} (h : v.Fits rest) (offset : Nat) :
    valueAt ⟨offset, v.text ++ rest⟩ =
      ⟨v.value offset, v.issues offset, ⟨offset + width v.text, rest⟩⟩ := by
  cases v with
  | quoted q content closed =>
    obtain ⟨hquote, hq, hr⟩ := h
    rw [← quotedValue_form hq hr]
    rcases hquote with rfl | rfl <;> simp [valueAt, ValueForm.text, ValueForm.opening]
  | unquoted content =>
    obtain ⟨hall, hstop, hd, hs⟩ := h
    -- the first character is no quote: it is one of the content, or ends the value
    have hhead : ∀ q : Char, isUnquotedPart q = true → content.head? ≠ some q →
        ∀ t, content ++ rest = q :: t → False := by
      intro q hq hne t ht
      cases content with
      | nil =>
        rw [List.nil_append] at ht
        rw [ht] at hstop
        rw [stops_cons.1 hstop] at hq
        cases hq
      | cons c content =>
        simp only [List.cons_append, List.cons.injEq] at ht
        exact hne (by simp [ht.1])
    have hun : valueAt ⟨offset, content ++ rest⟩ = unquotedValue ⟨offset, content ++ rest⟩ := by
      unfold valueAt
      split
      · rename_i t ht; exact (hhead '"' (by decide) hd t ht).elim
      · rename_i t ht; exact (hhead '\'' (by decide) hs t ht).elim
      · rfl
    have htext := ValueForm.text_unquoted content
    rw [htext, hun]
    simp [unquotedValue, Cursor.skipWhile, takeWhile_run hall hstop, dropWhile_run hall hstop,
      ValueForm.value, ValueForm.issues, ValueForm.quote, ValueForm.opening, ValueForm.content,
      htext]

theorem exists_quotedForm {q : Char} (hq : q = '"' ∨ q = '\'') (t : Text) :
    ∃ (v : ValueForm) (rest : Text), v.Fits rest ∧ q :: t = v.text ++ rest := by
  rcases exists_mark q t with hn | ⟨content, rest, rfl, hn⟩
  · exact ⟨.quoted q t false, [], ⟨hq, hn, fun _ => rfl⟩,
      by simp [ValueForm.text, ValueForm.opening, ValueForm.content, ValueForm.closing]⟩
  · exact ⟨.quoted q content true, rest, ⟨hq, hn, fun h => (by cases h)⟩,
      by simp [ValueForm.text, ValueForm.opening, ValueForm.content, ValueForm.closing]⟩

/-- Every text begins with a value. -/
theorem exists_valueForm (t : Text) :
    ∃ (v : ValueForm) (rest : Text), v.Fits rest ∧ t = v.text ++ rest := by
  by_cases hd : t.head? = some '"'
  · obtain ⟨u, rfl⟩ := List.head?_eq_some_iff.1 hd
    exact exists_quotedForm (.inl rfl) u
  by_cases hs : t.head? = some '\''
  · obtain ⟨u, rfl⟩ := List.head?_eq_some_iff.1 hs
    exact exists_quotedForm (.inr rfl) u
  obtain ⟨content, rest, rfl, hall, hstop⟩ := exists_run isUnquotedPart t
  have hhead : ∀ q, (content ++ rest).head? ≠ some q → content.head? ≠ some q := by
    intro q hne hq
    cases content with
    | nil => cases hq
    | cons c content => exact hne (by simpa using hq)
  exact ⟨.unquoted content, rest, ⟨hall, hstop, hhead _ hd, hhead _ hs⟩,
    by simp [ValueForm.text, ValueForm.opening, ValueForm.content, ValueForm.closing]⟩

/-! ## Attributes -/

/-- The characters of a value behind the name of an attribute: the blanks on both sides of the
equals sign, and the value. -/
structure ValuePart where
  before : Text
  behind : Text
  form : ValueForm
  deriving DecidableEq, Repr, Inhabited

/-- What stands between the name and the value. -/
def ValuePart.separator (p : ValuePart) : Text := p.before ++ '=' :: p.behind

/-- The characters of an attribute. -/
structure AttributeForm where
  name : Text
  value : Option ValuePart
  deriving DecidableEq, Repr, Inhabited

namespace AttributeForm

def text (f : AttributeForm) : Text :=
  f.name ++ (f.value.map fun p => p.separator ++ p.form.text).getD []

/-- Where the value of an attribute begins that begins at `start`. -/
def valueStart (f : AttributeForm) (p : ValuePart) (start : Nat) : Nat :=
  start + width f.name + width p.separator

/-- The attribute that begins at `start`. -/
def toAttribute (f : AttributeForm) (start : Nat) : Attribute :=
  Attribute.of f.name start (f.value.map fun p => p.form.value (f.valueStart p start))

/-- The issues of the attribute that begins at `start`. -/
def issues (f : AttributeForm) (start : Nat) : List Issue :=
  (f.value.map fun p => p.form.issues (f.valueStart p start)).getD []

/-- The first character is one that begins an attribute in a start tag. -/
def Starts (t : Text) : Prop :=
  ∃ c u, t = c :: u ∧ isMarkupBlank c = false ∧ c ≠ '/' ∧ c ≠ '>'

/-- Whether the attribute ends in front of `rest`. -/
structure Fits (f : AttributeForm) (rest : Text) : Prop where
  starts : Starts f.name
  name : ∀ c ∈ f.name.tail, isAttributePart c = true
  alone : f.value = none → Stops isAttributePart rest ∧
    (rest.dropWhile isMarkupBlank).head? ≠ some '='
  valued : ∀ p, f.value = some p → p.form.Fits rest ∧
    (∀ c ∈ p.before, isMarkupBlank c = true) ∧ (∀ c ∈ p.behind, isMarkupBlank c = true) ∧
    Stops isMarkupBlank (p.form.text ++ rest)

theorem Starts.append {t : Text} (h : Starts t) (u : Text) : Starts (t ++ u) := by
  obtain ⟨c, v, rfl, hc⟩ := h
  exact ⟨c, v ++ u, rfl, hc⟩

/-- The first character of a form is the first one of its name. -/
theorem Fits.starts_text {f : AttributeForm} {rest : Text} (h : f.Fits rest) : Starts f.text :=
  h.starts.append _

end AttributeForm

theorem isAttributePart_of_isMarkupBlank {c : Char} (h : isMarkupBlank c = true) :
    isAttributePart c = false := by
  simp [isAttributePart, h]

/-- **A form is read as the attribute it stands for.** -/
theorem attributeAt_form {f : AttributeForm} {rest : Text} (h : f.Fits rest) (offset : Nat) :
    attributeAt ⟨offset, f.text ++ rest⟩ =
      ⟨f.toAttribute offset, f.issues offset, ⟨offset + width f.text, rest⟩⟩ := by
  obtain ⟨name, value⟩ := f
  obtain ⟨⟨c, name, rfl, -, -, -⟩, hname, halone, hvalued⟩ := h
  simp only [List.tail_cons] at hname
  cases value with
  | none =>
    obtain ⟨hstop, hmark⟩ := halone rfl
    have hrest : ∀ t, rest.dropWhile isMarkupBlank = '=' :: t → False := by
      intro t ht
      exact hmark (by rw [ht]; rfl)
    simp only [AttributeForm.text, Option.map_none, Option.getD_none, List.append_nil,
      List.cons_append]
    unfold attributeAt
    dsimp only
    rw [Cursor.skip_one, Cursor.skipWhile_run hname hstop]
    split
    · rename_i t ht
      exact (hrest t ht).elim
    · simp [attributeName, Cursor.skip, takeWhile_run hname hstop, AttributeForm.toAttribute,
        AttributeForm.issues, Nat.add_assoc]
  | some p =>
    obtain ⟨hform, hbefore, hbehind, hblank⟩ := hvalued p rfl
    have hstop : Stops isAttributePart
        (p.before ++ '=' :: (p.behind ++ (p.form.text ++ rest))) := by
      intro x hx
      cases hb : p.before with
      | nil => rw [hb] at hx; cases hx; rfl
      | cons b before =>
        rw [hb] at hx
        cases hx
        exact isAttributePart_of_isMarkupBlank (hbefore x (by simp [hb]))
    have hmark : Stops isMarkupBlank ('=' :: (p.behind ++ (p.form.text ++ rest))) :=
      stops_cons.2 (by decide)
    simp only [AttributeForm.text, Option.map_some, Option.getD_some, ValuePart.separator,
      List.cons_append, List.append_assoc]
    unfold attributeAt
    dsimp only
    rw [Cursor.skip_one, Cursor.skipWhile_run hname hstop, Cursor.skipWhile_run hbefore hmark,
      Cursor.skip_one, Cursor.skipWhile_run hbehind hblank, valueAt_form hform]
    simp only [attributeName, Cursor.skip, List.take_succ_cons, List.take_zero, List.drop_succ_cons,
      List.drop_zero, takeWhile_run hname hstop, AttributeForm.toAttribute, AttributeForm.issues,
      AttributeForm.valueStart, ValuePart.separator, Option.map_some, Option.getD_some,
      width_append, width_cons, List.cons_append, List.nil_append, Nat.add_assoc]

/-- **Wherever an attribute is read, a form is written.** -/
theorem exists_attributeForm {t : Text} (ht : AttributeForm.Starts t) :
    ∃ (f : AttributeForm) (rest : Text), f.Fits rest ∧ t = f.text ++ rest := by
  obtain ⟨c, u, rfl, hc⟩ := ht
  obtain ⟨name, rest, rfl, hname, hstop⟩ := exists_run isAttributePart u
  have hstarts : AttributeForm.Starts (c :: name) := ⟨c, name, rfl, hc⟩
  by_cases hmark : (rest.dropWhile isMarkupBlank).head? = some '='
  · obtain ⟨before, rest', rfl, hbefore, hbstop⟩ := exists_run isMarkupBlank rest
    rw [dropWhile_run hbefore hbstop] at hmark
    obtain ⟨v, rfl⟩ := List.head?_eq_some_iff.1 hmark
    obtain ⟨behind, v', rfl, hbehind, hvstop⟩ := exists_run isMarkupBlank v
    obtain ⟨form, rest, hform, rfl⟩ := exists_valueForm v'
    refine ⟨⟨c :: name, some ⟨before, behind, form⟩⟩, rest,
      ⟨hstarts, hname, fun h => (by cases h), ?_⟩, ?_⟩
    · rintro p ⟨⟩
      exact ⟨hform, hbefore, hbehind, hvstop⟩
    · simp [AttributeForm.text, ValuePart.separator]
  · refine ⟨⟨c :: name, none⟩, rest, ⟨hstarts, hname, fun _ => ⟨hstop, hmark⟩, ?_⟩,
      by simp [AttributeForm.text]⟩
    intro p hp
    cases hp

/-- A form that fits a text fits every text that goes on in the same way: with the same character,
and with no equals sign behind the blanks if there was none. -/
theorem AttributeForm.Fits.congr {f : AttributeForm} {t t' : Text} (h : f.Fits t) (ht : t ≠ [])
    (hh : t'.head? = t.head?)
    (hm : (t.dropWhile isMarkupBlank).head? ≠ some '=' →
      (t'.dropWhile isMarkupBlank).head? ≠ some '=') : f.Fits t' := by
  have hstops : ∀ p : Char → Bool, Stops p t → Stops p t' := by
    intro p hp c hc
    exact hp c (by rw [← hh, hc])
  refine ⟨h.starts, h.name, fun hn => ?_, fun p hp => ?_⟩
  · obtain ⟨hstop, hmark⟩ := h.alone hn
    exact ⟨hstops _ hstop, hm hmark⟩
  · obtain ⟨hform, hbefore, hbehind, hblank⟩ := h.valued p hp
    refine ⟨?_, hbefore, hbehind, ?_⟩
    · cases hv : p.form with
      | quoted q content closed =>
        rw [hv] at hform
        obtain ⟨hq, hn, hclosed⟩ := hform
        exact ⟨hq, hn, fun hc => absurd (hclosed hc) ht⟩
      | unquoted content =>
        rw [hv] at hform
        obtain ⟨hall, hstop, hd, hs⟩ := hform
        exact ⟨hall, hstops _ hstop, hd, hs⟩
    · intro c hc
      refine hblank c ?_
      rw [List.head?_append] at hc ⊢
      rw [← hh]
      exact hc

end Markup

end BindingToggle
