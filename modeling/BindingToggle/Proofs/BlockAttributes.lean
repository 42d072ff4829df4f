import BindingToggle.Proofs.Anchoring
import BindingToggle.Proofs.BalancedBlock
import BindingToggle.Proofs.RawText
import BindingToggle.Proofs.UnquotedValue

/-!
# The attributes of the template block

Whether a template is read depends on two attributes of its block, and these are looked for in the
text of the start tag, not read like the attributes of elements. The search takes every place for an
attribute where the name stands behind a blank and an equals sign, a slash or the end follows it.

* `Block.seek` — the search from a place inside of the text on (`attribute?_eq_seek`).
* `Block.Mentions` — a text in which the search would find something.
* `TagItems.Legible` — a tag in which the search can tell an attribute from what only looks like it.
* `seek_items` — what is found in such a tag is the first attribute of the name, with its value.
* `parseComponent_legible` — so the template is read as the attributes say.
  `parseComponent_bare_source` shows what happens otherwise.
-/

namespace BindingToggle

open Text Markup

namespace Block

/-! ## The search from inside a text -/

/-- The search for an attribute, from a place on where a name may begin only if it is `free`. -/
def seek (name : Text) (free : Bool) (t : Text) : Option Text :=
  match breakOn? name t with
  | none => none
  | some (before, found) =>
    let behind := found.drop name.length
    (if (if before.isEmpty then free else endsInBlank before) then valueBehind? behind else none).or
      (attribute? name behind)

/-- Where the name does not stand, the search goes on behind the next character. -/
theorem seek_cons {name : Text} {c : Char} {t : Text} (h : ¬ name <+: c :: t) (free : Bool) :
    seek name free (c :: t) = seek name (isMarkupBlank c) t := by
  have hb : breakOn? name (c :: t) =
      (breakOn? name t).map fun sides => (c :: sides.1, sides.2) := by
    rw [breakOn?, breakAt?, if_neg (by rwa [List.isPrefixOf_iff_prefix])]
  rw [seek, seek, hb]
  cases breakOn? name t with
  | none => rfl
  | some sides =>
    obtain ⟨before, found⟩ := sides
    have hends : endsInBlank (c :: before) =
        if before.isEmpty then isMarkupBlank c else endsInBlank before := by
      cases before <;> simp [endsInBlank]
    simp only [Option.map_some, List.isEmpty_cons, Bool.false_eq_true, if_false, hends]

/-- The name of an attribute that is looked for: letters. -/
structure IsWord (name : Text) : Prop where
  ne_nil : name ≠ []
  letters : ∀ c ∈ name, c.isAlpha = true

section Seek

variable {name : Text} (hname : IsWord name)

include hname

theorem attribute?_eq_seek (t : Text) : attribute? name t = seek name true t := by
  rw [attribute?.eq_def name t, seek]
  cases hb : breakOn? name t with
  | none => rfl
  | some sides =>
    obtain ⟨before, found⟩ := sides
    have hshort : (found.drop name.length).length < t.length := by
      have hfound := List.isPrefixOf_iff_prefix.1 (holds_of_breakAt? hb)
      have hpos := List.length_pos_iff.2 hname.ne_nil
      have hlen := congrArg List.length (append_of_breakAt? hb)
      have := hfound.length_le
      simp only [List.length_append, List.length_drop] at hlen ⊢
      omega
    have hfree : (if before.isEmpty then true else endsInBlank before) = endsInBlank before := by
      cases before <;> rfl
    dsimp only
    rw [hfree, dif_pos hshort]
    cases if endsInBlank before = true then valueBehind? (found.drop name.length) else none <;> rfl

theorem seek_nil (free : Bool) : seek name free [] = none := by
  have hb : breakOn? name [] = none := by
    simp [breakOn?, breakAt?, hname.ne_nil]
  rw [seek, hb]

/-- Where the name stands, its value is taken, or the search goes on behind it. -/
theorem seek_name (free : Bool) (t : Text) :
    seek name free (name ++ t) =
      (if free then valueBehind? t else none).or (attribute? name t) := by
  have hb : breakOn? name (name ++ t) = some ([], name ++ t) := by
    obtain ⟨c, u, hcu⟩ := List.exists_cons_of_ne_nil hname.ne_nil
    have hpre : name.isPrefixOf (name ++ t) = true :=
      List.isPrefixOf_iff_prefix.2 (List.prefix_append _ _)
    rw [hcu, List.cons_append] at hpre ⊢
    rw [breakOn?, breakAt?, if_pos hpre]
  rw [seek, hb]
  simp

theorem seek_of_not_letter {c : Char} (hc : c.isAlpha = false) (free : Bool) (t : Text) :
    seek name free (c :: t) = seek name (isMarkupBlank c) t := by
  refine seek_cons ?_ free
  rintro ⟨u, hu⟩
  obtain ⟨d, v, hdv⟩ := List.exists_cons_of_ne_nil hname.ne_nil
  rw [hdv] at hu
  obtain rfl : d = c := (List.cons.inj hu).1
  have hletter := hname.letters d (by rw [hdv]; exact List.mem_cons_self)
  rw [hc] at hletter
  cases hletter

/-- Behind blanks a name may begin. -/
theorem seek_blanks {blanks : Text} (hb : ∀ c ∈ blanks, isMarkupBlank c = true) (free : Bool)
    (t : Text) : seek name free (blanks ++ t) = seek name (free || !blanks.isEmpty) t := by
  induction blanks generalizing free with
  | nil => simp
  | cons c blanks ih =>
    obtain ⟨hc, hblanks⟩ := List.forall_mem_cons.1 hb
    have hletter : c.isAlpha = false := by
      rw [Bool.eq_false_iff]
      intro halpha
      have hpart := isTagPart_of_isAlpha halpha
      simp [isTagPart, hc] at hpart
    rw [List.cons_append, seek_of_not_letter hname hletter, ih hblanks, hc]
    simp

end Seek

/-! ## Texts in which nothing is found -/

/-- The search would find something in the text: the name stands where one may begin, which is at
the start, behind a blank, and behind the name itself, and behind it stands nothing but blanks up to
an equals sign, a slash or the end. -/
def Mentions (name t : Text) : Prop :=
  ∃ u v, t = u ++ (name ++ v) ∧ ((∀ c ∈ u.getLast?, isMarkupBlank c = true) ∨ name <:+ u) ∧
    ∀ c ∈ (v.dropWhile isBlank).head?, c = '=' ∨ c = '/'

theorem endsInBlank_iff {u : Text} :
    endsInBlank u = true ↔ ∀ c ∈ u.getLast?, isMarkupBlank c = true := by
  unfold endsInBlank
  cases u.getLast? <;> simp

/-- What can follow the name of an attribute is told by the first character that is no blank. -/
theorem isSome_valueBehind?_iff {v : Text} :
    (valueBehind? v).isSome = true ↔ ∀ c ∈ (v.dropWhile isBlank).head?, c = '=' ∨ c = '/' := by
  unfold valueBehind? trimLeft
  split
  · rename_i h
    simp [h]
  · rename_i h
    simp [h]
  · rename_i h
    simp [h]
  · rename_i hnil hslash hequals
    cases hv : v.dropWhile isBlank with
    | nil => exact absurd hv hnil
    | cons c w =>
      have hnot : c ≠ '/' ∧ c ≠ '=' :=
        ⟨by rintro rfl; exact hslash w hv, by rintro rfl; exact hequals w hv⟩
      simp [hnot]

/-- It is enough to try every place of the text. -/
theorem mentions_iff {name t : Text} :
    Mentions name t ↔ ∃ k, k < t.length + 1 ∧ name <+: t.drop k ∧
      (endsInBlank (t.take k) = true ∨ name <:+ t.take k) ∧
      (valueBehind? ((t.drop k).drop name.length)).isSome = true := by
  simp only [endsInBlank_iff, isSome_valueBehind?_iff]
  constructor
  · rintro ⟨u, v, rfl, hu, hv⟩
    refine ⟨u.length, by rw [List.length_append]; omega, ?_⟩
    rw [List.drop_left, List.take_left, List.drop_left]
    exact ⟨List.prefix_append _ _, hu, hv⟩
  · rintro ⟨k, -, ⟨v, hv⟩, hu, hvalue⟩
    rw [← hv, List.drop_left] at hvalue
    exact ⟨t.take k, v, by rw [hv, List.take_append_drop], hu, hvalue⟩

instance (name t : Text) : Decidable (Mentions name t) := decidable_of_iff _ mentions_iff.symm

theorem trimLeft_of_head {t : Text} (h : ∀ c ∈ t.head?, isBlank c = false) : trimLeft t = t := by
  cases t with
  | nil => rfl
  | cons c t => simp [trimLeft, h c rfl]

theorem trimLeft_blanks {blanks : Text} (hb : ∀ c ∈ blanks, isMarkupBlank c = true) (t : Text) :
    trimLeft (blanks ++ t) = trimLeft t :=
  List.dropWhile_append_of_pos fun c hc => isBlank_of_isMarkupBlank (hb c hc)

theorem valueBehind?_blanks {blanks : Text} (hb : ∀ c ∈ blanks, isMarkupBlank c = true)
    (t : Text) : valueBehind? (blanks ++ t) = valueBehind? t := by
  rw [valueBehind?, valueBehind?, trimLeft_blanks hb]

theorem valueBehind?_append {v : Text} (h : valueBehind? v = none) (t : Text) :
    valueBehind? (v ++ t) = none := by
  rw [← Option.not_isSome_iff_eq_none, isSome_valueBehind?_iff] at h ⊢
  cases hv : v.dropWhile isBlank with
  | nil => simp [hv] at h
  | cons c w =>
    have happend : (v ++ t).dropWhile isBlank = c :: (w ++ t) := by
      rw [List.dropWhile_append, hv]
      rfl
    rw [hv] at h
    rw [happend]
    exact h

theorem endsInBlank_append {s u : Text} (hu : u ≠ []) : endsInBlank (s ++ u) = endsInBlank u := by
  rw [endsInBlank, endsInBlank, List.getLast?_append_of_ne_nil _ hu]

/-- **A text in which nothing is found is passed over**, if no name goes on into the text behind. -/
theorem seek_silent {name s t : Text} {free : Bool} (hname : IsWord name)
    (hseam : ∀ y, y <:+ s → y ≠ [] → name <+: y ++ t → name <+: y)
    (h : ∀ u v, s = u ++ (name ++ v) →
      (if u.isEmpty then free else endsInBlank u) = true ∨ name <:+ u → valueBehind? v = none) :
    ∃ free', seek name free (s ++ t) = seek name free' t := by
  -- by the length of the text: the search goes on behind a character, or behind the name
  induction hn : s.length using Nat.strongRecOn generalizing s free with
  | ind n ih =>
    subst hn
    cases s with
    | nil => exact ⟨free, rfl⟩
    | cons c s =>
      by_cases hpre : name <+: c :: s
      · obtain ⟨v, hv⟩ := hpre
        have hlen : v.length < (c :: s).length := by
          have hpos := List.length_pos_iff.2 hname.ne_nil
          rw [← hv, List.length_append]
          omega
        rw [← hv] at hseam h ⊢
        have hnone : (if free then valueBehind? (v ++ t) else none) = none := by
          cases free with
          | false => rfl
          | true => exact valueBehind?_append (h [] v rfl (.inl rfl)) t
        rw [List.append_assoc, seek_name hname, hnone, Option.none_or, attribute?_eq_seek hname]
        refine ih v.length hlen ?_ ?_ rfl
        · exact fun y hy => hseam y (hy.trans (List.suffix_append _ _))
        · rintro u w rfl hu
          refine h (name ++ u) w (by rw [List.append_assoc]) ?_
          cases u with
          | nil => exact .inr (by rw [List.append_nil])
          | cons d u =>
            rcases hu with hu | hu
            · refine .inl ?_
              rw [if_neg (by simp), endsInBlank_append (by simp)]
              exact hu
            · exact .inr (hu.trans (List.suffix_append _ _))
      · have hstep : ¬ name <+: c :: (s ++ t) := fun hin =>
          hpre (hseam (c :: s) List.suffix_rfl (by simp) hin)
        rw [List.cons_append, seek_cons hstep]
        refine ih s.length (by simp) ?_ ?_ rfl
        · exact fun y hy => hseam y (hy.trans (List.suffix_cons c s))
        · rintro u w rfl hu
          refine h (c :: u) w rfl ?_
          cases u with
          | nil => exact hu.imp id fun hin => absurd (List.suffix_nil.1 hin) hname.ne_nil
          | cons d u =>
            rcases hu with hu | hu
            · exact .inl ((endsInBlank_append (s := [c]) (by simp)).trans hu)
            · exact .inr (hu.trans (List.suffix_cons c _))

end Block

/-! ## Attributes that can be told apart -/

namespace Markup

open Block (Mentions IsWord seek valueBehind? valueText)

/-- The search comes to the same content as the reader of attributes. -/
def ValueForm.IsPlain : ValueForm → Prop
  | quoted .. => True
  | unquoted content => '/' ∉ content ∧ ∀ c ∈ content.head?, isBlank c = false

/-- The search comes to the content of the attribute's value, if it has one. -/
def AttributeForm.IsPlain (f : AttributeForm) : Prop := ∀ p ∈ f.value, p.form.IsPlain

/-- The search takes what stands behind the name of the attribute for the end of a name: a value, or
else a slash or the end of the tag. -/
def AttributeForm.IsFound (others : TagItems) (f : AttributeForm) : Prop :=
  f.value = none → ∀ next ∈ others.head?, next.2 = .slash

/-- The search for an attribute can tell it from all else in the tag: the first one of its name
stands behind a blank and is found there, and no attribute in front of it mentions the name.
`holds` is what else is asked of that first one. -/
def TagItems.Legible (holds : AttributeForm → Prop) (name : Text) : TagItems → Prop
  | [] => True
  | (_, .slash) :: items => Legible holds name items
  | (blanks, .attr form) :: items =>
    if form.name = name then blanks ≠ [] ∧ form.IsFound items ∧ holds form
    else ¬ Mentions name form.text ∧ Legible holds name items

/-- What follows in a tag does not begin with the end of it, as long as there is something. -/
theorem TagItems.Fits.head_ne {items : TagItems} {blanks rest : Text}
    (h : items.Fits rest) (hb : ∀ c ∈ blanks, isMarkupBlank c = true) :
    (items.text ++ blanks).head? ≠ some '>' := by
  have hblank : ∀ {bl : Text} {t : Text}, (∀ c ∈ bl, isMarkupBlank c = true) →
      t.head? ≠ some '>' → (bl ++ t).head? ≠ some '>' := by
    intro bl t hbl ht
    cases bl with
    | nil => exact ht
    | cons c bl =>
      rintro ⟨⟩
      exact absurd (hbl '>' List.mem_cons_self) (by decide)
  cases items with
  | nil => simpa [TagItems.text] using hblank (t := []) hb (by simp)
  | cons first items =>
    obtain ⟨bl, item⟩ := first
    obtain ⟨hbl, hitem, -⟩ := h
    rw [TagItems.text, List.append_assoc]
    refine hblank hbl ?_
    cases item with
    | slash => simp [TagItem.text]
    | attr form =>
      obtain ⟨c, u, hcu, -, -, hc⟩ := AttributeForm.Fits.starts_text hitem
      simpa [TagItem.text, hcu] using hc

theorem valueText_quoted {q : Char} {content : Text} (hq : q = '"' ∨ q = '\'') (hn : q ∉ content)
    (t : Text) : valueText (trimLeft (q :: (content ++ q :: t))) = content := by
  have hrun : (content ++ q :: t).takeWhile (· != q) = content := by
    refine takeWhile_run (fun c hc => ?_) (stops_cons.2 (by simp))
    simpa using fun heq : c = q => hn (heq ▸ hc)
  rcases hq with rfl | rfl
  · exact hrun
  · exact hrun

theorem valueText_unquoted {content t : Text} (h : ∀ c ∈ content, isUnquotedPart c = true)
    (hplain : (ValueForm.unquoted content).IsPlain) (hd : content.head? ≠ some '"')
    (hs : content.head? ≠ some '\'') (ht : ∀ c, t.head? = some c → isMarkupBlank c = true)
    (hne : content ≠ []) : valueText (trimLeft (content ++ t)) = content := by
  obtain ⟨hslash, hhead⟩ := hplain
  obtain ⟨c, u, rfl⟩ := List.exists_cons_of_ne_nil hne
  have htrim : trimLeft (c :: u ++ t) = c :: u ++ t := Block.trimLeft_of_head (by simpa using hhead)
  rw [htrim, List.cons_append, valueText, ← List.cons_append]
  · refine takeWhile_run (fun d hd => ?_) (fun d hd => by simp [ht d hd])
    have hpart := h d hd
    have hne : d ≠ '/' := fun heq => hslash (heq ▸ hd)
    simp only [isUnquotedPart, Bool.and_eq_true] at hpart
    simp [hpart.1, hne]
  · rintro _ ⟨⟩
    exact hd rfl
  · rintro _ ⟨⟩
    exact hs rfl

/-- The search takes the content of a plain value, wherever the tag ends behind it. -/
theorem valueText_form {v : ValueForm} {t rest : Text} (h : v.Fits (t ++ '>' :: rest))
    (hplain : v.IsPlain) (hblank : Stops isMarkupBlank (v.text ++ (t ++ '>' :: rest)))
    (ht : t.head? ≠ some '>') : valueText (trimLeft (v.text ++ t)) = v.content := by
  cases v with
  | quoted q content closed =>
    obtain ⟨hq, hn, hclosed⟩ := h
    cases closed with
    | false => simp at hclosed
    | true =>
      rw [ValueForm.text_quoted, List.cons_append, List.append_assoc]
      exact valueText_quoted hq hn t
  | unquoted content =>
    obtain ⟨hall, hstop, hd, hs⟩ := h
    rw [ValueForm.text_unquoted] at hblank ⊢
    have hnext : ∀ c, t.head? = some c → isMarkupBlank c = true := by
      intro c hc
      have hpart := hstop c (by rw [List.head?_append, hc]; rfl)
      have hne : c ≠ '>' := fun heq => ht (heq ▸ hc)
      simpa [isUnquotedPart, hne] using hpart
    by_cases hne : content = []
    · -- a blank would stand in front of the value, not behind it
      subst hne
      cases t with
      | nil => rfl
      | cons c t =>
        have hnone := hblank c rfl
        rw [hnext c rfl] at hnone
        cases hnone
    · exact valueText_unquoted hall hplain hd hs hnext hne

/-- **A value is found** behind the name of the attribute, and it is that of the attribute if that
is plain. -/
theorem valueBehind?_form {f : AttributeForm} {items : TagItems} {blanks rest : Text}
    (hb : ∀ c ∈ blanks, isMarkupBlank c = true)
    (hf : f.Fits (items.text ++ (blanks ++ '>' :: rest)))
    (hitems : items.Fits (blanks ++ '>' :: rest)) (h : f.IsFound items) (start : Nat) :
    ∃ content, valueBehind? ((f.value.map fun p => p.separator ++ p.form.text).getD [] ++
        (items.text ++ blanks)) = some content ∧
      (f.IsPlain → content = (f.toAttribute start).valueContent) := by
  cases hvalue : f.value with
  | none =>
    refine ⟨[], ?_, fun _ => (valueContent_toAttribute_none hvalue start).symm⟩
    show valueBehind? (items.text ++ blanks) = some []
    cases items with
    | nil =>
      have hend := Block.valueBehind?_blanks hb []
      rw [List.append_nil] at hend
      exact hend
    | cons first items =>
      obtain ⟨bl, item⟩ := first
      obtain rfl : item = .slash := h hvalue _ rfl
      rw [TagItems.text, List.append_assoc, Block.valueBehind?_blanks hitems.1]
      rfl
  | some p =>
    obtain ⟨hform, hbefore, hbehind, hblank⟩ := hf.valued p hvalue
    refine ⟨valueText (trimLeft (p.form.text ++ (items.text ++ blanks))), ?_, fun hplain => ?_⟩
    · rw [Option.map_some, Option.getD_some, ValuePart.separator, List.append_assoc,
        List.append_assoc, Block.valueBehind?_blanks hbefore, ← Block.trimLeft_blanks hbehind,
        List.cons_append]
      rfl
    · rw [← List.append_assoc items.text] at hform hblank
      rw [valueContent_toAttribute hvalue,
        valueText_form hform (hplain p hvalue) hblank (hitems.head_ne hb)]

/-- A word stands in front of a seam as a whole, or not at all, unless there are letters on both
sides of it. -/
theorem prefix_of_letters {name y t : Text} (hname : IsWord name) (hy : y ≠ [])
    (hseam : ∀ c d, y.getLast? = some c → t.head? = some d → c.isAlpha = false ∨ d.isAlpha = false)
    (h : name <+: y ++ t) : name <+: y := by
  obtain ⟨w, hw⟩ := h
  rcases List.append_eq_append_iff.1 hw with ⟨x, rfl, -⟩ | ⟨x, rfl, rfl⟩
  · exact List.prefix_append _ _
  · cases x with
    | nil => simp
    | cons d x =>
      obtain ⟨init, c, rfl⟩ := (List.eq_nil_or_concat y).resolve_left hy
      have hc := hname.letters c (by simp)
      have hd := hname.letters d (by simp)
      rcases hseam c d (by simp) rfl with hnot | hnot
      · rw [hc] at hnot
        cases hnot
      · rw [hd] at hnot
        cases hnot

theorem isAttributePart_of_isAlpha {c : Char} (h : c.isAlpha = true) :
    isAttributePart c = true := by
  have hpart := isTagPart_of_isAlpha h
  have hne : c ≠ '=' := by
    rintro rfl
    exact absurd h (by decide)
  simp only [isTagPart, isAttributePart, Bool.and_eq_true] at hpart ⊢
  exact ⟨hpart, by simpa using hne⟩

theorem isUnquotedPart_of_isAlpha {c : Char} (h : c.isAlpha = true) :
    isUnquotedPart c = true := by
  have hpart := isTagPart_of_isAlpha h
  simp only [isTagPart, isUnquotedPart, Bool.and_eq_true] at hpart ⊢
  exact ⟨hpart.1.1, hpart.2⟩

/-- An attribute ends with a quote, or in front of something that is no letter. -/
theorem AttributeForm.Fits.letters {f : AttributeForm} {t rest : Text}
    (h : f.Fits (t ++ '>' :: rest)) {c d : Char} (hc : f.text.getLast? = some c)
    (hd : t.head? = some d) : c.isAlpha = false ∨ d.isAlpha = false := by
  have hhead : (t ++ '>' :: rest).head? = some d := by
    rw [List.head?_append, hd]
    rfl
  have hnot : ∀ {p : Char → Bool}, (d.isAlpha = true → p d = true) →
      Stops p (t ++ '>' :: rest) → d.isAlpha = false := by
    intro p hp hstop
    rw [Bool.eq_false_iff]
    intro halpha
    have hpart := hstop d hhead
    rw [hp halpha] at hpart
    cases hpart
  cases hvalue : f.value with
  | none => exact .inr (hnot isAttributePart_of_isAlpha (h.alone hvalue).1)
  | some p =>
    have hform := (h.valued p hvalue).1
    cases hv : p.form with
    | quoted q content closed =>
      rw [hv] at hform
      obtain ⟨hq, -, hclosed⟩ := hform
      cases closed with
      | false => simp at hclosed
      | true =>
        have htext : f.text = (f.name ++ (p.separator ++ q :: content)) ++ [q] := by
          simp [AttributeForm.text, hvalue, hv, ValueForm.text, ValueForm.opening,
            ValueForm.content, ValueForm.closing]
        rw [htext, List.getLast?_concat] at hc
        obtain rfl : q = c := Option.some.inj hc
        rcases hq with rfl | rfl
        · exact .inl (by decide)
        · exact .inl (by decide)
    | unquoted content =>
      rw [hv] at hform
      exact .inr (hnot isUnquotedPart_of_isAlpha hform.2.1)

/-- **What is found in a legible tag** is the first attribute of the name, with its value if that is
plain. -/
theorem seek_items {name : Text} (hname : IsWord name) {holds : AttributeForm → Prop}
    {items : TagItems} {blanks rest : Text} (hb : ∀ c ∈ blanks, isMarkupBlank c = true)
    (hf : items.Fits (blanks ++ '>' :: rest)) (h : items.Legible holds name) (free : Bool)
    (start : Nat) :
    let first := (items.attributes start).find? (·.rawName == name)
    (seek name free (items.text ++ blanks)).isSome = first.isSome ∧
      ((∀ f, holds f → f.IsPlain) →
        seek name free (items.text ++ blanks) = first.map Attribute.valueContent) := by
  induction items generalizing free start with
  | nil =>
    have hend := Block.seek_blanks hname hb free []
    rw [List.append_nil, Block.seek_nil hname] at hend
    rw [TagItems.text, List.nil_append, hend]
    exact ⟨rfl, fun _ => rfl⟩
  | cons first items ih =>
    obtain ⟨bl, item⟩ := first
    obtain ⟨hbl, hitem, hitems⟩ := hf
    rw [TagItems.text, List.append_assoc, Block.seek_blanks hname hbl]
    cases item with
    | slash =>
      rw [TagItem.text, List.cons_append, List.cons_append,
        Block.seek_of_not_letter hname (by decide)]
      exact ih hitems h _ _
    | attr form =>
      have hattributes : TagItems.attributes start ((bl, .attr form) :: items) =
          form.toAttribute (start + width bl) ::
            TagItems.attributes (start + width bl + width form.text) items := rfl
      have hraw : (form.toAttribute (start + width bl)).rawName = form.name :=
        rawName_toAttribute form _
      rw [hattributes]
      by_cases hsame : form.name = name
      · rw [TagItems.Legible, if_pos hsame] at h
        obtain ⟨hne, hbehind, hholds⟩ := h
        obtain ⟨content, hfound, hcontent⟩ :=
          valueBehind?_form hb hitem hitems hbehind (start + width bl)
        rw [List.find?_cons_of_pos (by simp [hraw, hsame]), TagItem.text, AttributeForm.text,
          hsame, List.append_assoc, List.append_assoc, Block.seek_name hname,
          if_pos (by simp [hne]), hfound, Option.some_or]
        exact ⟨rfl, fun hplain => congrArg some (hcontent (hplain form hholds))⟩
      · rw [TagItems.Legible, if_neg hsame] at h
        obtain ⟨hsilent, hothers⟩ := h
        rw [List.find?_cons_of_neg (by simpa [hraw] using hsame), List.append_assoc]
        have hseam : ∀ y, y <:+ form.text → y ≠ [] →
            name <+: y ++ (TagItems.text items ++ blanks) → name <+: y := by
          intro y hy hne
          refine prefix_of_letters hname hne fun c d hc hd => ?_
          have hlast : form.text.getLast? = some c := by
            obtain ⟨x, hx⟩ := hy
            rw [← hx, List.getLast?_append_of_ne_nil _ hne, hc]
          have hfits : form.Fits ((TagItems.text items ++ blanks) ++ '>' :: rest) := by
            rw [List.append_assoc]
            exact hitem
          exact hfits.letters hlast hd
        obtain ⟨free', hpass⟩ := Block.seek_silent hname hseam fun u v hu hfree => by
          rw [← Option.not_isSome_iff_eq_none, Block.isSome_valueBehind?_iff]
          intro hvalue
          refine hsilent ⟨u, v, hu, hfree.imp (fun hend => Block.endsInBlank_iff.1 ?_) id, hvalue⟩
          cases u with
          | nil => rfl
          | cons c u => exact hend
        rw [TagItem.text, hpass]
        exact ih hitems hothers free' _

/-- The tree of a template that is one start tag and no more. -/
theorem roots_startTag {f : TagForm} (hf : f.Fits []) (hcomplete : f.ending = .complete)
    (hstops : Stops isTagPart f.text) :
    ∃ span, (parseTemplate ('<' :: 'x' :: f.text)).roots =
      [⟨['x'], span, f.items.attributes 2, [], false⟩] := by
  have hform : startTag ⟨0, '<' :: (['x'] ++ (f.text ++ []))⟩ =
      (f.body (0 + 1 + width ['x']) []).events ['x'] 0 :=
    startTag_form (List.forall_mem_singleton.2 rfl) (by simpa using hstops) hf 0
  have hpiece : piece ⟨0, '<' :: 'x' :: f.text⟩ = (f.body 2 []).events ['x'] 0 := by
    rw [piece_eq, markOf_start (by decide)]
    rw [List.append_nil] at hform
    exact hform
  have hevents : events ⟨0, '<' :: 'x' :: f.text⟩ =
      (f.items.issues 2).map Event.issue ++ [.opening ['x'] 0 (f.items.attributes 2)] := by
    have hend : ∀ offset, events ⟨offset, []⟩ = [] := by
      intro offset
      rw [events, dif_pos rfl]
    have hname : isVoid ['x'] = false ∧ isRawText ['x'] = false := by decide
    rw [events_of_ne_nil (by simp), hpiece]
    simp [TagBody.events, TagForm.body, hcomplete, hname, hend]
  refine ⟨⟨0, width ('<' :: 'x' :: f.text)⟩, ?_⟩
  unfold parseTemplate
  rw [hevents, List.foldl_append, Builder.foldl_issues]
  rfl

end Markup

namespace Block

/-- The two attributes of the block that count are those that an element with its start tag has. -/
structure TemplateBlock.Agrees (block : TemplateBlock) (e : Element) : Prop where
  src : (attribute? "src".toList block.attributes).isSome = true ↔
    ∃ a ∈ e.attributes, a.rawName = "src".toList
  lang : attribute? "lang".toList block.attributes =
    (e.attributes.find? (·.rawName == "lang".toList)).map Attribute.valueContent

theorem attribute?_legible {name attributes : Text} {holds : AttributeForm → Prop} {f : TagForm}
    (hname : IsWord name) (hf : f.Fits []) (hcomplete : f.ending = .complete)
    (htext : f.text = attributes ++ ['>']) (h : f.items.Legible holds name) (start : Nat) :
    let first := (f.items.attributes start).find? (·.rawName == name)
    (attribute? name attributes).isSome = first.isSome ∧
      ((∀ f, holds f → f.IsPlain) →
        attribute? name attributes = first.map Attribute.valueContent) := by
  have hclose : f.close = f.blanks ++ ['>'] := by
    rw [TagForm.close, hcomplete]
    rfl
  have hattributes : attributes = f.items.text ++ f.blanks := by
    rw [TagForm.text, hclose, ← List.append_assoc] at htext
    exact (List.append_cancel_right htext).symm
  have hitems : f.items.Fits (f.blanks ++ '>' :: []) := by
    have hfits := hf.items
    rwa [hclose, List.append_nil] at hfits
  rw [attribute?_eq_seek hname, hattributes]
  exact seek_items hname hf.blanks hitems h true start

/-- A document that begins with the start tag of a template has that template. -/
theorem exists_templateBlock {attributes : Text} (ha : IsAttributes attributes)
    (hslash : attributes.getLast? ≠ some '/') (rest : Text) :
    ∃ block, findTemplate? ⟨0, openTag templateName attributes ++ rest⟩ = some block ∧
      block.attributes = attributes := by
  have hclosing : (attributes.getLast? == some '/') = false := beq_eq_false_iff_ne.2 hslash
  rw [findTemplate?_openTag isBlockName_templateName ha]
  simp only [eqFolded_self, hclosing, if_true, Bool.false_eq_true, if_false]
  exact ⟨_, rfl, attributes_templateBlock _ _⟩

theorem isSome_template {document : Text} {block : TemplateBlock}
    (h : findTemplate? ⟨0, document⟩ = some block) :
    (parseComponent document).template.isSome = Component.isRead block.attributes := by
  unfold parseComponent
  rw [h]
  cases hread : Component.isRead block.attributes <;>
    simp [hread, Component.empty, Component.ofBlock]

theorem lang_template {document : Text} {block : TemplateBlock} {t : EmbeddedTemplate}
    (h : findTemplate? ⟨0, document⟩ = some block) (ht : t ∈ (parseComponent document).template) :
    t.lang = attribute? "lang".toList block.attributes := by
  obtain ⟨block', hfind, -, htemplate⟩ := template_parseComponent_iff.1 ht
  rw [h] at hfind
  cases hfind
  cases htemplate
  rfl

end Block

open Block in
/-- **The template block is read as its attributes say**, if the two that count can be told from all
else in its start tag. It has a template when it has no `src`, and no `lang` but HTML. -/
theorem parseComponent_legible {attributes : Text} {f : TagForm} (ha : IsAttributes attributes)
    (hslash : attributes.getLast? ≠ some '/') (hf : f.Fits []) (hcomplete : f.ending = .complete)
    (htext : f.text = attributes ++ ['>'])
    (hlang : f.items.Legible AttributeForm.IsPlain "lang".toList)
    (hsrc : f.items.Legible (fun _ => True) "src".toList) (body : Text) :
    let document := openTag templateName attributes ++ (body ++ closeTag templateName)
    ∃ block e, findTemplate? ⟨0, document⟩ = some block ∧
      (parseTemplate (openTag "x".toList attributes)).roots = [e] ∧ block.Agrees e ∧
      ((parseComponent document).template.isSome = true ↔
        (∀ a ∈ e.attributes, a.rawName ≠ "src".toList) ∧
          ∀ a ∈ e.attributes.find? (·.rawName == "lang".toList),
            eqFolded a.valueContent "html".toList = true) ∧
      ∀ t ∈ (parseComponent document).template, t.lang =
        (e.attributes.find? (·.rawName == "lang".toList)).map Attribute.valueContent := by
  intro document
  obtain ⟨block, hfind, hattributes⟩ :=
    exists_templateBlock ha hslash (body ++ closeTag templateName)
  have hstops : Stops isTagPart f.text := by
    rw [htext]
    exact stops_of_atNameEnd (atNameEnd_attributes ha [])
  obtain ⟨span, hroots⟩ := roots_startTag hf hcomplete hstops
  rw [htext] at hroots
  have hlangs := (attribute?_legible ⟨by decide, List.all_eq_true.1 rfl⟩ hf hcomplete htext hlang
    2).2 fun _ hplain => hplain
  have hsrcs := (attribute?_legible ⟨by decide, List.all_eq_true.1 rfl⟩ hf hcomplete htext hsrc
    2).1
  refine ⟨block, _, hfind, hroots, ⟨?_, ?_⟩, ?_, ?_⟩
  · rw [hattributes, hsrcs]
    simp
  · rw [hattributes, hlangs]
  · rw [isSome_template hfind, Component.isRead, hattributes, ← Option.not_isSome, hsrcs, hlangs,
      Bool.and_eq_true]
    refine and_congr (by simp) ?_
    cases (f.items.attributes 2).find? (·.rawName == "lang".toList) <;> simp
  · intro t ht
    rw [lang_template hfind ht, hattributes, hlangs]

open Block in
/-- A value in quotes that begins with `lang`, a name that begins with `src`, and an attribute
`lang` with blanks around its equals sign. -/
theorem parseComponent_legible_html :
    ∃ block e,
      findTemplate? ⟨0, "<template t=\"lang>\" srcset lang = 'HTML'></template>".toList⟩ =
        some block ∧
      (parseTemplate "<x t=\"lang>\" srcset lang = 'HTML'>".toList).roots = [e] ∧ block.Agrees e ∧
      (∀ a ∈ e.attributes, a.rawName ≠ "src".toList) ∧
      ∀ a ∈ e.attributes.find? (·.rawName == "lang".toList),
        eqFolded a.valueContent "html".toList = true := by
  let title : AttributeForm := ⟨"t".toList, some ⟨[], [], .quoted '"' "lang>".toList true⟩⟩
  let sources : AttributeForm := ⟨"srcset".toList, none⟩
  let lang : AttributeForm := ⟨"lang".toList, some ⟨[' '], [' '], .quoted '\'' "HTML".toList true⟩⟩
  let f : TagForm :=
    ⟨[([' '], .attr title), ([' '], .attr sources), ([' '], .attr lang)], [], .complete⟩
  have hnone : ∀ c ∈ ([] : Text), isMarkupBlank c = true := List.forall_mem_nil _
  have hblank : ∀ c ∈ [' '], isMarkupBlank c = true := List.forall_mem_singleton.2 rfl
  have htitle : title.Fits " srcset lang = 'HTML'>".toList :=
    ⟨⟨'t', _, rfl, by decide⟩, List.all_eq_true.1 rfl, by rintro ⟨⟩, by
      rintro _ ⟨⟩
      exact ⟨⟨by decide, by decide, by rintro ⟨⟩⟩, hnone, hnone, stops_cons.2 (by decide)⟩⟩
  have hsources : sources.Fits " lang = 'HTML'>".toList :=
    ⟨⟨'s', _, rfl, by decide⟩, List.all_eq_true.1 rfl,
      fun _ => ⟨stops_cons.2 (by decide), by decide⟩, by rintro _ ⟨⟩⟩
  have hlast : lang.Fits ['>'] :=
    ⟨⟨'l', _, rfl, by decide⟩, List.all_eq_true.1 rfl, by rintro ⟨⟩, by
      rintro _ ⟨⟩
      exact ⟨⟨by decide, by decide, by rintro ⟨⟩⟩, hblank, hblank, stops_cons.2 (by decide)⟩⟩
  have hf : f.Fits [] :=
    ⟨⟨hblank, htitle, hblank, hsources, hblank, hlast, trivial⟩, hnone, by rintro ⟨⟩⟩
  have hlang : f.items.Legible AttributeForm.IsPlain "lang".toList := by
    refine ⟨by decide +kernel, by decide +kernel, by decide, by rintro ⟨⟩, ?_⟩
    rintro _ ⟨⟩
    trivial
  have hsrc : f.items.Legible (fun _ => True) "src".toList :=
    ⟨by decide +kernel, by decide +kernel, by decide +kernel, trivial⟩
  have ha : IsAttributes " t=\"lang>\" srcset lang = 'HTML'".toList := by
    have htext : IsTagText (" t=".toList ++ '"' :: ("lang>".toList ++ '"' ::
        (" srcset lang = ".toList ++ '\'' :: ("HTML".toList ++ ['\''])))) :=
      (IsTagText.of_plain rfl).append <| .quoted (.inl rfl) (by decide) <|
        (IsTagText.of_plain rfl).append <| .quoted (.inr rfl) (by decide) .nil
    exact ⟨rfl, htext⟩
  have hread : (parseComponent
      "<template t=\"lang>\" srcset lang = 'HTML'></template>".toList).template.isSome = true := by
    decide +kernel
  obtain ⟨block, e, hfind, hroots, hagrees, hiff, -⟩ :=
    parseComponent_legible ha (by decide) hf rfl rfl hlang hsrc []
  exact ⟨block, e, hfind, hroots, hagrees, hiff.1 hread⟩

/-- It is enough for a source elsewhere that there is a `src`, whatever its value. -/
example :
    (parseComponent "<template src=./a.html lang=html></template>".toList).template.isNone = true ∧
      (parseComponent "<template srcset=./a lang=html></template>".toList).template.isSome =
        true := by
  decide +kernel

open Block in
/-- The tag has both attributes, but `src` stands alone in front of `lang`, and the search does not
find it. -/
theorem parseComponent_bare_source :
    IsAttributes " src lang=\"html\"".toList ∧
      " src lang=\"html\"".toList.getLast? ≠ some '/' ∧
      (parseTemplate "<x src lang=\"html\">".toList).roots.map
        (·.attributes.map Attribute.rawName) = [["src".toList, "lang".toList]] ∧
      (parseComponent "<template src lang=\"html\"></template>".toList).template.isSome = true := by
  have htext : IsTagText (" src lang=".toList ++ '"' :: ("html".toList ++ ['"'])) :=
    (IsTagText.of_plain rfl).append <| .quoted (.inl rfl) (by decide) .nil
  exact ⟨⟨rfl, htext⟩, by decide, by decide +kernel, by decide +kernel⟩

end BindingToggle
