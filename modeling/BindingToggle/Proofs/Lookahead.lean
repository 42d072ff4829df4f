import BindingToggle.Proofs.TagForm

/-!
# How far reading looks ahead

A piece of a template is read without regard to what follows it, but for a few characters. So what
stands further on can be changed, and the piece is read as before.

* `Mark` — what begins at a place, told by the next four characters.
* `piece_congr` — a piece in front of `w ++ x` is read alike in front of `w ++ x'`, when `w` has
  three characters or more, and the name of the closing tag behind raw text fits into it.
-/

namespace BindingToggle

namespace Text

/-- A property of texts that is decided by the first `n` characters. -/
def Looks (n : Nat) (p : Text → Bool) : Prop := ∀ t t' : Text, t.take n = t'.take n → p t = p t'

theorem looks_isPrefixOf (needle : Text) : Looks needle.length needle.isPrefixOf := by
  intro t t' h
  rw [Bool.eq_iff_iff, List.isPrefixOf_iff_prefix, List.isPrefixOf_iff_prefix,
    List.prefix_iff_eq_take, List.prefix_iff_eq_take, h]

theorem looks_startsWithFolded (needle : Text) : Looks needle.length (startsWithFolded needle) := by
  intro t t' h
  rw [startsWithFolded, startsWithFolded, h]

theorem breakAt?_eq_some_nil {p : Text → Bool} {t : Text} :
    breakAt? p t = some ([], t) ↔ p t = true := by
  cases t with
  | nil => simp [breakAt?]
  | cons c t =>
    simp only [breakAt?]
    split <;> simp_all

/-- Breaking a text in front of `w` does not depend on what stands behind it. -/
theorem breakAt?_congr {p : Text → Bool} {n : Nat} (hp : Looks n p) {u w x : Text}
    (hw : n ≤ w.length) (h : breakAt? p (u ++ (w ++ x)) = some (u, w ++ x)) (x' : Text) :
    breakAt? p (u ++ (w ++ x')) = some (u, w ++ x') := by
  have hsame : ∀ y : Text, p (y ++ (w ++ x')) = p (y ++ (w ++ x)) := by
    intro y
    apply hp
    have hlen : n ≤ (y ++ w).length := by
      rw [List.length_append]
      omega
    rw [← List.append_assoc, ← List.append_assoc, List.take_append_of_le_length hlen,
      List.take_append_of_le_length hlen]
  induction u with
  | nil =>
    have hw := hsame []
    simp only [List.nil_append] at h hw ⊢
    rw [breakAt?_eq_some_nil] at h ⊢
    rw [hw, h]
  | cons c u ih =>
    have hc := hsame (c :: u)
    simp only [List.cons_append, breakAt?] at h hc ⊢
    rw [hc]
    split at h
    · cases h
    · rename_i hfalse
      obtain ⟨⟨b, a⟩, hs, he⟩ := Option.map_eq_some_iff.1 h
      simp only [Prod.mk.injEq, List.cons.injEq, true_and] at he
      obtain ⟨rfl, rfl⟩ := he
      rw [if_neg hfalse, ih hs]
      rfl

/-- Where a text is broken, the property holds. -/
theorem holds_of_breakAt? {p : Text → Bool} {t before after : Text}
    (h : breakAt? p t = some (before, after)) : p after = true := by
  induction t generalizing before with
  | nil =>
    simp only [breakAt?] at h
    split at h
    · cases h; assumption
    · cases h
  | cons c t ih =>
    simp only [breakAt?] at h
    split at h
    · cases h; assumption
    · obtain ⟨⟨b, a⟩, hs, he⟩ := Option.map_eq_some_iff.1 h
      cases he
      exact ih hs

/-- A run in front of a character that ends it does not depend on what stands behind that. -/
theorem takeWhile_before {p : Char → Bool} {c : Char} (hc : p c = false) (before t t' : Text) :
    (before ++ c :: t).takeWhile p = (before ++ c :: t').takeWhile p := by
  induction before with
  | nil => simp [hc]
  | cons b before ih =>
    simp only [List.cons_append, List.takeWhile_cons]
    split
    · rw [ih]
    · rfl

end Text

namespace Cursor

open Text

theorem skipPast_inv {mark : Char} {offset offset' : Nat} {t rest : Text} (hr : rest ≠ [])
    (h : (Cursor.mk offset t).skipPast mark = ⟨offset', rest⟩) :
    ∃ before, t = before ++ mark :: rest ∧ mark ∉ before ∧
      offset' = offset + width before + mark.utf8Size := by
  rcases exists_mark mark t with hn | ⟨before, after, rfl, hn⟩
  · have hrun : ∀ c ∈ t, (c != mark) = true := by
      intro c hc
      simp only [bne_iff_ne]
      rintro rfl
      exact hn hc
    have hs : (Cursor.mk offset t).skipWhile (· != mark) = ⟨offset + width t, []⟩ := by
      simpa using skipWhile_run hrun (stops_nil _) offset
    rw [skipPast, hs] at h
    exact absurd (congrArg Cursor.rest h).symm hr
  · rw [skipPast_mark hn] at h
    cases h
    exact ⟨before, rfl, hn, rfl⟩

theorem skip_skipPast_inv {mark : Char} {n offset offset' : Nat} {t rest : Text} (hr : rest ≠ [])
    (h : ((Cursor.mk offset t).skip n).skipPast mark = ⟨offset', rest⟩) :
    ∃ front before, front.length = n ∧ t = front ++ (before ++ mark :: rest) ∧ mark ∉ before ∧
      offset' = offset + width front + width before + mark.utf8Size := by
  obtain ⟨before, ht, hn, rfl⟩ := skipPast_inv hr h
  refine ⟨t.take n, before, ?_, by rw [← ht, List.take_append_drop], hn, rfl⟩
  have hlen := congrArg List.length ht
  simp only [List.length_drop, List.length_append, List.length_cons] at hlen
  rw [List.length_take]
  omega

theorem skip_skipPast_mark {mark : Char} {front before : Text} (hb : mark ∉ before) (t : Text)
    (offset : Nat) :
    ((Cursor.mk offset (front ++ (before ++ mark :: t))).skip front.length).skipPast mark =
      ⟨offset + width front + width before + mark.utf8Size, t⟩ := by
  rw [skip_run, skipPast_mark hb]

theorem skipWhile_inv {p : Char → Bool} {offset offset' : Nat} {t rest : Text}
    (h : (Cursor.mk offset t).skipWhile p = ⟨offset', rest⟩) :
    ∃ run, t = run ++ rest ∧ (∀ c ∈ run, p c = true) ∧ Stops p rest ∧
      offset' = offset + width run := by
  obtain ⟨run, rest', rfl, hrun, hstop⟩ := exists_run p t
  rw [skipWhile_run hrun hstop] at h
  cases h
  exact ⟨run, rfl, hrun, hstop, rfl⟩

end Cursor

namespace Markup

open Text

/-! ## What begins at a place -/

/-- What can begin at a place of a template. -/
inductive Mark where
  | comment | interpolation | closing | declaration | start | text
  deriving DecidableEq, Repr

/-- What begins with a text. -/
def markOf : Text → Mark
  | '<' :: '!' :: '-' :: '-' :: _ => .comment
  | '{' :: '{' :: _ => .interpolation
  | '<' :: '/' :: _ => .closing
  | '<' :: '!' :: _ => .declaration
  | '<' :: '?' :: _ => .declaration
  | '<' :: first :: _ => if first.isAlpha then .start else .text
  | _ => .text

theorem piece_eq (c : Cursor) :
    piece c =
      match markOf c.rest with
      | .comment => passage 4 "-->".toList .unterminatedComment c
      | .interpolation => passage 2 "\x7d\x7d".toList .unterminatedInterpolation c
      | .closing => closingTag c
      | .declaration => ([], (c.skip 2).skipPast '>')
      | .start => startTag c
      | .text => ([], piece.skipText c) := by
  obtain ⟨offset, t⟩ := c
  unfold piece
  dsimp only
  split
  · rfl
  · rfl
  · rfl
  · rename_i h; rw [markOf]; exact h
  · rfl
  · rw [markOf]
    · split <;> rfl
    · assumption
    · assumption
    · assumption
    · assumption
  · rw [markOf] <;> assumption

/-- What begins at a place is told by the next four characters. -/
theorem markOf_congr (a b c d : Char) (t t' : Text) :
    markOf (a :: b :: c :: d :: t) = markOf (a :: b :: c :: d :: t') := by
  generalize hs : a :: b :: c :: d :: t = s
  fun_cases markOf s
  · cases hs; rfl
  · cases hs; rfl
  · cases hs; rfl
  · rename_i h
    cases hs
    rw [markOf]
    intro u hu
    cases hu
    exact h _ rfl
  · cases hs; rfl
  · cases hs
    rename_i hclosing hdeclaration hquestion halpha _
    rw [markOf, if_pos halpha]
    · exact fun _ hb _ => hdeclaration hb
    · exact hclosing
    · exact hdeclaration
    · exact hquestion
  · cases hs
    rename_i hclosing hdeclaration hquestion halpha _
    rw [markOf, if_neg halpha]
    · exact fun _ hb _ => hdeclaration hb
    · exact hclosing
    · exact hdeclaration
    · exact hquestion
  · subst hs
    rename_i h1 h2 h3 h4 h5 h6
    rw [markOf]
    · intro u hu; cases hu; exact h1 _ rfl
    · intro u hu; cases hu; exact h2 _ rfl
    · intro u hu; cases hu; exact h3 _ rfl
    · intro u hu; cases hu; exact h4 _ rfl
    · intro u hu; cases hu; exact h5 _ rfl
    · intro f u hu; cases hu; exact h6 _ _ rfl

theorem markOf_start {first : Char} (h : first.isAlpha = true) (t : Text) :
    markOf ('<' :: first :: t) = .start := by
  rw [markOf, if_pos h]
  · rintro _ rfl
    exact absurd h (by decide)
  · rintro rfl
    exact absurd h (by decide)
  · rintro rfl
    exact absurd h (by decide)
  · rintro rfl
    exact absurd h (by decide)

theorem cons_of_markOf_start {t : Text} (h : markOf t = .start) :
    ∃ first u, t = '<' :: first :: u ∧ first.isAlpha = true := by
  fun_cases markOf t <;> simp_all [markOf]

/-! ## Passages -/

theorem passage_inv {n offset offset' : Nat} {close t rest : Text} {problem : Problem}
    {es : List Event} (hr : rest ≠ [])
    (h : passage n close problem ⟨offset, t⟩ = (es, ⟨offset', rest⟩)) :
    ∃ mark before, mark.length = n ∧ t = mark ++ (before ++ (close ++ rest)) ∧
      breakOn? close (before ++ (close ++ rest)) = some (before, close ++ rest) ∧ es = [] ∧
      offset' = offset + width mark + width before + width close := by
  unfold passage at h
  split at h
  · rename_i found hf
    obtain ⟨⟨before, after⟩, hb, rfl⟩ := Option.map_eq_some_iff.1 hf
    have happend := append_of_breakAt? hb
    obtain ⟨u, rfl⟩ := List.isPrefixOf_iff_prefix.1 (holds_of_breakAt? hb)
    simp only [Cursor.skip, List.drop_left, List.take_left, Prod.mk.injEq, Cursor.mk.injEq] at h
    obtain ⟨rfl, rfl, rfl⟩ := h
    simp only [Cursor.skip] at happend hb
    rw [← happend] at hb
    refine ⟨t.take n, before, ?_, by rw [happend, List.take_append_drop], hb, rfl, rfl⟩
    have hlen := congrArg List.length happend
    have := List.length_pos_iff.2 hr
    simp only [List.length_append, List.length_drop] at hlen
    rw [List.length_take]
    omega
  · exact absurd (congrArg (fun r => r.2.rest) h).symm hr

theorem passage_found {n : Nat} {close mark before rest : Text} (hn : mark.length = n)
    (hb : breakOn? close (before ++ (close ++ rest)) = some (before, close ++ rest))
    (problem : Problem) (offset : Nat) :
    passage n close problem ⟨offset, mark ++ (before ++ (close ++ rest))⟩ =
      ([], ⟨offset + width mark + width before + width close, rest⟩) := by
  subst hn
  have hfind : (Cursor.mk (offset + width mark) (before ++ (close ++ rest))).find? close =
      some ⟨offset + width mark + width before, close ++ rest⟩ := by
    simp only [Cursor.find?, hb]
    rfl
  simp only [passage, Cursor.skip_run, hfind]

theorem passage_congr {n offset offset' : Nat} {close u w x : Text} {problem : Problem}
    {es : List Event} (hw : w ≠ [])
    (h : passage n close problem ⟨offset, u ++ (w ++ x)⟩ = (es, ⟨offset', w ++ x⟩)) (x' : Text) :
    passage n close problem ⟨offset, u ++ (w ++ x')⟩ = (es, ⟨offset', w ++ x'⟩) := by
  obtain ⟨mark, before, hn, ht, hb, rfl, rfl⟩ := passage_inv (by simp [hw]) h
  have hu : u = mark ++ (before ++ close) := by
    have hall : u ++ (w ++ x) = (mark ++ (before ++ close)) ++ (w ++ x) := by
      simp only [ht, List.append_assoc]
    exact List.append_cancel_right hall
  have hb' := breakAt?_congr (looks_isPrefixOf close) (Nat.le_refl _) hb (w ++ x')
  have htext : u ++ (w ++ x') = mark ++ (before ++ (close ++ (w ++ x'))) := by
    simp only [hu, List.append_assoc]
  rw [htext, passage_found hn hb']

/-- Passages up to and including the next `>`. -/
theorem skipPast_congr {n offset offset' : Nat} {u w x : Text} (hw : w ≠ [])
    (h : ((Cursor.mk offset (u ++ (w ++ x))).skip n).skipPast '>' = ⟨offset', w ++ x⟩) (x' : Text) :
    ((Cursor.mk offset (u ++ (w ++ x'))).skip n).skipPast '>' = ⟨offset', w ++ x'⟩ ∧
      ((Cursor.mk offset (u ++ (w ++ x'))).skip n).rest.takeWhile isTagPart =
        ((Cursor.mk offset (u ++ (w ++ x))).skip n).rest.takeWhile isTagPart := by
  obtain ⟨front, before, rfl, ht, hn, rfl⟩ := Cursor.skip_skipPast_inv (by simp [hw]) h
  have hu : u = front ++ (before ++ ['>']) := by
    have hall : u ++ (w ++ x) = (front ++ (before ++ ['>'])) ++ (w ++ x) := by
      simp only [ht, List.append_assoc, List.cons_append, List.nil_append]
    exact List.append_cancel_right hall
  have htext : ∀ y, u ++ (w ++ y) = front ++ (before ++ '>' :: (w ++ y)) := by
    intro y
    simp only [hu, List.append_assoc, List.cons_append, List.nil_append]
  rw [htext, htext, Cursor.skip_skipPast_mark hn, Cursor.skip_run, Cursor.skip_run]
  exact ⟨rfl, takeWhile_before (by decide) _ _ _⟩

/-! ## Start tags -/

theorem startTag_form {tag rest : Text} {f : TagForm} (ht : ∀ c ∈ tag, isTagPart c = true)
    (hs : Stops isTagPart (f.text ++ rest)) (hf : f.Fits rest) (offset : Nat) :
    startTag ⟨offset, '<' :: (tag ++ (f.text ++ rest))⟩ =
      (f.body (offset + 1 + width tag) rest).events tag offset := by
  have hbody := tagBody_form hf (offset + 1 + width tag)
  have hskip : (Cursor.mk offset ('<' :: (tag ++ (f.text ++ rest)))).skip 1 =
      ⟨offset + 1, tag ++ (f.text ++ rest)⟩ := Cursor.skip_one _ _ _
  unfold startTag
  rw [hskip, Cursor.skipWhile_run ht hs, hbody]
  simp only [takeWhile_run ht hs]

/-- Every start tag has a form. -/
theorem exists_startTag (t : Text) :
    ∃ (tag : Text) (f : TagForm) (rest : Text), t = tag ++ (f.text ++ rest) ∧
      (∀ c ∈ tag, isTagPart c = true) ∧ Stops isTagPart (f.text ++ rest) ∧ f.Fits rest := by
  obtain ⟨tag, u, rfl, htag, hstop⟩ := exists_run isTagPart t
  obtain ⟨f, rest, hf, rfl⟩ := exists_tagForm u
  exact ⟨tag, f, rest, rfl, htag, hstop, hf⟩

/-- The text of a tag that ends is not empty. -/
theorem TagForm.text_ne_nil {f : TagForm} (h : f.ending ≠ .missing) : f.text ≠ [] := by
  cases he : f.ending with
  | complete => simp [TagForm.text, TagForm.close, he, TagEnd.text]
  | selfClosing => simp [TagForm.text, TagForm.close, he, TagEnd.text]
  | missing => exact absurd he h

theorem skipRawText_congr {tag t w x : Text} {offset offset' : Nat} (hw : tag.length + 2 ≤ w.length)
    (h : skipRawText tag ⟨offset, t⟩ = ⟨offset', w ++ x⟩) (x' : Text) :
    ∃ raw, t = raw ++ (w ++ x) ∧
      skipRawText tag ⟨offset, raw ++ (w ++ x')⟩ = ⟨offset', w ++ x'⟩ := by
  cases hb : breakOnFolded? ('<' :: '/' :: tag) t with
  | none =>
    simp only [skipRawText, Cursor.findFolded?, hb, Option.map_none, Option.getD_none,
      Cursor.toEnd, Cursor.mk.injEq] at h
    have := congrArg List.length h.2
    simp only [List.length_nil, List.length_append] at this
    omega
  | some sides =>
    obtain ⟨raw, after⟩ := sides
    simp only [skipRawText, Cursor.findFolded?, hb, Option.map_some, Option.getD_some,
      Cursor.mk.injEq] at h
    obtain ⟨rfl, rfl⟩ := h
    have happend := append_of_breakAt? hb
    rw [← happend] at hb
    have hlen : ('<' :: '/' :: tag).length ≤ w.length := hw
    have hb' := breakAt?_congr (looks_startsWithFolded _) hlen hb x'
    refine ⟨raw, happend.symm, ?_⟩
    simp only [skipRawText, Cursor.findFolded?, breakOnFolded?, hb', Option.map_some,
      Option.getD_some]

/-- The events of a tag that ends do not depend on what follows it. -/
theorem TagForm.events_body (f : TagForm) (tag : Text) (start offset : Nat) (rest rest' : Text) :
    ((f.body offset rest).events tag start).1 = ((f.body offset rest').events tag start).1 := by
  unfold TagBody.events
  simp only [TagForm.body]
  split
  · rfl
  · rfl
  · split <;> rfl

/-- A tag that ends reaches up to its end, and raw text behind it up to its closing tag. -/
theorem TagForm.after_congr {f : TagForm} {tag rest w x : Text} {start offset offset' : Nat}
    (hclosed : f.ending ≠ .missing)
    (hraw : ∀ tag' start' attributes,
      Event.opening tag' start' attributes ∈ ((f.body offset rest).events tag start).1 →
      isRawText tag' = true → tag'.length + 2 ≤ w.length)
    (h : ((f.body offset rest).events tag start).2 = ⟨offset', w ++ x⟩) (x' : Text) :
    ∃ raw, rest = raw ++ (w ++ x) ∧
      ((f.body offset (raw ++ (w ++ x'))).events tag start).2 = ⟨offset', w ++ x'⟩ := by
  unfold TagBody.events at hraw h ⊢
  simp only [TagForm.body] at hraw h ⊢
  cases he : f.ending with
  | missing => exact absurd he hclosed
  | selfClosing =>
    simp only [he, Cursor.mk.injEq] at h
    exact ⟨[], h.2, by simp [h.1]⟩
  | complete =>
    simp only [he] at hraw h ⊢
    cases hvoid : isVoid tag <;> simp only [hvoid, Bool.false_eq_true, if_false, if_true] at hraw h ⊢
    case true =>
      simp only [Cursor.mk.injEq] at h
      exact ⟨[], h.2, by simp [h.1]⟩
    case false =>
      cases htext : isRawText tag <;> simp only [htext, Bool.false_eq_true, if_false, if_true] at h ⊢
      case false =>
        simp only [Cursor.mk.injEq] at h
        exact ⟨[], h.2, by simp [h.1]⟩
      case true =>
        have hlen := hraw tag start _ (List.mem_append_right _ (List.mem_singleton.2 rfl)) htext
        exact skipRawText_congr hlen h x'

/-- A start tag that ends in front of more text does not depend on it. -/
theorem startTag_congr {u w x : Text} {offset offset' : Nat} {es : List Event} (hw : w ≠ [])
    (hraw : ∀ tag start attributes, Event.opening tag start attributes ∈ es →
      isRawText tag = true → tag.length + 2 ≤ w.length)
    (h : startTag ⟨offset, '<' :: (u ++ (w ++ x))⟩ = (es, ⟨offset', w ++ x⟩)) (x' : Text) :
    startTag ⟨offset, '<' :: (u ++ (w ++ x'))⟩ = (es, ⟨offset', w ++ x'⟩) := by
  obtain ⟨tag, f, rest, ht, htag, hstop, hf⟩ := exists_startTag (u ++ (w ++ x))
  rw [ht, startTag_form htag hstop hf] at h
  have hes : ((f.body (offset + 1 + width tag) rest).events tag offset).1 = es :=
    congrArg Prod.fst h
  have hafter : ((f.body (offset + 1 + width tag) rest).events tag offset).2 = ⟨offset', w ++ x⟩ :=
    congrArg Prod.snd h
  have hclosed : f.ending ≠ .missing := by
    intro he
    have hrest := hf.ending he
    simp only [TagBody.events, TagForm.body, he, Cursor.mk.injEq] at hafter
    rw [hrest] at hafter
    exact hw (List.append_eq_nil_iff.1 hafter.2.symm).1
  obtain ⟨raw, rfl, hafter'⟩ := TagForm.after_congr hclosed (hes ▸ hraw) hafter x'
  have hu : u = tag ++ (f.text ++ raw) := by
    have hall : u ++ (w ++ x) = (tag ++ (f.text ++ raw)) ++ (w ++ x) := by
      simp only [ht, List.append_assoc]
    exact List.append_cancel_right hall
  have hstop' : Stops isTagPart (f.text ++ (raw ++ (w ++ x'))) := by
    obtain ⟨c, v, hv⟩ := List.exists_cons_of_ne_nil (TagForm.text_ne_nil hclosed)
    rw [hv] at hstop ⊢
    exact stops_cons.2 (stops_cons.1 hstop)
  have htext : u ++ (w ++ x') = tag ++ (f.text ++ (raw ++ (w ++ x'))) := by
    rw [hu]
    simp only [List.append_assoc]
  rw [htext, startTag_form htag hstop' (hf.replace hclosed _)]
  exact Prod.ext (by rw [← hes]; exact TagForm.events_body _ _ _ _ _ _) hafter'

/-! ## Pieces -/

/-- **A piece is read without regard to what follows**, but for the next few characters. -/
theorem piece_congr {u w x : Text} {offset offset' : Nat} {es : List Event} (hu : u ≠ [])
    (hw : 3 ≤ w.length)
    (hraw : ∀ tag start attributes, Event.opening tag start attributes ∈ es →
      isRawText tag = true → tag.length + 2 ≤ w.length)
    (h : piece ⟨offset, u ++ (w ++ x)⟩ = (es, ⟨offset', w ++ x⟩)) (x' : Text) :
    piece ⟨offset, u ++ (w ++ x')⟩ = (es, ⟨offset', w ++ x'⟩) := by
  have hne : w ≠ [] := by
    rintro rfl
    exact absurd hw (by decide)
  obtain ⟨head, u, rfl⟩ := List.exists_cons_of_ne_nil hu
  have hmark : markOf (head :: u ++ (w ++ x')) = markOf (head :: u ++ (w ++ x)) := by
    obtain ⟨b, c, d, y, hy⟩ : ∃ b c d y, u ++ w = b :: c :: d :: y := by
      rcases hv : u ++ w with _ | ⟨b, _ | ⟨c, _ | ⟨d, y⟩⟩⟩ <;>
        have := congrArg List.length hv <;>
        simp only [List.length_append, List.length_cons, List.length_nil] at this <;>
        first | omega | exact ⟨b, c, d, y, rfl⟩
    simp only [List.cons_append, ← List.append_assoc, hy]
    exact markOf_congr _ _ _ _ _ _
  rw [piece_eq] at h ⊢
  cases hm : markOf (head :: u ++ (w ++ x)) <;> simp only [hmark, hm] at h ⊢
  case comment => exact passage_congr hne h x'
  case interpolation => exact passage_congr hne h x'
  case closing =>
    obtain ⟨rfl, hafter⟩ := Prod.mk.inj h
    obtain ⟨hskip, htag⟩ := skipPast_congr hne hafter x'
    simp only [closingTag, htag, hskip, hafter]
  case declaration =>
    obtain ⟨rfl, hafter⟩ := Prod.mk.inj h
    rw [(skipPast_congr hne hafter x').1]
  case start =>
    obtain ⟨first, v, hv, -⟩ := cons_of_markOf_start hm
    obtain rfl : head = '<' := (List.cons.inj hv).1
    exact startTag_congr hne hraw h x'
  case text =>
    obtain ⟨rfl, hafter⟩ := Prod.mk.inj h
    rw [List.cons_append, piece.skipText, Cursor.skip_one] at hafter ⊢
    obtain ⟨run, ht, hrun, hstop, rfl⟩ := Cursor.skipWhile_inv hafter
    obtain rfl := List.append_cancel_right ht
    have hstop' : Stops (fun ch => ch != '<' && ch != '{') (w ++ x') := by
      obtain ⟨c, v, rfl⟩ := List.exists_cons_of_ne_nil hne
      exact stops_cons.2 (stops_cons.1 hstop)
    rw [Cursor.skipWhile_run hrun hstop']

end Markup

end BindingToggle
