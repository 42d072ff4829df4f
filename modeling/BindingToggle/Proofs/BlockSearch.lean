import BindingToggle.Proofs.BlockScan

/-!
# The way from mark to mark

The scan for the closing tag of a block, and the search for the template, look at one mark after the
other. The relations below say which marks they pass, so that what holds of a whole scan is proved
by induction, with one case for each kind of mark.

* `scanMark`, `closingTag?_step` — what the scan meets at a mark, and what it does there.
* `Closes name depth c after` — the scan goes from `c` to `after`, behind the closing tag;
  `Closes.exists_close` and `closes_of_closingTag?` tie it to `closingTag?`.
* `searchMark`, `findTemplate?_step` — the same for the search.
* `Finds c here` — the search goes from `c` to `here`, in front of the start tag of the template;
  `Finds.findTemplate?_eq_some` and `exists_finds_of_findTemplate?` tie it to `findTemplate?`.
* `Closes.length_le`, `Finds.length_le` — how much text lies between the first mark and the last.
-/

namespace BindingToggle

namespace Block

open Text Markup Cursor

variable {name : Text} {c close after here : Cursor} {depth : Nat}

/-! ## The scan for a closing tag -/

/-- What the scan for the closing tag of a block can meet. -/
inductive ScanMark where
  | stop | comment | closing | opening | other
  deriving DecidableEq, Repr

/-- What the scan for a block called `name` meets at the beginning of a text. -/
def scanMark (name t : Text) : ScanMark :=
  if t = [] then .stop
  else if hasComments name && startsComment t then .comment
  else if startsWithTag ('<' :: '/' :: name) t then .closing
  else if startsWithTag ('<' :: name) t then .opening
  else .other

/-- One step of the scan. -/
theorem closingTag?_step (name : Text) (depth : Nat) (c : Cursor) :
    closingTag? name depth c =
      match scanMark name (nextMark c).rest with
      | .stop => none
      | .comment =>
        (((nextMark c).skip 4).find? "-->".toList).bind fun found =>
          closingTag? name depth (found.skip 3)
      | .closing =>
        match depth with
        | 0 => some (nextMark c, ((nextMark c).skip 2).skipPast '>')
        | d + 1 => closingTag? name d (((nextMark c).skip 2).skipPast '>')
      | .opening =>
        closingTag? name
          (if (startTag ((nextMark c).skip (name.length + 1))).selfClosing then depth
            else depth + 1)
          (startTag ((nextMark c).skip (name.length + 1))).after
      | .other => closingTag? name depth ((nextMark c).skip 1) := by
  rw [closingTag?_eq, scanMark]
  by_cases hr : (nextMark c).rest = []
  · rw [if_pos hr, if_pos hr]
  rw [if_neg hr, if_neg hr]
  by_cases hcomment : (hasComments name && startsComment (nextMark c).rest) = true
  · rw [if_pos hcomment, if_pos hcomment]
  rw [if_neg hcomment, if_neg hcomment]
  by_cases hclosing : startsWithTag ('<' :: '/' :: name) (nextMark c).rest = true
  · cases depth <;> simp only [if_pos hclosing]
  rw [if_neg hclosing, if_neg hclosing]
  by_cases hopening : startsWithTag ('<' :: name) (nextMark c).rest = true
  · rw [if_pos hopening, if_pos hopening]
  rw [if_neg hopening, if_neg hopening]

/-- The scan goes from mark to mark, and ends behind a closing tag. -/
inductive Closes (name : Text) : Nat → Cursor → Cursor → Prop
  | comment {depth : Nat} {c found after : Cursor}
      (hm : scanMark name (nextMark c).rest = .comment)
      (hf : ((nextMark c).skip 4).find? "-->".toList = some found)
      (h : Closes name depth (found.skip 3) after) : Closes name depth c after
  | last {c : Cursor} (hm : scanMark name (nextMark c).rest = .closing) :
      Closes name 0 c (((nextMark c).skip 2).skipPast '>')
  | closing {depth : Nat} {c after : Cursor} (hm : scanMark name (nextMark c).rest = .closing)
      (h : Closes name depth (((nextMark c).skip 2).skipPast '>') after) :
      Closes name (depth + 1) c after
  | opening {depth : Nat} {c after : Cursor} (hm : scanMark name (nextMark c).rest = .opening)
      (h : Closes name
        (if (startTag ((nextMark c).skip (name.length + 1))).selfClosing then depth else depth + 1)
        (startTag ((nextMark c).skip (name.length + 1))).after after) : Closes name depth c after
  | other {depth : Nat} {c after : Cursor} (hm : scanMark name (nextMark c).rest = .other)
      (h : Closes name depth ((nextMark c).skip 1) after) : Closes name depth c after

theorem Closes.exists_close (h : Closes name depth c after) :
    ∃ close, closingTag? name depth c = some (close, after) := by
  induction h with
  | comment hm hf _ ih =>
    rw [closingTag?_step, hm]
    simpa only [hf, Option.bind_some] using ih
  | last hm =>
    rw [closingTag?_step, hm]
    exact ⟨_, rfl⟩
  | closing hm _ ih =>
    rw [closingTag?_step, hm]
    exact ih
  | opening hm _ ih =>
    rw [closingTag?_step, hm]
    exact ih
  | other hm _ ih =>
    rw [closingTag?_step, hm]
    exact ih

theorem closes_of_closingTag? (h : closingTag? name depth c = some (close, after)) :
    Closes name depth c after := by
  fun_induction closingTag? name depth c with
  | case1 => cases h
  | case2 => cases h
  | case3 depth c here hr hcomment found hf ih =>
    exact .comment (by rw [scanMark, if_neg hr, if_pos hcomment]) hf (ih h)
  | case4 c here hr hcomment hclosing after' =>
    obtain ⟨-, rfl⟩ : here = close ∧ after' = after := by simpa using h
    exact .last (by rw [scanMark, if_neg hr, if_neg hcomment, if_pos hclosing])
  | case5 c here hr hcomment hclosing after' d ih =>
    exact .closing (by rw [scanMark, if_neg hr, if_neg hcomment, if_pos hclosing]) (ih h)
  | case6 depth c here hr hcomment hclosing hopening tag ih =>
    refine .opening ?_ (ih h)
    rw [scanMark, if_neg hr, if_neg hcomment, if_neg hclosing, if_pos hopening]
  | case7 depth c here hr hcomment hclosing hopening ih =>
    refine .other ?_ (ih h)
    rw [scanMark, if_neg hr, if_neg hcomment, if_neg hclosing, if_neg hopening]

theorem Closes.reaches (h : Closes name depth c after) : c.Reaches after := by
  obtain ⟨close, hclose⟩ := h.exists_close
  exact (reaches_closingTag? hclose).2

theorem startsWithTag_of_scanMark {t : Text} (h : scanMark name t = .closing) :
    startsWithTag ('<' :: '/' :: name) t = true := by
  unfold scanMark at h
  split at h
  · cases h
  · split at h
    · cases h
    · split at h
      · assumption
      · split at h <;> cases h

/-- The next mark lies behind all that was passed. -/
theorem length_nextMark_le {d : Cursor} (h : here.Reaches d) :
    (nextMark d).rest.length ≤ here.rest.length :=
  (h.trans (reaches_skipWhile _ d)).length_le

/-- A text without a mark ends in front of it. -/
theorem length_le_of_not_mem {mark : Char} {s t before rest : Text} (hs : mark ∉ s)
    (h : s ++ t = before ++ mark :: rest) : s.length ≤ before.length := by
  rcases List.append_eq_append_iff.1 h with ⟨z, rfl, -⟩ | ⟨z, rfl, hz⟩
  · simp
  · cases z with
    | nil => simp
    | cons b z =>
      obtain ⟨rfl, -⟩ := List.cons.inj hz
      simp at hs

/-- A closing tag that ends holds its name and three characters more. -/
theorem length_of_closeTag {here : Cursor} (hname : '>' ∉ name)
    (hclosing : startsWithTag ('<' :: '/' :: name) here.rest = true)
    (hafter : ((here.skip 2).skipPast '>').rest ≠ []) :
    ((here.skip 2).skipPast '>').rest.length + (name.length + 3) ≤ here.rest.length := by
  obtain ⟨front, before, hfront, hrest, -, -⟩ := skip_skipPast_inv hafter rfl
  obtain ⟨spelling, behind, heq, hspelling, -⟩ := startsWithTag_iff.1 hclosing
  have hlength : spelling.length = name.length + 2 :=
    length_eq_of_lower_eq (eqFolded_iff.1 hspelling)
  have hend : '>' ∉ spelling := by
    intro hmem
    have := mem_of_lower_eq (by decide) (by decide) (eqFolded_iff.1 hspelling) hmem
    simp [hname] at this
  have hle : spelling.length ≤ (front ++ before).length := by
    rw [heq, ← List.append_assoc] at hrest
    exact length_le_of_not_mem hend hrest
  have htotal := congrArg List.length hrest
  simp only [List.length_append, List.length_cons] at htotal hle
  omega

/-- The characters of a closing tag lie between the next mark and the place behind the tag. -/
theorem Closes.length_le (hname : '>' ∉ name) (h : Closes name depth c after)
    (hafter : after.rest ≠ []) :
    after.rest.length + (name.length + 3) ≤ (nextMark c).rest.length := by
  induction h with
  | comment _ hf _ ih =>
    refine Nat.le_trans (ih hafter) (length_nextMark_le ?_)
    exact (reaches_skip 4 _).trans ((reaches_of_find? hf).trans (reaches_skip 3 _))
  | last hm => exact length_of_closeTag hname (startsWithTag_of_scanMark hm) hafter
  | closing _ _ ih =>
    refine Nat.le_trans (ih hafter) (length_nextMark_le ?_)
    exact (reaches_skip 2 _).trans (reaches_skipPast _ _)
  | opening _ _ ih =>
    refine Nat.le_trans (ih hafter) (length_nextMark_le ?_)
    exact (reaches_skip _ _).trans (reaches_startTag _)
  | other _ _ ih => exact Nat.le_trans (ih hafter) (length_nextMark_le (reaches_skip 1 _))

/-! ## The search for the template -/

/-- What the search for the template can meet. -/
inductive SearchMark where
  | stop | comment | tag | other
  deriving DecidableEq, Repr

/-- Whether a text begins with a name. -/
def startsName (t : Text) : Bool := ((t.takeWhile isTagPart).head?.map Char.isAlpha).getD false

/-- What the search meets at a mark. -/
def searchMark (here : Cursor) : SearchMark :=
  if here.rest = [] then .stop
  else if startsComment here.rest then .comment
  else if startsName (here.skip 1).rest then .tag
  else .other

/-- The name of the tag at a mark. -/
def tagName (here : Cursor) : Text := (here.skip 1).rest.takeWhile isTagPart

/-- The tag at a mark, behind its name. -/
def tagAt (here : Cursor) : StartTag := startTag ((here.skip 1).skipWhile isTagPart)

/-- One step of the search. -/
theorem findTemplate?_step (c : Cursor) :
    findTemplate? c =
      match searchMark (nextMark c) with
      | .stop => none
      | .comment =>
        (((nextMark c).skip 4).find? "-->".toList).bind fun found => findTemplate? (found.skip 3)
      | .tag =>
        if !eqFolded (tagName (nextMark c)) templateName then
          findTemplate? (skipBlock (tagName (nextMark c)) (tagAt (nextMark c)))
        else if (tagAt (nextMark c)).selfClosing then none
        else some (templateBlock (nextMark c).offset (tagAt (nextMark c)))
      | .other => findTemplate? ((nextMark c).skip 1) := by
  rw [findTemplate?_eq, searchMark]
  dsimp only
  by_cases hr : (nextMark c).rest = []
  · rw [if_pos hr, if_pos hr]
  rw [if_neg hr, if_neg hr]
  by_cases hcomment : startsComment (nextMark c).rest = true
  · rw [if_pos hcomment, if_pos hcomment]
  rw [if_neg hcomment, if_neg hcomment]
  by_cases hname : startsName ((nextMark c).skip 1).rest = true
  · rw [if_pos hname]
    exact if_pos hname
  · rw [if_neg hname]
    exact if_neg hname

/-- The search goes from mark to mark, and ends in front of the start tag of a template. -/
inductive Finds : Cursor → Cursor → Prop
  | comment {c found here : Cursor} (hm : searchMark (nextMark c) = .comment)
      (hf : ((nextMark c).skip 4).find? "-->".toList = some found)
      (h : Finds (found.skip 3) here) : Finds c here
  | block {c here : Cursor} (hm : searchMark (nextMark c) = .tag)
      (hname : eqFolded (tagName (nextMark c)) templateName = false)
      (h : Finds (skipBlock (tagName (nextMark c)) (tagAt (nextMark c))) here) : Finds c here
  | template {c : Cursor} (hm : searchMark (nextMark c) = .tag)
      (hname : eqFolded (tagName (nextMark c)) templateName = true)
      (hself : (tagAt (nextMark c)).selfClosing = false) : Finds c (nextMark c)
  | other {c here : Cursor} (hm : searchMark (nextMark c) = .other)
      (h : Finds ((nextMark c).skip 1) here) : Finds c here

theorem Finds.findTemplate?_eq_some (h : Finds c here) :
    findTemplate? c = some (templateBlock here.offset (tagAt here)) := by
  induction h with
  | comment hm hf _ ih => rw [findTemplate?_step, hm, hf, Option.bind_some, ih]
  | block hm hname _ ih =>
    rw [findTemplate?_step, hm, hname]
    exact ih
  | template hm hname hself =>
    rw [findTemplate?_step, hm, hname, hself]
    rfl
  | other hm _ ih =>
    rw [findTemplate?_step, hm]
    exact ih

theorem exists_finds_of_findTemplate? {block : TemplateBlock} (h : findTemplate? c = some block) :
    ∃ here, Finds c here ∧ block = templateBlock here.offset (tagAt here) := by
  fun_induction findTemplate? c with
  | case1 => cases h
  | case2 => cases h
  | case3 c here hr hcomment found hf ih =>
    obtain ⟨mark, hfinds, hblock⟩ := ih h
    exact ⟨mark, .comment (by rw [searchMark, if_neg hr, if_pos hcomment]) hf hfinds, hblock⟩
  | case4 c here hr hcomment name hname tag htemplate ih =>
    obtain ⟨mark, hfinds, hblock⟩ := ih h
    have hother : eqFolded name templateName = false := by simpa using htemplate
    refine ⟨mark, .block ?_ hother hfinds, hblock⟩
    rw [searchMark, if_neg hr, if_neg hcomment]
    exact if_pos hname
  | case5 => cases h
  | case6 c here hr hcomment name hname tag htemplate hself =>
    have hsame : eqFolded name templateName = true := by simpa using htemplate
    have hopen : tag.selfClosing = false := by simpa using hself
    refine ⟨here, .template ?_ hsame hopen, (Option.some.inj h).symm⟩
    rw [searchMark, if_neg hr, if_neg hcomment]
    exact if_pos hname
  | case7 c here hr hcomment name hname ih =>
    obtain ⟨mark, hfinds, hblock⟩ := ih h
    refine ⟨mark, .other ?_ hfinds, hblock⟩
    rw [searchMark, if_neg hr, if_neg hcomment]
    exact if_neg hname

theorem reaches_tagAt (here : Cursor) : here.Reaches (tagAt here).after :=
  ((reaches_skip 1 here).trans (reaches_skipWhile _ _)).trans (reaches_startTag _)

theorem not_mem_tagName (here : Cursor) : '>' ∉ tagName here := by
  intro h
  have hall : (tagName here).all isTagPart = true := List.all_takeWhile
  exact absurd (List.all_eq_true.1 hall _ h) (by decide)

/-- The mark of a tag and its name stand in front of what follows them. -/
theorem length_tagAt {here : Cursor} (hr : here.rest ≠ []) :
    (tagAt here).after.rest.length + (tagName here).length + 1 ≤ here.rest.length := by
  have hsplit := congrArg List.length
    (List.takeWhile_append_dropWhile (p := isTagPart) (l := (here.skip 1).rest))
  have hlt := length_skip_lt (n := 1) (by decide) hr
  have htag : (tagAt here).after.rest.length ≤ ((here.skip 1).rest.dropWhile isTagPart).length :=
    (reaches_startTag _).length_le
  rw [List.length_append] at hsplit
  unfold tagName
  omega

theorem Finds.reaches (h : Finds c here) : c.Reaches here := by
  induction h with
  | comment _ hf _ ih =>
    exact (((reaches_skipWhile _ _).trans (reaches_skip 4 _)).trans
      ((reaches_of_find? hf).trans (reaches_skip 3 _))).trans ih
  | block _ _ _ ih =>
    exact (((reaches_skipWhile _ _).trans (reaches_tagAt _)).trans (reaches_skipBlock _ _)).trans ih
  | template => exact reaches_skipWhile _ _
  | other _ _ ih => exact ((reaches_skipWhile _ _).trans (reaches_skip 1 _)).trans ih

/-- The content of the template lies behind the next mark, by more than the mark of a comment. -/
theorem Finds.length_le (h : Finds c here) :
    (tagAt here).after.rest.length + 4 ≤ (nextMark c).rest.length := by
  induction h with
  | comment _ hf _ ih =>
    refine Nat.le_trans ih (length_nextMark_le ?_)
    exact (reaches_skip 4 _).trans ((reaches_of_find? hf).trans (reaches_skip 3 _))
  | block _ _ _ ih =>
    exact Nat.le_trans ih (length_nextMark_le ((reaches_tagAt _).trans (reaches_skipBlock _ _)))
  | @template c hm hname _ =>
    have hr : (nextMark c).rest ≠ [] := by
      intro hr
      rw [searchMark, if_pos hr] at hm
      cases hm
    have hlength : (tagName (nextMark c)).length = 8 :=
      length_eq_of_lower_eq (eqFolded_iff.1 hname)
    have htag := length_tagAt hr
    omega
  | other _ _ ih => exact Nat.le_trans ih (length_nextMark_le (reaches_skip 1 _))

end Block

end BindingToggle
