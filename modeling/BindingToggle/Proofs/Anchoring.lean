import BindingToggle.Proofs.BlockSearch
import BindingToggle.Proofs.RangeEdits

/-!
# A toggle keeps the template where it is

The search for the template goes through the blocks of a document, and looks ahead for the closing
tag of each of them. Whatever it decides, it decides by the text in front of the content of the
template. So an edit inside of the content does not move the template.

* `Cursor.Agree x x' c c'` — cursors at the same place of two texts, which go on alike up to a place
  where one of them goes on with `x` and the other with `x'`.
* `Cursor.Agree.skip`, `.skipWhile`, `.skipPast`, `.find?`, `Block.agree_startTag` — a movement that
  stops in front of that place is the same in both texts.
* `Block.Closes.agree`, `Block.Finds.agree` — so are the scan for a closing tag and the search for the
  template.
* `toggleActions_keep_template` — a document has its template in the same place after a toggle.
-/

namespace BindingToggle

open Text

/-! ## Cursors that agree -/

namespace Cursor

/-- The cursors stand at the same place, and the texts go on alike until one of them goes on with
`x` and the other with `x'`. -/
def Agree (x x' : Text) (c c' : Cursor) : Prop :=
  c'.offset = c.offset ∧ ∃ u, c.rest = u ++ x ∧ c'.rest = u ++ x'

variable {x x' : Text} {c c' d : Cursor}

theorem Agree.rest_ne_nil (h : Agree x x' c c') (hx : x.length < c.rest.length) :
    c'.rest ≠ [] := by
  obtain ⟨-, u, hc, hc'⟩ := h
  intro hnil
  rw [hc', List.append_eq_nil_iff] at hnil
  rw [hc, hnil.1] at hx
  exact absurd hx (Nat.lt_irrefl _)

/-- What the next characters decide is decided alike. -/
theorem Agree.looks {p : Text → Bool} {n : Nat} (h : Agree x x' c c') (hp : Looks n p)
    (hn : x.length + n ≤ c.rest.length) : p c'.rest = p c.rest := by
  obtain ⟨-, u, hc, hc'⟩ := h
  have hu : n ≤ u.length := by
    rw [hc, List.length_append] at hn
    omega
  rw [hc, hc']
  apply hp
  rw [List.take_append_of_le_length hu, List.take_append_of_le_length hu]

theorem Agree.skip (h : Agree x x' c c') {n : Nat} (hx : x.length < (c.skip n).rest.length) :
    Agree x x' (c.skip n) (c'.skip n) := by
  obtain ⟨hoffset, u, hc, hc'⟩ := h
  have hu : n ≤ u.length := by
    simp only [Cursor.skip, hc, List.length_drop, List.length_append] at hx
    omega
  refine ⟨?_, u.drop n, ?_, ?_⟩
  · simp only [Cursor.skip, hc, hc', hoffset, List.take_append_of_le_length hu]
  · simp only [Cursor.skip, hc, List.drop_append_of_le_length hu]
  · simp only [Cursor.skip, hc', List.drop_append_of_le_length hu]

/-- A run of characters is the same, and so is the place behind it. -/
theorem Agree.skipWhile (h : Agree x x' c c') {p : Char → Bool}
    (hx : x.length < (c.skipWhile p).rest.length) :
    Agree x x' (c.skipWhile p) (c'.skipWhile p) ∧
      c'.rest.takeWhile p = c.rest.takeWhile p := by
  obtain ⟨hoffset, u, hc, hc'⟩ := h
  obtain ⟨run, v, rfl, hrun, hv⟩ := exists_run p u
  cases v with
  | nil =>
    -- the run would go on into `x`
    have hsuffix : (run ++ x).dropWhile p <:+ x := by
      rw [List.dropWhile_append_of_pos hrun]
      exact List.dropWhile_suffix p
    have hle := hsuffix.length_le
    simp only [Cursor.skipWhile, hc, List.append_nil] at hx
    omega
  | cons b v =>
    have hstops : ∀ y : Text, Stops p (b :: v ++ y) := fun y => stops_cons.2 (stops_cons.1 hv)
    rw [List.append_assoc] at hc hc'
    simp only [Cursor.skipWhile, hc, hc', hoffset, takeWhile_run hrun (hstops _),
      dropWhile_run hrun (hstops _)]
    exact ⟨⟨rfl, b :: v, rfl, rfl⟩, trivial⟩

theorem Agree.skipPast (h : Agree x x' c c') {mark : Char}
    (hx : x.length < (c.skipPast mark).rest.length) :
    Agree x x' (c.skipPast mark) (c'.skipPast mark) := by
  have hmark := Nat.lt_of_lt_of_le hx (reaches_skip 1 (c.skipWhile (· != mark))).length_le
  exact (h.skipWhile hmark).1.skip hx

theorem Agree.find? (h : Agree x x' c c') {needle : Text} (hd : c.find? needle = some d)
    (hx : x.length + needle.length ≤ d.rest.length) :
    ∃ d', c'.find? needle = some d' ∧ Agree x x' d d' := by
  obtain ⟨hoffset, u, hc, hc'⟩ := h
  obtain ⟨⟨before, after⟩, hb, rfl⟩ := Option.map_eq_some_iff.1 hd
  -- the needle ends in front of `x`
  have hsplit : u ++ x = before ++ after := by rw [← hc, append_of_breakAt? hb]
  have hlen := congrArg List.length hsplit
  simp only [List.length_append] at hlen hx
  have hbefore : before <+: u ++ x := by
    rw [hsplit]
    exact List.prefix_append _ _
  obtain ⟨w, rfl⟩ : before <+: u :=
    List.prefix_of_prefix_length_le hbefore (List.prefix_append _ _) (by omega)
  rw [List.append_assoc] at hsplit hc hc'
  obtain rfl : w ++ x = after := List.append_cancel_left hsplit
  rw [hc] at hb
  have hw : needle.length ≤ w.length := by
    rw [List.length_append] at hx
    omega
  refine ⟨⟨c'.offset + width before, w ++ x'⟩, ?_, by rw [hoffset], w, rfl, rfl⟩
  have hb' : breakOn? needle (before ++ (w ++ x')) = some (before, w ++ x') :=
    breakAt?_congr (looks_isPrefixOf needle) hw hb x'
  rw [Cursor.find?, hc', hb']
  rfl

end Cursor

namespace Block

open Cursor Markup

variable {x x' name : Text} {c c' after here here' : Cursor} {depth : Nat}

/-! ## Tags in front of the edit -/

/-- A tag that ends in front of `x` is split alike. -/
theorem splitTag_agree {quote : Option Char} {u a r : Text}
    (h : splitTag quote (u ++ x) = (a, some r)) (hx : x.length < r.length) (x' : Text) :
    ∃ v, r = v ++ x ∧ splitTag quote (u ++ x') = (a, some (v ++ x')) := by
  induction u generalizing quote a with
  | nil =>
    have happend := append_splitTag quote x
    rw [List.nil_append] at h
    rw [h] at happend
    have hlen := congrArg List.length happend
    simp only [List.length_append, List.length_cons] at hlen
    omega
  | cons b u ih =>
    rw [List.cons_append] at h ⊢
    cases quote with
    | some q =>
      simp only [splitTag] at h ⊢
      obtain ⟨rfl, hr⟩ := Prod.mk.inj h
      obtain ⟨v, hv, hsplit⟩ := ih (Prod.ext rfl hr)
      exact ⟨v, hv, by simp only [hsplit]⟩
    | none =>
      by_cases hb : b = '>'
      · simp only [splitTag, hb, if_true, Prod.mk.injEq, Option.some.injEq] at h ⊢
        exact ⟨u, h.2.symm, h.1, rfl⟩
      · simp only [splitTag, if_neg hb] at h ⊢
        obtain ⟨rfl, hr⟩ := Prod.mk.inj h
        obtain ⟨v, hv, hsplit⟩ := ih (Prod.ext rfl hr)
        exact ⟨v, hv, by simp only [hsplit]⟩

/-- A start tag that ends in front of `x` is read alike. -/
theorem agree_startTag (h : Agree x x' c c') (hx : x.length < (startTag c).after.rest.length) :
    Agree x x' (startTag c).after (startTag c').after ∧
      (startTag c').attributes = (startTag c).attributes ∧
      (startTag c').selfClosing = (startTag c).selfClosing := by
  obtain ⟨hoffset, u, hc, hc'⟩ := h
  cases hs : splitTag none c.rest with
  | mk a r =>
    cases r with
    | none => simp [startTag, hs, toEnd] at hx
    | some r =>
      rw [startTag, hs] at hx
      rw [hc] at hs
      obtain ⟨v, rfl, hs'⟩ := splitTag_agree hs hx x'
      rw [← hc] at hs
      rw [← hc'] at hs'
      simp only [startTag, hs, hs', hoffset]
      exact ⟨⟨rfl, v, rfl, rfl⟩, trivial, trivial⟩

/-- A comment that ends in front of `x` is passed over alike. -/
theorem agree_comment {found : Cursor} (h : Agree x x' here here')
    (hf : (here.skip 4).find? "-->".toList = some found)
    (hx : x.length < (found.skip 3).rest.length) :
    ∃ found', (here'.skip 4).find? "-->".toList = some found' ∧
      Agree x x' (found.skip 3) (found'.skip 3) := by
  have hle := ((reaches_of_find? hf).trans (reaches_skip 3 found)).length_le
  have hneedle : x.length + "-->".toList.length ≤ found.rest.length := by
    have hdrop : (found.skip 3).rest.length = found.rest.length - 3 := List.length_drop
    rw [show "-->".toList.length = 3 from rfl]
    omega
  obtain ⟨found', hf', hfound'⟩ := (h.skip (n := 4) (by omega)).find? hf hneedle
  exact ⟨found', hf', hfound'.skip hx⟩

/-- A closing tag that ends in front of `x` is passed over alike. -/
theorem agree_closeTag (h : Agree x x' here here')
    (hx : x.length < ((here.skip 2).skipPast '>').rest.length) :
    Agree x x' ((here.skip 2).skipPast '>') ((here'.skip 2).skipPast '>') := by
  have hle := (reaches_skipPast '>' (here.skip 2)).length_le
  exact (h.skip (by omega)).skipPast hx

theorem looks_startsWithTag (mark : Text) : Looks (mark.length + 1) (startsWithTag mark) := by
  intro t t' h
  have hmark : t.take mark.length = t'.take mark.length := by
    have := congrArg (List.take mark.length) h
    simpa [List.take_take] using this
  have hend : (t.drop mark.length).head? = (t'.drop mark.length).head? := by
    rw [List.head?_drop, List.head?_drop]
    have := congrArg (fun u : Text => u[mark.length]?) h
    simpa [List.getElem?_take] using this
  have hname : ∀ u : Text, atNameEnd u = (u.head?.map fun c => !isTagPart c).getD true := by
    intro u
    cases u <;> rfl
  rw [startsWithTag, startsWithTag, looks_startsWithFolded mark t t' hmark, hname, hname, hend]

/-! ## The scan for a closing tag -/

/-- In front of a closing tag that ends in front of `x`, there is room for all that the scan looks
at, and it meets the same. -/
theorem Closes.agree_nextMark (hname : '>' ∉ name) (h : Closes name depth c after)
    (hx : x.length < after.rest.length) (hagree : Agree x x' c c') :
    Agree x x' (nextMark c) (nextMark c') ∧
      scanMark name (nextMark c').rest = scanMark name (nextMark c).rest := by
  have hlength := h.length_le hname (List.length_pos_iff.1 (by omega))
  have hlt : x.length < (nextMark c).rest.length := by omega
  have hhere : Agree x x' (nextMark c) (nextMark c') := (hagree.skipWhile hlt).1
  have hcomment : startsComment (nextMark c').rest = startsComment (nextMark c).rest :=
    hhere.looks (looks_isPrefixOf _) (by rw [show "<!--".toList.length = 4 from rfl]; omega)
  have hclosing := hhere.looks (looks_startsWithTag ('<' :: '/' :: name))
    (by simp only [List.length_cons]; omega)
  have hopening := hhere.looks (looks_startsWithTag ('<' :: name))
    (by simp only [List.length_cons]; omega)
  refine ⟨hhere, ?_⟩
  rw [scanMark, scanMark, if_neg (hhere.rest_ne_nil hlt), if_neg (List.length_pos_iff.1 (by omega)),
    hcomment, hclosing, hopening]

theorem Closes.length_lt (h : Closes name depth c after) (hx : x.length < after.rest.length) :
    x.length < c.rest.length :=
  Nat.lt_of_lt_of_le hx h.reaches.length_le

/-- **The scan for a closing tag that ends in front of `x` does not depend on `x`.** -/
theorem Closes.agree (hname : '>' ∉ name) (h : Closes name depth c after)
    (hx : x.length < after.rest.length) (hagree : Agree x x' c c') :
    ∃ after', Closes name depth c' after' ∧ Agree x x' after after' := by
  induction h generalizing c' with
  | comment hm hf h ih =>
    obtain ⟨hhere, hsame⟩ := (Closes.comment hm hf h).agree_nextMark hname hx hagree
    obtain ⟨found', hf', hfound⟩ := agree_comment hhere hf (h.length_lt hx)
    obtain ⟨after', hclose, hafter⟩ := ih hx hfound
    exact ⟨after', .comment (hsame.trans hm) hf' hclose, hafter⟩
  | last hm =>
    obtain ⟨hhere, hsame⟩ := (Closes.last hm).agree_nextMark hname hx hagree
    exact ⟨_, .last (hsame.trans hm), agree_closeTag hhere hx⟩
  | closing hm h ih =>
    obtain ⟨hhere, hsame⟩ := (Closes.closing hm h).agree_nextMark hname hx hagree
    obtain ⟨after', hclose, hafter⟩ := ih hx (agree_closeTag hhere (h.length_lt hx))
    exact ⟨after', .closing (hsame.trans hm) hclose, hafter⟩
  | opening hm h ih =>
    obtain ⟨hhere, hsame⟩ := (Closes.opening hm h).agree_nextMark hname hx hagree
    have hlt := h.length_lt hx
    have hname' := hhere.skip (Nat.lt_of_lt_of_le hlt (reaches_startTag _).length_le)
    obtain ⟨htag, -, hself⟩ := agree_startTag hname' hlt
    obtain ⟨after', hclose, hafter⟩ := ih hx htag
    refine ⟨after', .opening (hsame.trans hm) ?_, hafter⟩
    rw [hself]
    exact hclose
  | other hm h ih =>
    obtain ⟨hhere, hsame⟩ := (Closes.other hm h).agree_nextMark hname hx hagree
    obtain ⟨after', hclose, hafter⟩ := ih hx (hhere.skip (h.length_lt hx))
    exact ⟨after', .other (hsame.trans hm) hclose, hafter⟩

/-! ## The search for the template -/

/-- A block is passed over alike, if its closing tag ends in front of `x`. -/
theorem agree_skipBlock {tag tag' : StartTag} (hname : '>' ∉ name)
    (h : Agree x x' tag.after tag'.after) (hself : tag'.selfClosing = tag.selfClosing)
    (hx : x.length < (skipBlock name tag).rest.length) :
    Agree x x' (skipBlock name tag) (skipBlock name tag') := by
  unfold skipBlock at hx ⊢
  rw [hself]
  by_cases htag : tag.selfClosing = true
  · rw [if_pos htag, if_pos htag]
    exact h
  · rw [if_neg htag] at hx ⊢
    rw [if_neg htag]
    cases hscan : closingTag? name 0 tag.after with
    | none =>
      rw [hscan] at hx
      exact absurd hx (Nat.not_lt_zero _)
    | some found =>
      rw [hscan] at hx
      obtain ⟨after', hclose, hafter⟩ := (closes_of_closingTag? hscan).agree hname hx h
      obtain ⟨close', hscan'⟩ := hclose.exists_close
      rw [hscan']
      exact hafter

/-- Whether a text begins with a name is told by its first character. -/
theorem looks_startsName : Looks 1 startsName := by
  intro t t' h
  cases t with
  | nil =>
    cases t' with
    | nil => rfl
    | cons => cases h
  | cons b t =>
    cases t' with
    | nil => cases h
    | cons b' t' =>
      obtain ⟨rfl, -⟩ := List.cons.inj h
      cases hb : isTagPart b <;> simp [startsName, hb]

/-- Four characters tell what the search meets. -/
theorem agree_searchMark (h : Agree x x' here here')
    (hx : x.length + 4 ≤ here.rest.length) : searchMark here' = searchMark here := by
  have hlt : x.length < here.rest.length := by omega
  have hcomment : startsComment here'.rest = startsComment here.rest :=
    h.looks (looks_isPrefixOf _) hx
  have hone : (here.skip 1).rest.length = here.rest.length - 1 := List.length_drop
  have hname := (h.skip (n := 1) (by omega)).looks looks_startsName (by omega)
  rw [searchMark, searchMark, if_neg (h.rest_ne_nil hlt), if_neg (List.length_pos_iff.1 (by omega)),
    hcomment, hname]

/-- A tag that ends in front of `x` has the same name and is read alike. -/
theorem agree_tagAt (h : Agree x x' here here')
    (hx : x.length < (tagAt here).after.rest.length) :
    tagName here' = tagName here ∧ Agree x x' (tagAt here).after (tagAt here').after ∧
      (tagAt here').attributes = (tagAt here).attributes ∧
      (tagAt here').selfClosing = (tagAt here).selfClosing := by
  have hbehind := Nat.lt_of_lt_of_le hx (reaches_startTag _).length_le
  have hone := h.skip (Nat.lt_of_lt_of_le hbehind (reaches_skipWhile _ _).length_le)
  obtain ⟨hagree, hname⟩ := hone.skipWhile hbehind
  exact ⟨hname, agree_startTag hagree hx⟩

/-- In front of a template whose content begins in front of `x`, the search meets the same. -/
theorem Finds.agree_nextMark (h : Finds c here) (hx : x.length < (tagAt here).after.rest.length)
    (hagree : Agree x x' c c') :
    Agree x x' (nextMark c) (nextMark c') ∧
      searchMark (nextMark c') = searchMark (nextMark c) := by
  have hlength := h.length_le
  have hlt : x.length < (nextMark c).rest.length := by omega
  have hhere : Agree x x' (nextMark c) (nextMark c') := (hagree.skipWhile hlt).1
  exact ⟨hhere, agree_searchMark hhere (by omega)⟩

theorem Finds.length_lt (h : Finds c here) (hx : x.length < (tagAt here).after.rest.length) :
    x.length < c.rest.length :=
  Nat.lt_of_lt_of_le hx (h.reaches.trans (reaches_tagAt here)).length_le

/-- **The search for a template whose content begins in front of `x` does not depend on `x`.** -/
theorem Finds.agree (h : Finds c here) (hx : x.length < (tagAt here).after.rest.length)
    (hagree : Agree x x' c c') : ∃ here', Finds c' here' ∧ Agree x x' here here' := by
  induction h generalizing c' with
  | comment hm hf h ih =>
    obtain ⟨hhere, hsame⟩ := (Finds.comment hm hf h).agree_nextMark hx hagree
    obtain ⟨found', hf', hfound⟩ := agree_comment hhere hf (h.length_lt hx)
    obtain ⟨here', hfinds, hagree'⟩ := ih hx hfound
    exact ⟨here', .comment (hsame.trans hm) hf' hfinds, hagree'⟩
  | block hm hname h ih =>
    obtain ⟨hhere, hsame⟩ := (Finds.block hm hname h).agree_nextMark hx hagree
    have hlt := h.length_lt hx
    obtain ⟨hname', hafter, -, hself⟩ :=
      agree_tagAt hhere (Nat.lt_of_lt_of_le hlt (reaches_skipBlock _ _).length_le)
    obtain ⟨here', hfinds, hagree'⟩ :=
      ih hx (agree_skipBlock (not_mem_tagName _) hafter hself hlt)
    rw [← hname'] at hname hfinds
    exact ⟨here', .block (hsame.trans hm) hname hfinds, hagree'⟩
  | template hm hname hself =>
    obtain ⟨hhere, hsame⟩ := (Finds.template hm hname hself).agree_nextMark hx hagree
    obtain ⟨hname', -, -, hself'⟩ := agree_tagAt hhere hx
    rw [← hname'] at hname
    exact ⟨_, .template (hsame.trans hm) hname (hself'.trans hself), hhere⟩
  | other hm h ih =>
    obtain ⟨hhere, hsame⟩ := (Finds.other hm h).agree_nextMark hx hagree
    obtain ⟨here', hfinds, hagree'⟩ := ih hx (hhere.skip (h.length_lt hx))
    exact ⟨here', .other (hsame.trans hm) hfinds, hagree'⟩

theorem attributes_templateBlock (start : Nat) (tag : StartTag) :
    (templateBlock start tag).attributes = tag.attributes := by
  unfold templateBlock
  dsimp only
  split <;> rfl

end Block

/-! ## The template of an edited document -/

/-- Of two ways to split a text, the one with the narrower front has more behind it. -/
theorem length_lt_of_width_lt {s t u v : Text} (h : s ++ t = u ++ v) (hw : width u < width s) :
    t.length < v.length := by
  rcases List.append_eq_append_iff.1 h with ⟨z, rfl, -⟩ | ⟨z, rfl, rfl⟩
  · rw [width_append] at hw
    omega
  · cases z with
    | nil => simp at hw
    | cons b z =>
      rw [List.length_append, List.length_cons]
      omega

/-- The template of a document is the content of the template block, if the block is read. -/
theorem template_parseComponent_iff {text : Text} {t : EmbeddedTemplate} :
    (parseComponent text).template = some t ↔
      ∃ block, Block.findTemplate? ⟨0, text⟩ = some block ∧
        Component.isRead block.attributes = true ∧
        (Component.ofBlock block).template = some t := by
  unfold parseComponent
  cases hfind : Block.findTemplate? ⟨0, text⟩ with
  | none => simp [Component.empty]
  | some block => cases hread : Component.isRead block.attributes <;> simp [hread, Component.empty]

/-- A document that is changed inside the content of its template has a template in the same place
and of the same language. -/
theorem exists_template_of_edited {before old after : Text} {t : EmbeddedTemplate}
    (ht : (parseComponent (before ++ (old ++ after))).template = some t)
    (hinside : t.anchor.offset < width before) (new : Text) :
    ∃ t', (parseComponent (before ++ (new ++ after))).template = some t' ∧
      t'.anchor = t.anchor ∧ t'.lang = t.lang := by
  obtain ⟨block, hfind, hread, hblock⟩ := template_parseComponent_iff.1 ht
  obtain ⟨here, hfinds, rfl⟩ := Block.exists_finds_of_findTemplate? hfind
  cases hblock
  obtain ⟨hstart, -⟩ := Block.rest_of_templateBlock here.offset (Block.tagAt here)
  simp only [hstart] at hinside ⊢
  -- the change begins behind the first character of the content
  have hlt : (old ++ after).length < (Block.tagAt here).after.rest.length := by
    obtain ⟨between, hrest, hoffset⟩ := hfinds.reaches.trans (Block.reaches_tagAt here)
    rw [hoffset, Nat.zero_add] at hinside
    exact length_lt_of_width_lt hrest hinside
  have hagree : Cursor.Agree (old ++ after) (new ++ after) ⟨0, before ++ (old ++ after)⟩
      ⟨0, before ++ (new ++ after)⟩ := ⟨rfl, before, rfl, rfl⟩
  obtain ⟨here', hfinds', hagree⟩ := hfinds.agree hlt hagree
  obtain ⟨-, ⟨hoffset, -⟩, hattributes, -⟩ := Block.agree_tagAt hagree hlt
  obtain ⟨hstart', -⟩ := Block.rest_of_templateBlock here'.offset (Block.tagAt here')
  rw [Block.attributes_templateBlock] at hread
  refine ⟨_, template_parseComponent_iff.2 ⟨_, hfinds'.findTemplate?_eq_some, ?_, rfl⟩, ?_, ?_⟩
  · rw [Block.attributes_templateBlock, hattributes]
    exact hread
  · rw [hstart', hoffset]
  · rw [Block.attributes_templateBlock, Block.attributes_templateBlock, hattributes]

/-- **A toggle never loses the template.** After the edits of an action the document has a template
in the same place and of the same language. -/
theorem toggleActions_keep_template {text : Text} {selection : Span} {cancelled : Bool}
    {action : ToggleAction}
    (h : action ∈ toggleActions (parseComponent text) selection cancelled) :
    ∃ t t', (parseComponent text).template = some t ∧
      (parseComponent (Edit.applyAll text action.edits)).template = some t' ∧
      t'.anchor = t.anchor ∧ t'.lang = t.lang := by
  obtain ⟨pre, post, t, s, f, ht, hanchor, -, htext, -, haction⟩ :=
    exists_site_of_mem_toggleActions h
  obtain ⟨-, before, old, new, after, hsplit, hplace, -, hedited⟩ :=
    Markup.rewrites_of_synthesize haction (s.tail ++ post)
  have hfill : text = pre ++ (s.head ++ (f.text ++ (s.tail ++ post))) := by
    rw [htext, Markup.Site.fill, List.append_assoc, List.append_assoc]
  rw [← hfill] at hsplit hedited
  -- the attribute stands in a tag, so the change begins behind the first character of the content
  have hinside : t.anchor.offset < width before := by
    have hstart := congrArg Span.start hplace
    simp only [f.span_toAttribute, Anchor.toDocument, Span.shift, Markup.Site.head, width_append,
      width_cons, show '<'.utf8Size = 1 from rfl] at hstart
    rw [hanchor]
    show width pre < width before
    omega
  rw [hsplit] at ht hedited ⊢
  obtain ⟨t', ht', hsame⟩ := exists_template_of_edited ht hinside new
  refine ⟨t, t', ht, ?_, hsame⟩
  rw [hedited]
  exact ht'

/-- An attribute behind a comment, a script that holds a template tag, and a quoted `>`. -/
theorem toggleActions_keep_template_script :
    let text := "<!--<template>--><script>'<template>'</script><template id='>' lang=HTML>".toList
      ++ "<a b></a></template>".toList
    let action := ToggleAction.addBinding ⟨73⟩ ⟨3, 4⟩ false
    action ∈ toggleActions (parseComponent text) ⟨76, 76⟩ false ∧
      ∃ t', (parseComponent (Edit.applyAll text action.edits)).template = some t' ∧
        t'.anchor = ⟨73⟩ ∧ t'.lang = some "HTML".toList := by
  intro text action
  have hmem : action ∈ toggleActions (parseComponent text) ⟨76, 76⟩ false := by decide +kernel
  have hread : (parseComponent text).template.map (fun t => (t.anchor, t.lang)) =
      some (⟨73⟩, some "HTML".toList) := by
    decide +kernel
  obtain ⟨t, t', ht, ht', hanchor, hlang⟩ := toggleActions_keep_template hmem
  rw [ht, Option.map_some, Option.some.injEq, Prod.mk.injEq] at hread
  exact ⟨hmem, t', ht', hanchor.trans hread.1, hlang.trans hread.2⟩

end BindingToggle
