import BindingToggle.Proofs.Displacement
import BindingToggle.Proofs.Printing

/-!
# Templates one behind the other

A template that ends with a tag and has no issues is complete: no search for the end of a tag, a
comment, an interpolation or raw text runs beyond it, and no element is left open. So what follows
it is read as if it stood alone.

* `piece_extend` — a piece without an issue is read alike when more text follows. Only plain text
  goes on across the seam.
* `events_append` — the events of two texts one behind the other.
* `Builder.Complete` — what the absence of issues says of the events.
* `parseTemplate_append` — the trees and the issues of two templates one behind the other.
-/

namespace BindingToggle

open Text

/-! ## More text at the end -/

namespace Text

theorem breakAt?_append {p : Text → Bool} {n : Nat} (hp : Looks n p) {t before after : Text}
    (h : breakAt? p t = some (before, after)) (hn : n ≤ after.length) (x : Text) :
    breakAt? p (t ++ x) = some (before, after ++ x) := by
  have ht : t = before ++ (after ++ []) := by simpa using (append_of_breakAt? h).symm
  have hbroken : breakAt? p (before ++ (after ++ [])) = some (before, after ++ []) := by
    rw [← ht, h, List.append_nil]
  rw [ht, List.append_nil, List.append_assoc]
  exact breakAt?_congr hp hn hbroken x

end Text

namespace Cursor

/-- The same place when more text follows. -/
def extend (x : Text) (c : Cursor) : Cursor := ⟨c.offset, c.rest ++ x⟩

theorem skip_extend {n : Nat} {c : Cursor} (h : n ≤ c.rest.length) (x : Text) :
    (c.extend x).skip n = (c.skip n).extend x := by
  simp [skip, extend, List.take_append_of_le_length h, List.drop_append_of_le_length h]

theorem skipPast_extend {mark : Char} {c : Cursor} (h : mark ∈ c.rest) (x : Text) :
    (c.extend x).skipPast mark = (c.skipPast mark).extend x := by
  obtain ⟨offset, t⟩ := c
  rcases exists_mark mark t with hn | ⟨before, after, rfl, hn⟩
  · exact absurd h hn
  · simp only [extend, List.append_assoc, List.cons_append]
    rw [skipPast_mark hn, skipPast_mark hn]

theorem find?_extend {needle : Text} {c d : Cursor} (h : c.find? needle = some d) (x : Text) :
    (c.extend x).find? needle = some (d.extend x) := by
  obtain ⟨⟨before, after⟩, hb, rfl⟩ := Option.map_eq_some_iff.1 h
  have hlen : needle.length ≤ after.length :=
    (List.isPrefixOf_iff_prefix.1 (holds_of_breakAt? hb)).length_le
  have hx := breakAt?_append (looks_isPrefixOf needle) hb hlen x
  simp only [find?, breakOn?, extend, hx, Option.map_some]

theorem findFolded?_extend {needle : Text} {c d : Cursor} (h : c.findFolded? needle = some d)
    (x : Text) : (c.extend x).findFolded? needle = some (d.extend x) := by
  obtain ⟨⟨before, after⟩, hb, rfl⟩ := Option.map_eq_some_iff.1 h
  have hlen : needle.length ≤ after.length := by
    obtain ⟨spelling, rest, rfl, hspelling⟩ := startsWithFolded_iff.1 (holds_of_breakAt? hb)
    have := length_eq_of_lower_eq hspelling
    rw [List.length_append]
    omega
  have hx := breakAt?_append (looks_startsWithFolded needle) hb hlen x
  simp only [findFolded?, breakOnFolded?, extend, hx, Option.map_some]

theorem skipWhile_extend {p : Char → Bool} {c : Cursor} (h : (c.skipWhile p).rest ≠ [])
    (x : Text) : (c.extend x).skipWhile p = (c.skipWhile p).extend x := by
  obtain ⟨offset, t⟩ := c
  obtain ⟨run, rest, rfl, hrun, hstop⟩ := exists_run p t
  rw [skipWhile_run hrun hstop] at h ⊢
  obtain ⟨d, v, rfl⟩ := List.exists_cons_of_ne_nil h
  simp only [extend, List.append_assoc, List.cons_append]
  exact skipWhile_run hrun (stops_cons.2 (stops_cons.1 hstop)) offset

/-- A run of characters of a class goes on in the text that follows it. -/
theorem skipWhile_append {p : Char → Bool} {run : Text} (h : ∀ c ∈ run, p c = true) (x : Text)
    (offset : Nat) :
    (Cursor.mk offset (run ++ x)).skipWhile p = (Cursor.mk (offset + width run) x).skipWhile p := by
  simp [skipWhile, List.takeWhile_append_of_pos h, List.dropWhile_append_of_pos h, Nat.add_assoc]

end Cursor

namespace Markup

/-- The text ends with a tag, or is empty. -/
def EndsTag (t : Text) : Prop := ∀ c, t.getLast? = some c → c = '>'

theorem EndsTag.of_append {s t : Text} (h : EndsTag (s ++ t)) : EndsTag t := by
  intro c hc
  exact h c (by rw [List.getLast?_append, hc]; rfl)

/-- What begins at a place in front of the end of a tag does not depend on what follows that. -/
theorem markOf_extend {t : Text} (ht : t ≠ []) (h : EndsTag t) (x : Text) :
    markOf (t ++ x) = markOf t := by
  obtain ⟨a, t, rfl⟩ := List.exists_cons_of_ne_nil ht
  by_cases hplain : isPlain a = true
  · exact (markOf_text hplain _).trans (markOf_text hplain _).symm
  have hmark : a = '<' ∨ a = '{' := by
    by_cases hless : a = '<'
    · exact .inl hless
    · exact .inr (by simpa [isPlain, hless] using hplain)
  -- four characters are enough; fewer of them end with the tag
  rcases t with _ | ⟨b, _ | ⟨c, _ | ⟨d, t⟩⟩⟩
  · obtain rfl := h a rfl
    rfl
  · obtain rfl := h b rfl
    rcases hmark with rfl | rfl <;> rfl
  · obtain rfl := h c rfl
    rcases hmark with rfl | rfl
    · by_cases hb : b = '!'
      · subst hb
        rfl
      · simp only [List.cons_append, markOf]
        grind
    · by_cases hb : b = '{'
      · subst hb
        rfl
      · simp [markOf, hb]
  · exact markOf_congr a b c d _ _

/-- How many characters tell what begins at a place. -/
def Mark.size : Mark → Nat
  | comment => 4
  | text => 0
  | _ => 2

theorem size_markOf_le (t : Text) : (markOf t).size ≤ t.length := by
  fun_cases markOf t <;> simp_all [Mark.size]

/-- A closing tag and a declaration end behind a `>` that is not one of their first two
characters. -/
theorem mem_of_markOf {t : Text} (hm : markOf t = .closing ∨ markOf t = .declaration)
    (h : EndsTag t) : '>' ∈ t.drop 2 := by
  have hshape : ∃ a b u, t = a :: b :: u ∧ b ≠ '>' := by
    fun_cases markOf t <;> simp_all [markOf]
  obtain ⟨a, b, u, rfl, hb⟩ := hshape
  rcases List.eq_nil_or_concat' u with rfl | ⟨v, c, rfl⟩
  · exact absurd (h b rfl) hb
  · have hlast : (a :: b :: v ++ [c]).getLast? = some c := List.getLast?_concat
    obtain rfl := h c hlast
    simp

/-! ## Pieces -/

/-- Nothing is wrong with what has been read. -/
def NoIssue (es : List Event) : Prop := ∀ i, Event.issue i ∉ es

/-- What was read, with more text behind it. -/
def extendRead (x : Text) (r : List Event × Cursor) : List Event × Cursor := (r.1, r.2.extend x)

theorem passage_extend {n : Nat} {close : Text} {problem : Problem} {c : Cursor}
    (hn : n ≤ c.rest.length) (h : NoIssue (passage n close problem c).1) (x : Text) :
    passage n close problem (c.extend x) = extendRead x (passage n close problem c) := by
  unfold passage at h ⊢
  rw [Cursor.skip_extend hn]
  cases hf : (c.skip n).find? close with
  | none =>
    simp only [hf] at h
    exact absurd (List.mem_singleton.2 rfl) (h _)
  | some found =>
    have hlen : close.length ≤ found.rest.length := by
      obtain ⟨⟨before, after⟩, hb, rfl⟩ := Option.map_eq_some_iff.1 hf
      exact (List.isPrefixOf_iff_prefix.1 (holds_of_breakAt? hb)).length_le
    simp only [Cursor.find?_extend hf, Cursor.skip_extend hlen]
    rfl

theorem skipRawText_extend {tag : Text} {c : Cursor} (h : (skipRawText tag c).rest ≠ [])
    (x : Text) : skipRawText tag (c.extend x) = (skipRawText tag c).extend x := by
  unfold skipRawText at h ⊢
  cases hf : c.findFolded? ('<' :: '/' :: tag) with
  | none =>
    rw [hf] at h
    exact absurd rfl h
  | some d =>
    rw [Cursor.findFolded?_extend hf]
    rfl

/-- A start tag that ends, with raw text behind it that ends. -/
theorem TagForm.events_extend {f : TagForm} (hclosed : f.ending ≠ .missing) {tag rest : Text}
    {start offset : Nat}
    (hopen : ∀ tag' start' attributes,
      ((f.body offset rest).events tag start).1.getLast? =
        some (.opening tag' start' attributes) →
      ((f.body offset rest).events tag start).2.rest ≠ []) (x : Text) :
    (f.body offset (rest ++ x)).events tag start =
      extendRead x ((f.body offset rest).events tag start) := by
  unfold TagBody.events at hopen ⊢
  simp only [TagForm.body] at hopen ⊢
  cases he : f.ending with
  | missing => exact absurd he hclosed
  | selfClosing => rfl
  | complete =>
    simp only [he] at hopen ⊢
    split
    · rfl
    · rename_i hvoid
      simp only [hvoid, if_false, Bool.false_eq_true] at hopen
      split
      · rename_i hraw
        have hne := hopen tag start _ (List.getLast?_concat)
        simp only [hraw, if_true] at hne
        have hskip := skipRawText_extend hne x
        simp only [extendRead, ← hskip]
        rfl
      · rfl

theorem startTag_extend {t : Text} {offset : Nat}
    (hissue : NoIssue (startTag ⟨offset, '<' :: t⟩).1)
    (hopen : ∀ tag start attributes,
      (startTag ⟨offset, '<' :: t⟩).1.getLast? = some (.opening tag start attributes) →
      (startTag ⟨offset, '<' :: t⟩).2.rest ≠ []) (x : Text) :
    startTag ⟨offset, '<' :: t ++ x⟩ = extendRead x (startTag ⟨offset, '<' :: t⟩) := by
  obtain ⟨tag, f, rest, rfl, htag, hstop, hf⟩ := exists_startTag t
  rw [startTag_form htag hstop hf] at hissue hopen ⊢
  have hclosed : f.ending ≠ .missing := by
    intro he
    simp only [TagBody.events, TagForm.body, he] at hissue
    exact hissue _ (List.mem_append_right _ List.mem_cons_self)
  have hstop' : Stops isTagPart (f.text ++ (rest ++ x)) := by
    obtain ⟨c, v, hv⟩ := List.exists_cons_of_ne_nil (TagForm.text_ne_nil hclosed)
    rw [hv] at hstop ⊢
    exact stops_cons.2 (stops_cons.1 hstop)
  have htext : '<' :: (tag ++ (f.text ++ rest)) ++ x = '<' :: (tag ++ (f.text ++ (rest ++ x))) := by
    simp
  rw [htext, startTag_form htag hstop' (hf.replace hclosed _), TagForm.events_extend hclosed hopen]

/-- **A piece without an issue is read alike when more text follows**, unless it is plain text that
goes on. -/
theorem piece_extend {c : Cursor} (hc : c.rest ≠ []) (hends : EndsTag c.rest)
    (hissue : NoIssue (piece c).1)
    (hopen : ∀ tag start attributes, (piece c).1.getLast? = some (.opening tag start attributes) →
      (piece c).2.rest ≠ [])
    (htext : markOf c.rest = .text → (piece c).2.rest ≠ []) (x : Text) :
    piece (c.extend x) = extendRead x (piece c) := by
  have hmark : markOf (c.extend x).rest = markOf c.rest := markOf_extend hc hends x
  have hsize := size_markOf_le c.rest
  rw [piece_eq] at hissue hopen htext
  rw [piece_eq, piece_eq, hmark]
  cases hm : markOf c.rest <;> simp only [hm, Mark.size] at hissue hopen htext hsize ⊢
  case comment => exact passage_extend hsize hissue x
  case interpolation => exact passage_extend hsize hissue x
  case closing =>
    have hmem : '>' ∈ (c.skip 2).rest := mem_of_markOf (.inl hm) hends
    have hname : ((c.skip 2).rest ++ x).takeWhile isTagPart = (c.skip 2).rest.takeWhile isTagPart := by
      obtain ⟨u, v, huv⟩ := List.append_of_mem hmem
      simp only [huv, List.append_assoc, List.cons_append]
      exact takeWhile_before (by decide) _ _ _
    simp only [closingTag, Cursor.skip_extend hsize, Cursor.skipPast_extend hmem]
    simp only [extendRead, Cursor.extend, hname]
  case declaration =>
    have hmem : '>' ∈ (c.skip 2).rest := mem_of_markOf (.inr hm) hends
    rw [Cursor.skip_extend hsize, Cursor.skipPast_extend hmem]
    rfl
  case start =>
    obtain ⟨offset, t⟩ := c
    obtain ⟨first, u, hu, -⟩ := cons_of_markOf_start hm
    simp only at hu
    subst hu
    exact startTag_extend hissue hopen x
  case text =>
    have hone : 1 ≤ c.rest.length := List.length_pos_iff.2 hc
    simp only [piece.skipText, Cursor.skip_extend hone, extendRead]
    rw [Cursor.skipWhile_extend (htext trivial)]

/-! ## Events -/

theorem skipText_cons (offset : Nat) (first : Char) (t : Text) :
    piece.skipText ⟨offset, first :: t⟩ =
      (Cursor.mk (offset + first.utf8Size) t).skipWhile isPlain := by
  rw [piece.skipText, Cursor.skip_one]
  rfl

/-- Plain text leaves no events. -/
theorem events_skipWhile (c : Cursor) : events (c.skipWhile isPlain) = events c := by
  obtain ⟨offset, t⟩ := c
  rcases t with _ | ⟨first, t⟩
  · rfl
  · by_cases hfirst : isPlain first = true
    · have hrun : ∀ c ∈ [first], isPlain c = true := by simpa using hfirst
      have hskip : (Cursor.mk offset (first :: t)).skipWhile isPlain =
          (Cursor.mk (offset + first.utf8Size) t).skipWhile isPlain :=
        Cursor.skipWhile_append hrun t offset
      have hevents : events ⟨offset, first :: t⟩ =
          events ((Cursor.mk (offset + first.utf8Size) t).skipWhile isPlain) := by
        rw [events_of_ne_nil (by simp), piece_eq, markOf_text hfirst, skipText_cons]
        rfl
      rw [hskip, hevents]
    · have hskip : (Cursor.mk offset (first :: t)).skipWhile isPlain = ⟨offset, first :: t⟩ := by
        simp [Cursor.skipWhile, hfirst]
      rw [hskip]

/-- Plain text that goes on leaves the events of what follows it. -/
theorem events_text {c : Cursor} (hc : c.rest ≠ []) (hends : EndsTag c.rest)
    (hm : markOf c.rest = .text) (hrest : (piece c).2.rest = []) (x : Text) :
    events (c.extend x) = events ⟨c.offset + width c.rest, x⟩ := by
  have hmark : markOf (c.extend x).rest = .text := (markOf_extend hc hends x).trans hm
  have hne : (c.extend x).rest ≠ [] := by simp [Cursor.extend, hc]
  obtain ⟨offset, t⟩ := c
  obtain ⟨first, u, rfl⟩ := List.exists_cons_of_ne_nil hc
  have hrun : ∀ ch ∈ u, isPlain ch = true := by
    obtain ⟨run, rest, rfl, hrun, hstop⟩ := exists_run isPlain u
    rw [piece_eq, hm] at hrest
    simp only [skipText_cons, Cursor.skipWhile_run hrun hstop] at hrest
    rwa [hrest, List.append_nil]
  rw [events_of_ne_nil hne, piece_eq, hmark]
  simp only [Cursor.extend, List.cons_append, skipText_cons, List.nil_append]
  rw [Cursor.skipWhile_append hrun, events_skipWhile, width_cons, Nat.add_assoc]

/-- **The events of two texts one behind the other**, when the first one ends with a tag, without an
issue, and not with an element that it opens. -/
theorem events_append {c : Cursor} (hends : EndsTag c.rest) (hissue : NoIssue (events c))
    (hopen : ∀ tag start attributes,
      (events c).getLast? ≠ some (.opening tag start attributes)) (x : Text) :
    events (c.extend x) = events c ++ events ⟨c.offset + width c.rest, x⟩ := by
  fun_induction events c with
  | case1 c hc => simp [Cursor.extend, hc]
  | case2 c hc ih =>
    obtain ⟨front, hfront, -⟩ := reaches_piece c
    have hends' : EndsTag (piece c).2.rest := by
      rw [hfront] at hends
      exact hends.of_append
    have hissue₁ : NoIssue (piece c).1 := fun i hi => hissue i (List.mem_append_left _ hi)
    have hissue₂ : NoIssue (events (piece c).2) :=
      fun i hi => hissue i (List.mem_append_right _ hi)
    have hnil : (piece c).2.rest = [] → events (piece c).2 = [] := by
      intro hrest
      rw [events, dif_pos hrest]
    have hopen₁ : ∀ tag start attributes,
        (piece c).1.getLast? = some (.opening tag start attributes) →
        (piece c).2.rest ≠ [] := by
      intro tag start attributes hlast hrest
      refine hopen tag start attributes ?_
      rw [hnil hrest, List.append_nil, hlast]
    have hopen₂ : ∀ tag start attributes,
        (events (piece c).2).getLast? ≠ some (.opening tag start attributes) := by
      intro tag start attributes hlast
      refine hopen tag start attributes ?_
      rw [List.getLast?_append, hlast]
      rfl
    by_cases hseam : markOf c.rest = .text ∧ (piece c).2.rest = []
    · have hpiece : (piece c).1 = [] := by rw [piece_eq, hseam.1]
      rw [events_text hc hends hseam.1 hseam.2, hpiece, hnil hseam.2]
      rfl
    · have hpiece := piece_extend hc hends hissue₁ hopen₁ (fun hm hrest => hseam ⟨hm, hrest⟩) x
      have hne : (c.extend x).rest ≠ [] := by simp [Cursor.extend, hc]
      rw [events_of_ne_nil hne, hpiece, ← (reaches_piece c).end_eq, List.append_assoc]
      exact congrArg _ (ih hends' hissue₂ hopen₂)

end Markup

/-! ## Forests -/

namespace Builder

theorem issues_add (e : Element) (b : Builder) : (b.add e).issues = b.issues := by
  obtain ⟨_ | ⟨o, below⟩, roots, issues⟩ := b <;> rfl

theorem issues_close (stop : Nat) (b : Builder) : (b.close stop).issues = b.issues := by
  obtain ⟨_ | ⟨o, below⟩, roots, issues⟩ := b
  · rfl
  · exact issues_add _ _

theorem issues_abandon {o : OpenElement} {below : List OpenElement} {b : Builder}
    (hb : b.stack = o :: below) (stop : Nat) :
    (b.abandon stop).issues = o.unclosed :: b.issues := by
  simp only [abandon, hb, issues_add]
  rfl

theorem issues_abandonMany (stop count : Nat) (b : Builder) :
    b.issues <:+ (b.abandonMany stop count).issues := by
  induction count generalizing b with
  | zero => exact List.suffix_rfl
  | succ count ih =>
    refine List.IsSuffix.trans ?_ (ih (b.abandon stop))
    cases hb : b.stack with
    | nil => simp [abandon, hb]
    | cons o below =>
      rw [issues_abandon hb]
      exact List.suffix_cons _ _

/-- **No step takes an issue back.** -/
theorem issues_step (b : Builder) (e : Markup.Event) : b.issues <:+ (b.step e).issues := by
  cases e with
  | issue i => exact List.suffix_cons _ _
  | leaf e => rw [step, issues_add]
  | opening tag start attributes => exact List.suffix_rfl
  | closing tag span =>
    simp only [step, closeTag]
    split
    · exact List.suffix_cons _ _
    · rw [issues_close]
      exact issues_abandonMany _ _ b

theorem issues_foldl (es : List Markup.Event) (b : Builder) :
    b.issues <:+ (es.foldl step b).issues := by
  induction es generalizing b with
  | nil => exact List.suffix_rfl
  | cons e es ih => exact (issues_step b e).trans (ih _)

/-- Events that leave neither an issue nor an open element. -/
structure Complete (es : List Markup.Event) : Prop where
  noIssue : Markup.NoIssue es
  closed : ∀ tag start attributes, es.getLast? ≠ some (.opening tag start attributes)
  built : es.foldl step empty = ⟨[], (es.foldl step empty).roots, []⟩

theorem complete_of_issues {es : List Markup.Event} {stop : Nat}
    (h : ((es.foldl step empty).finish stop).issues = []) : Complete es := by
  have hissues : (es.foldl step empty).issues = [] :=
    List.suffix_nil.1 (h ▸ issues_abandonMany stop _ _)
  have hstack : (es.foldl step empty).stack = [] := by
    cases hs : (es.foldl step empty).stack with
    | nil => rfl
    | cons o below =>
      -- the innermost open element would be reported at the end
      have hsuffix := issues_abandonMany stop below.length ((es.foldl step empty).abandon stop)
      rw [finish, hs] at h
      rw [issues_abandon hs] at hsuffix
      rw [List.length_cons, abandonMany] at h
      rw [h] at hsuffix
      exact absurd (List.suffix_nil.1 hsuffix) (by simp)
  refine ⟨fun i hi => ?_, fun tag start attributes hlast => ?_, ?_⟩
  · obtain ⟨front, back, rfl⟩ := List.append_of_mem hi
    rw [List.foldl_append, List.foldl_cons] at hissues
    have hsuffix := issues_foldl back ((front.foldl step empty).step (.issue i))
    rw [hissues] at hsuffix
    exact absurd (List.suffix_nil.1 hsuffix) (by simp [step, report])
  · obtain ⟨front, rfl⟩ := List.getLast?_eq_some_iff.1 hlast
    rw [List.foldl_append] at hstack
    cases hstack
  · generalize es.foldl step empty = b at hissues hstack
    obtain ⟨stack, roots, issues⟩ := b
    cases hissues
    cases hstack
    rfl

end Builder

/-- **A template behind another one is read as if it stood alone**, when the first one is empty, or
ends with a tag and has no issues. -/
theorem parseTemplate_append {a b : Text}
    (h : a = [] ∨ a.getLast? = some '>' ∧ (parseTemplate a).issues = []) :
    parseTemplate (a ++ b) =
      ⟨(parseTemplate a).roots ++ (parseTemplate b).roots.map (Element.shift (width a)),
        (parseTemplate b).issues.map (Issue.shift (width a))⟩ := by
  have hends : Markup.EndsTag a := by
    intro c hc
    rcases h with rfl | ⟨hlast, -⟩
    · cases hc
    · exact Option.some.inj (hc.symm.trans hlast)
  have hissues : (parseTemplate a).issues = [] := by
    rcases h with rfl | ⟨-, hissues⟩
    · rw [parseTemplate, Markup.events]
      rfl
    · exact hissues
  have hcomplete := Builder.complete_of_issues (List.reverse_eq_nil_iff.1 hissues)
  generalize hroots : ((Markup.events ⟨0, a⟩).foldl Builder.step Builder.empty).roots = roots
  have hbuilt : (Markup.events ⟨0, a⟩).foldl Builder.step Builder.empty =
      Builder.empty.shift (width a) roots := hroots ▸ hcomplete.built
  have hevents : Markup.events ⟨0, a ++ b⟩ =
      Markup.events ⟨0, a⟩ ++ (Markup.events ⟨0, b⟩).map (Markup.Event.shift (width a)) := by
    rw [← Markup.events_shift]
    exact Markup.events_append hends hcomplete.noIssue hcomplete.closed b
  have hfront : (parseTemplate a).roots = roots.reverse := by
    simp only [parseTemplate, hbuilt]
    rfl
  rw [hfront]
  simp only [parseTemplate, hevents, List.foldl_append, hbuilt, ← Builder.foldl_shift]
  rw [width_append, Nat.add_comm, ← Builder.finish_shift]
  simp [Builder.shift]

/-- A fragment that ends with plain text, and one with a closing tag too many. -/
theorem parseTemplate_append_text :
    "<br>\x7b>".toList.getLast? = some '>' ∧ (parseTemplate "<br>\x7b>".toList).issues = [] ∧
      parseTemplate ("<br>\x7b>".toList ++ "x<i></p>".toList) =
        ⟨(parseTemplate "<br>\x7b>".toList).roots ++
            (parseTemplate "x<i></p>".toList).roots.map (Element.shift 6),
          (parseTemplate "x<i></p>".toList).issues.map (Issue.shift 6)⟩ := by
  have hlast : "<br>\x7b>".toList.getLast? = some '>' := by decide
  have hissues : (parseTemplate "<br>\x7b>".toList).issues = [] := by decide +kernel
  exact ⟨hlast, hissues, parseTemplate_append (.inr ⟨hlast, hissues⟩)⟩

end BindingToggle
