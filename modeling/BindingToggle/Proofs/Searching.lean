import BindingToggle.Text.Basic

/-!
# Where a search stops

The readers look for the next occurrence of a mark: the end of a comment, the end of an
interpolation, or a tag of a given name in any ASCII case. The lemmas below say where such a search
stops in a text that is given as what stands before the mark, the mark, and what stands behind.

* `breakAt?_eq_some` — a search stops where its property holds for the first time.
* `breakOn?_commentEnd`, `breakOn?_interpolationEnd` — the first end of a comment, and the first end
  of an interpolation; the latter may come one character early, in front of `}}}`.
* `startsWithFolded_iff` — a mark in any case, as a spelling of it and what follows.
* `prefix_of_seam`, `exists_spelling_of_seam` — a mark with `<` at its beginning only is not read
  across the seam to a text that begins with `<`.
-/

namespace BindingToggle

namespace Text

/-- A search stops where its property holds for the first time. -/
theorem breakAt?_eq_some {p : Text → Bool} {before after : Text} (ha : p after = true)
    (hb : ∀ x y, before = x ++ y → y ≠ [] → p (y ++ after) = false) :
    breakAt? p (before ++ after) = some (before, after) := by
  induction before with
  | nil =>
    cases after with
    | nil => simp [breakAt?, ha]
    | cons c after => simp [breakAt?, ha]
  | cons c before ih =>
    have hc : p (c :: (before ++ after)) = false := hb [] (c :: before) rfl (by simp)
    have htail : breakAt? p (before ++ after) = some (before, after) := by
      apply ih
      intro x y hxy hy
      exact hb (c :: x) y (by rw [hxy, List.cons_append]) hy
    simp [breakAt?, hc, htail]

/-! ## Ends of passages -/

/-- A comment ends at the first `-->`. -/
theorem breakOn?_commentEnd {body : Text} (hb : ¬ "-->".toList <:+: body) (rest : Text) :
    breakOn? "-->".toList (body ++ ("-->".toList ++ rest)) =
      some (body, "-->".toList ++ rest) := by
  apply breakAt?_eq_some
  · exact List.isPrefixOf_iff_prefix.2 ⟨rest, rfl⟩
  · intro x y hxy hy
    rw [Bool.eq_false_iff]
    intro h
    obtain ⟨u, hu⟩ := List.isPrefixOf_iff_prefix.1 h
    -- a mark that begins in the body ends there too: only its last character is a `>`
    rcases y with _ | ⟨a, _ | ⟨b, _ | ⟨c, y⟩⟩⟩
    · exact hy rfl
    · simp at hu
    · simp at hu
    · simp only [String.reduceToList, List.cons_append, List.cons.injEq] at hu
      obtain ⟨rfl, rfl, rfl, -⟩ := hu
      exact hb ⟨x, y, by rw [hxy]; simp⟩

/-- An interpolation ends at the first pair of braces that close. -/
theorem breakOn?_braces {body : Text} (hb : ¬ "\x7d\x7d".toList <:+: body)
    (hl : body.getLast? ≠ some '}') (rest : Text) :
    breakOn? "\x7d\x7d".toList (body ++ ("\x7d\x7d".toList ++ rest)) =
      some (body, "\x7d\x7d".toList ++ rest) := by
  apply breakAt?_eq_some
  · exact List.isPrefixOf_iff_prefix.2 ⟨rest, rfl⟩
  · intro x y hxy hy
    rw [Bool.eq_false_iff]
    intro h
    obtain ⟨u, hu⟩ := List.isPrefixOf_iff_prefix.1 h
    rcases y with _ | ⟨a, _ | ⟨b, y⟩⟩
    · exact hy rfl
    · simp only [String.reduceToList, List.cons_append, List.cons.injEq] at hu
      obtain ⟨rfl, -⟩ := hu
      exact hl (by rw [hxy]; simp)
    · simp only [String.reduceToList, List.cons_append, List.cons.injEq] at hu
      obtain ⟨rfl, rfl, -⟩ := hu
      exact hb ⟨x, y, by rw [hxy]; simp⟩

/-- The end of an interpolation is found, with at most one brace left over behind it. -/
theorem breakOn?_interpolationEnd {body : Text} (hb : ¬ "\x7d\x7d".toList <:+: body) (rest : Text) :
    ∃ before left, (left = [] ∨ left = ['}']) ∧
      body ++ ("\x7d\x7d".toList ++ rest) = before ++ ("\x7d\x7d".toList ++ (left ++ rest)) ∧
      breakOn? "\x7d\x7d".toList (before ++ ("\x7d\x7d".toList ++ (left ++ rest))) =
        some (before, "\x7d\x7d".toList ++ (left ++ rest)) := by
  by_cases hl : body.getLast? = some '}'
  · obtain ⟨init, rfl⟩ := List.getLast?_eq_some_iff.1 hl
    refine ⟨init, ['}'], .inr rfl, by simp, breakOn?_braces ?_ ?_ _⟩
    · intro h
      exact hb (h.trans (List.prefix_append _ _).isInfix)
    · intro h
      obtain ⟨first, rfl⟩ := List.getLast?_eq_some_iff.1 h
      exact hb ⟨first, [], by simp⟩
  · exact ⟨body, [], .inl rfl, by simp, breakOn?_braces hb hl _⟩

/-! ## Marks in any case -/

@[simp] theorem lower_nil : lower [] = [] := rfl

@[simp] theorem lower_cons (c : Char) (t : Text) : lower (c :: t) = c.toLower :: lower t := rfl

@[simp] theorem lower_append (s t : Text) : lower (s ++ t) = lower s ++ lower t := List.map_append

@[simp] theorem length_lower (t : Text) : (lower t).length = t.length := List.length_map _

/-- The spellings of a text have the same length. -/
theorem length_eq_of_lower_eq {s t : Text} (h : lower s = lower t) : s.length = t.length := by
  rw [← length_lower s, h, length_lower]

theorem eqFolded_iff {s t : Text} : eqFolded s t = true ↔ lower s = lower t := beq_iff_eq

@[simp] theorem eqFolded_self (t : Text) : eqFolded t t = true := eqFolded_iff.2 rfl

/-- The letters are two ranges of characters. -/
theorem isAlpha_eq_ranges (c : Char) :
    c.isAlpha = (decide ('A'.val ≤ c.val ∧ c.val ≤ 'Z'.val) ||
      (decide ('a'.val ≤ c.val) && decide (c.val ≤ 'z'.val))) := rfl

/-- A character that is no letter has no other case. -/
theorem eq_of_toLower_eq {c d : Char} (hd : d.isAlpha = false) (h : c.toLower = d) : c = d := by
  unfold Char.toLower at h
  split at h
  · rename_i hupper
    subst h
    simp [isAlpha_eq_ranges] at hd
    grind
  · exact h

/-- A character that is no letter stands in all spellings of a text, or in none. -/
theorem mem_of_lower_eq {s t : Text} {c : Char} (hc : c.isAlpha = false) (hlow : c.toLower = c)
    (h : lower s = lower t) (hs : c ∈ s) : c ∈ t := by
  have hmem : c ∈ lower t := by
    rw [← h, ← hlow]
    exact List.mem_map_of_mem hs
  obtain ⟨d, hd, hdc⟩ := List.mem_map.1 hmem
  rwa [← eq_of_toLower_eq hc hdc]

/-- A text begins with a mark, in any case, when it is a spelling of the mark and what follows. -/
theorem startsWithFolded_iff {mark t : Text} :
    startsWithFolded mark t = true ↔ ∃ name after, t = name ++ after ∧ lower name = lower mark := by
  unfold startsWithFolded
  rw [List.isPrefixOf_iff_prefix]
  constructor
  · intro h
    refine ⟨t.take mark.length, t.drop mark.length, (List.take_append_drop _ _).symm, ?_⟩
    refine (h.eq_of_length_le ?_).symm
    simp only [length_lower, List.length_take]
    omega
  · rintro ⟨name, after, rfl, hname⟩
    exact ⟨[], by rw [List.append_nil, List.take_left' (length_eq_of_lower_eq hname), hname]⟩

/-- A mark with `<` at its beginning only is not read across the seam to a text that begins with
`<`. -/
theorem prefix_of_seam {mark y rest : Text} (hmark : '<' ∉ mark.tail) (hy : y ≠ [])
    (hrest : rest.head? = some '<') (h : mark <+: y ++ rest) : mark <+: y := by
  obtain ⟨after, heq⟩ := h
  rcases List.append_eq_append_iff.1 heq with ⟨x, rfl, -⟩ | ⟨x, rfl, hx⟩
  · exact List.prefix_append _ _
  · cases x with
    | nil => simp
    | cons d x =>
      -- the second `<` would be one of the mark
      obtain ⟨c, y, rfl⟩ := List.exists_cons_of_ne_nil hy
      rw [hx] at hrest
      obtain rfl : d = '<' := by simpa using hrest
      exact absurd (by simp) hmark

/-- The same for a mark in any case. -/
theorem exists_spelling_of_seam {mark y rest : Text} (hmark : '<' ∉ mark.tail) (hy : y ≠ [])
    (hrest : rest.head? = some '<') (h : startsWithFolded mark (y ++ rest) = true) :
    ∃ name after, y = name ++ after ∧ lower name = lower mark := by
  obtain ⟨name, after, heq, hname⟩ := startsWithFolded_iff.1 h
  have htail : '<' ∉ name.tail := by
    intro hin
    have hlower : lower name.tail = lower mark.tail := by
      rw [lower, List.map_tail, lower, List.map_tail]
      exact congrArg List.tail hname
    exact hmark (mem_of_lower_eq (by decide) (by decide) hlower hin)
  obtain ⟨after', rfl⟩ := prefix_of_seam htail hy hrest (heq ▸ List.prefix_append name after)
  exact ⟨name, after', rfl, hname⟩

end Text

end BindingToggle
