/-!
# Text measured in bytes

A text is a list of characters, and every offset into one counts UTF-8 bytes.

* `width t` — the number of bytes that `t` takes up; `width_append` makes it additive.
* `splitAt? n t` — the two sides of offset `n`, when `n` falls between two characters;
  `splitAt?_eq_some_iff` says that these are exactly the splits `t = before ++ after` with
  `width before = n`.
* `slice? t a b` — the characters between two offsets, when both fall between characters.
* `breakOn? needle t` — what stands before the first occurrence of `needle`, and the text from it
  on; `append_of_breakAt?` says that nothing is lost.
* `startsWithFolded`, `eqFolded` — comparison up to the case of ASCII letters.
-/

namespace BindingToggle

/-- A source text, as its characters in order. -/
abbrev Text := List Char

namespace Text

/-! ## Width -/

/-- The number of UTF-8 bytes of a text. -/
def width : Text → Nat
  | [] => 0
  | c :: t => c.utf8Size + width t

@[simp] theorem width_nil : width [] = 0 := rfl

@[simp] theorem width_cons (c : Char) (t : Text) : width (c :: t) = c.utf8Size + width t := rfl

@[simp] theorem width_append (s t : Text) : width (s ++ t) = width s + width t := by
  induction s with
  | nil => simp
  | cons c s ih => simp [ih, Nat.add_assoc]

/-- Only the empty text has no bytes. -/
theorem width_eq_zero_iff {t : Text} : width t = 0 ↔ t = [] := by
  cases t with
  | nil => simp
  | cons c t =>
    have := c.utf8Size_pos
    simp only [width_cons, reduceCtorEq, iff_false]
    omega

/-! ## Splitting at an offset -/

/-- The text before byte `n` and the text from there on; nothing when `n` lies past the end or
inside a character. -/
def splitAt? : Nat → Text → Option (Text × Text)
  | 0, t => some ([], t)
  | _ + 1, [] => none
  | n + 1, c :: t =>
    if c.utf8Size ≤ n + 1 then
      (splitAt? (n + 1 - c.utf8Size) t).map fun sides => (c :: sides.1, sides.2)
    else none
termination_by structural _ t => t

theorem splitAt?_width_append (s t : Text) : splitAt? (width s) (s ++ t) = some (s, t) := by
  induction s with
  | nil => simp [splitAt?]
  | cons c s ih =>
    have hc := c.utf8Size_pos
    obtain ⟨n, hn⟩ : ∃ n, width (c :: s) = n + 1 := ⟨c.utf8Size + width s - 1, by simp; omega⟩
    have hs : n + 1 - c.utf8Size = width s := by simp at hn; omega
    rw [hn, List.cons_append, splitAt?, if_pos (by simp at hn; omega), hs, ih]
    rfl

theorem append_of_splitAt? {n : Nat} {t before after : Text}
    (h : splitAt? n t = some (before, after)) : t = before ++ after ∧ width before = n := by
  fun_induction splitAt? n t generalizing before after with
  | case1 t => simp at h; obtain ⟨rfl, rfl⟩ := h; simp
  | case2 => simp at h
  | case3 n c t hc ih =>
    obtain ⟨⟨b, a⟩, hs, he⟩ := Option.map_eq_some_iff.1 h
    obtain ⟨rfl, hw⟩ := ih hs
    simp only [Prod.mk.injEq] at he
    obtain ⟨rfl, rfl⟩ := he
    refine ⟨by simp, ?_⟩
    simp only [width_cons]
    omega
  | case4 => simp at h

/-- **Splitting at an offset** finds exactly the split whose first part has that many bytes. -/
theorem splitAt?_eq_some_iff {n : Nat} {t before after : Text} :
    splitAt? n t = some (before, after) ↔ t = before ++ after ∧ width before = n := by
  constructor
  · exact append_of_splitAt?
  · rintro ⟨rfl, rfl⟩
    exact splitAt?_width_append before after

/-- The characters between the offsets `a` and `b`; nothing when they are out of order, out of
range or inside a character. -/
def slice? (t : Text) (a b : Nat) : Option Text :=
  if a ≤ b then
    match splitAt? a t with
    | none => none
    | some (_, after) => (splitAt? (b - a) after).map (·.1)
  else none

/-! ## Searching -/

/-- The text before the first place at which `p` holds of the text from there on, and that text. -/
def breakAt? (p : Text → Bool) : Text → Option (Text × Text)
  | [] => if p [] then some ([], []) else none
  | c :: t =>
    if p (c :: t) then some ([], c :: t)
    else (breakAt? p t).map fun sides => (c :: sides.1, sides.2)

/-- Breaking a text loses nothing. -/
theorem append_of_breakAt? {p : Text → Bool} {t before after : Text}
    (h : breakAt? p t = some (before, after)) : before ++ after = t := by
  induction t generalizing before with
  | nil =>
    simp only [breakAt?] at h
    split at h <;> simp at h
    obtain ⟨rfl, rfl⟩ := h; rfl
  | cons c t ih =>
    simp only [breakAt?] at h
    split at h
    · simp at h; obtain ⟨rfl, rfl⟩ := h; rfl
    · obtain ⟨⟨b, a⟩, hs, he⟩ := Option.map_eq_some_iff.1 h
      simp only [Prod.mk.injEq] at he
      obtain ⟨rfl, rfl⟩ := he
      simp [ih hs]

/-- The text before the first occurrence of `needle`, and the text from that occurrence on. -/
def breakOn? (needle : Text) : Text → Option (Text × Text) := breakAt? needle.isPrefixOf

/-! ## ASCII case -/

/-- The text with its ASCII letters in lower case. -/
def lower (t : Text) : Text := t.map Char.toLower

/-- Whether two texts agree up to the case of ASCII letters. -/
def eqFolded (s t : Text) : Bool := lower s == lower t

/-- Whether `t` begins with `needle`, up to the case of ASCII letters. -/
def startsWithFolded (needle : Text) (t : Text) : Bool :=
  (lower needle).isPrefixOf (lower (t.take needle.length))

/-- The text before the first occurrence of `needle` in any ASCII case, and the text from that
occurrence on. -/
def breakOnFolded? (needle : Text) : Text → Option (Text × Text) :=
  breakAt? (startsWithFolded needle)

end Text

end BindingToggle
