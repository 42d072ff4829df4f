import BindingToggle.Text.Basic

/-!
# Blanks

Two classes of blank characters. `isBlank` is the Unicode property White_Space. `isMarkupBlank`
is the smaller class that separates the parts of a tag: tab, line feed, form feed, carriage return
and space, but not the vertical tab. `isBlank_of_isMarkupBlank` says that the second class lies in
the first.

Models the classes `is_whitespace` and `is_ascii_whitespace`.
-/

namespace BindingToggle

namespace Text

/-- Characters with the property White_Space. -/
def isBlank (c : Char) : Bool :=
  let n := c.toNat
  (0x9 ≤ n && n ≤ 0xd) || n == 0x20 || n == 0x85 || n == 0xa0 || n == 0x1680 ||
    (0x2000 ≤ n && n ≤ 0x200a) || n == 0x2028 || n == 0x2029 || n == 0x202f || n == 0x205f ||
    n == 0x3000

/-- The blanks of markup: tab, line feed, form feed, carriage return, space. -/
def isMarkupBlank (c : Char) : Bool :=
  let n := c.toNat
  n == 0x9 || n == 0xa || n == 0xc || n == 0xd || n == 0x20

theorem isBlank_of_isMarkupBlank {c : Char} (h : isMarkupBlank c = true) : isBlank c = true := by
  simp only [isMarkupBlank, isBlank, Bool.or_eq_true, Bool.and_eq_true, beq_iff_eq,
    decide_eq_true_eq] at h ⊢
  omega

/-- The text without its leading blanks. -/
def trimLeft (t : Text) : Text := t.dropWhile isBlank

/-- The text without its leading and trailing blanks. -/
def trim (t : Text) : Text := ((trimLeft t).reverse.dropWhile isBlank).reverse

end Text

end BindingToggle
