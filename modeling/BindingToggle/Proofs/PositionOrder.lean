import BindingToggle.Proofs.LinePositions
import BindingToggle.Proofs.Slices
import Mathlib.Data.Prod.Lex
import Mathlib.Order.Bounds.Basic

/-!
# The order of positions

Positions are ordered by line, and on one line by column. Going ahead in a text leads to larger
positions, as long as their counts fit into 32 bits, and a larger position never leads back.

* `Position.key` — a position as a pair in this order.
* `endKey_lt_append` — line and column, counted without a limit, grow with the text.
* `exists_positionAt_eq` — the position of an offset is that of the last place between two
  characters that is not behind it.
* `offsetFrom_mono` — of two positions, the larger one does not have the smaller offset, whichever
  of them lie behind the end of a line or of the text.
* `positions_return` — every position resolves to the offset that it was made from, but for an
  offset that cuts a line break.
* `positions_ordered` — both directions keep the order, and always give a place of the text.
-/

namespace BindingToggle

/-! ## Positions in order -/

namespace Position

/-- The position as a pair, ordered by line first. -/
def key (p : Position) : ℕ ×ₗ ℕ := toLex (p.line, p.character)

theorem key_le_iff {p q : Position} :
    p.key ≤ q.key ↔ p.line < q.line ∨ p.line = q.line ∧ p.character ≤ q.character :=
  Prod.Lex.toLex_le_toLex

end Position

namespace Text

/-- The line and the column in which a text ends, in the order of positions. -/
def endKey (t : Text) : ℕ ×ₗ ℕ := toLex (t.count '\n', columns (lastLine t))

theorem key_eq_endKey {p : Position} {t : Text} (h : p.Counts t) : p.key = endKey t := by
  rw [Position.key, h.line, h.character, endKey]

theorem endKey_lt_concat (t : Text) (c : Char) : endKey t < endKey (t ++ [c]) := by
  have hunits := units16_pos c
  rw [endKey, endKey, Prod.Lex.toLex_lt_toLex, List.count_append, lastLine_concat]
  by_cases hc : c = '\n'
  · left
    simp [hc]
  · right
    simp [hc, columns_append, columns_cons, columns_nil, hunits]

/-- Going ahead leads to a larger position. -/
theorem endKey_lt_append (t : Text) {ahead : Text} (h : ahead ≠ []) :
    endKey t < endKey (t ++ ahead) := by
  induction ahead using List.reverseRecOn with
  | nil => exact absurd rfl h
  | append_singleton ahead c ih =>
    rw [← List.append_assoc]
    by_cases hnil : ahead = []
    · rw [hnil, List.append_nil]
      exact endKey_lt_concat t c
    · exact (ih hnil).trans (endKey_lt_concat (t ++ ahead) c)

theorem strictMonoOn_positionAt {t : Text} (hsize : width t < 2 ^ 32) :
    StrictMonoOn (fun n => (positionAt t n).key) {n | IsBoundary t n} := by
  intro m hm n hn hlt
  show (positionAt t m).key < (positionAt t n).key
  rw [key_eq_endKey (counts_positionAt hsize m), key_eq_endKey (counts_positionAt hsize n)]
  obtain ⟨before, after, rfl, rfl⟩ := hm
  obtain ⟨between, rest, rfl, rfl⟩ := exists_append_of_le rfl hn hlt.le
  rw [← width_append, ← List.append_assoc, upTo_append, List.append_assoc, upTo_append]
  refine endKey_lt_append before ?_
  rintro rfl
  simp at hlt

/-! ## Offsets between characters -/

/-- The characters up to an offset are those up to the last boundary at or in front of it: the next
character ends behind the offset. -/
theorem exists_upTo (t : Text) (offset : Nat) :
    ∃ after, t = upTo offset t ++ after ∧ width (upTo offset t) ≤ offset ∧
      ∀ c, after.head? = some c → offset < width (upTo offset t) + c.utf8Size := by
  fun_induction upTo offset t with
  | case1 => exact ⟨[], rfl, Nat.zero_le _, by rintro c ⟨⟩⟩
  | case2 offset c t hc ih =>
    obtain ⟨after, ht, hle, hnext⟩ := ih
    refine ⟨after, congrArg (c :: ·) ht, ?_, ?_⟩
    · rw [width_cons]
      omega
    · intro d hd
      have hd := hnext d hd
      rw [width_cons]
      omega
  | case3 offset c t hc =>
    refine ⟨c :: t, rfl, Nat.zero_le _, ?_⟩
    intro d hd
    cases hd
    rw [width_nil]
    omega

theorem isGreatest_floor {before after : Text} {offset : Nat} (hle : width before ≤ offset)
    (hnext : ∀ c, after.head? = some c → offset < width before + c.utf8Size) :
    IsGreatest {n | IsBoundary (before ++ after) n ∧ n ≤ min offset (width (before ++ after))}
      (width before) := by
  have hwidth := width_append before after
  refine ⟨⟨⟨before, after, rfl, rfl⟩, by omega⟩, ?_⟩
  rintro n ⟨hn, hmin⟩
  by_contra hlt
  obtain ⟨between, rest, rfl, hbetween⟩ := exists_append_of_le rfl hn (by omega)
  cases between with
  | nil =>
    rw [width_nil] at hbetween
    omega
  | cons c between =>
    have hc := hnext c rfl
    rw [width_cons] at hbetween
    omega

/-- **The position of an offset** is that of the last boundary that is not behind it. -/
theorem exists_positionAt_eq (t : Text) (offset : Nat) :
    ∃ n, IsGreatest {n | IsBoundary t n ∧ n ≤ min offset (width t)} n ∧
      positionAt t offset = positionAt t n := by
  obtain ⟨after, ht, hle, hnext⟩ := exists_upTo t offset
  refine ⟨width (upTo offset t), ?_, ?_⟩
  · have hgreatest := isGreatest_floor hle hnext
    rwa [← ht] at hgreatest
  · have hagain := upTo_append (upTo offset t) after
    rw [← ht] at hagain
    rw [positionAt, positionAt, hagain]

theorem monotone_positionAt {t : Text} (hsize : width t < 2 ^ 32) :
    Monotone fun n => (positionAt t n).key := by
  intro m n hmn
  obtain ⟨m', hm, hmposition⟩ := exists_positionAt_eq t m
  obtain ⟨n', hn, hnposition⟩ := exists_positionAt_eq t n
  have hle : m' ≤ n' := hn.2 ⟨hm.1.1, by have := hm.1.2; omega⟩
  show (positionAt t m).key ≤ (positionAt t n).key
  rw [hmposition, hnposition]
  exact (strictMonoOn_positionAt hsize).monotoneOn hm.1.1 hn.1.1 hle

/-! ## Offsets of positions -/

/-- A column leads to a place of the text. -/
theorem exists_columnOffset (offset units column : Nat) (t : Text) :
    ∃ before after, t = before ++ after ∧
      columnOffset offset units column t = offset + width before := by
  fun_induction columnOffset offset units column t with
  | case1 => exact ⟨[], [], rfl, rfl⟩
  | case2 offset units c t => exact ⟨[], c :: t, rfl, rfl⟩
  | case3 offset units c t _ ih =>
    obtain ⟨before, after, rfl, hoffset⟩ := ih
    refine ⟨c :: before, after, rfl, ?_⟩
    rw [hoffset, width_cons]
    omega

/-- A position leads to a place of the text, whether or not the text has its line and column. -/
theorem exists_offsetFrom (offset line column : Nat) (t : Text) :
    ∃ before after, t = before ++ after ∧
      offsetFrom offset line column t = offset + width before := by
  fun_induction offsetFrom offset line column t with
  | case1 => exact ⟨[], [], rfl, rfl⟩
  | case2 offset c t => exact exists_columnOffset offset 0 column (c :: t)
  | case3 offset c t rest ih =>
    obtain ⟨before, after, rfl, hoffset⟩ := ih
    refine ⟨c :: before, after, rfl, ?_⟩
    rw [hoffset, width_cons]
    omega

theorem isBoundary_offsetAt (t : Text) (p : Position) : IsBoundary t (offsetAt t p) := by
  obtain ⟨before, after, ht, hoffset⟩ := exists_offsetFrom 0 p.line p.character t
  exact ⟨before, after, ht, by rw [offsetAt, hoffset, Nat.zero_add]⟩

theorem le_offsetFrom (offset line column : Nat) (t : Text) :
    offset ≤ offsetFrom offset line column t := by
  obtain ⟨before, after, -, hoffset⟩ := exists_offsetFrom offset line column t
  omega

theorem le_columnOffset (offset units column : Nat) (t : Text) :
    offset ≤ columnOffset offset units column t := by
  obtain ⟨before, after, -, hoffset⟩ := exists_columnOffset offset units column t
  omega

theorem columnOffset_mono {column column' : Nat} (h : column ≤ column') (offset units : Nat)
    (t : Text) : columnOffset offset units column t ≤ columnOffset offset units column' t := by
  induction t generalizing offset units with
  | nil => exact Nat.le_refl _
  | cons c t ih =>
    by_cases hstop : column ≤ units ∨ atLineEnd (c :: t) = true
    · rw [columnOffset, if_pos hstop]
      exact le_columnOffset _ _ _ _
    · have hgo : ¬(column' ≤ units ∨ atLineEnd (c :: t) = true) := by
        rw [not_or] at hstop ⊢
        exact ⟨by omega, hstop.2⟩
      rw [columnOffset, if_neg hstop, columnOffset, if_neg hgo]
      exact ih _ _

/-- A column stops on its line, and a later line lies behind that. -/
theorem columnOffset_le_offsetFrom (offset units column line column' : Nat) (t : Text) :
    columnOffset offset units column t ≤ offsetFrom offset (line + 1) column' t := by
  induction t generalizing offset units with
  | nil => exact Nat.le_refl _
  | cons c t ih =>
    by_cases hstop : column ≤ units ∨ atLineEnd (c :: t) = true
    · rw [columnOffset, if_pos hstop]
      exact le_offsetFrom _ _ _ _
    · have hc : c ≠ '\n' := by
        rintro rfl
        exact hstop (.inr rfl)
      rw [columnOffset, if_neg hstop, offsetFrom, if_neg hc]
      exact ih _ _

/-- **A larger position has no smaller offset.** -/
theorem offsetFrom_mono {line line' column column' : Nat}
    (h : line < line' ∨ line = line' ∧ column ≤ column') (offset : Nat) (t : Text) :
    offsetFrom offset line column t ≤ offsetFrom offset line' column' t := by
  induction t generalizing offset line line' with
  | nil => exact Nat.le_refl _
  | cons c t ih =>
    match line, line' with
    | 0, 0 =>
      rw [offsetFrom_zero, offsetFrom_zero]
      exact columnOffset_mono (by omega) offset 0 (c :: t)
    | 0, next + 1 =>
      rw [offsetFrom_zero]
      exact columnOffset_le_offsetFrom offset 0 column next column' (c :: t)
    | rest + 1, 0 => omega
    | rest + 1, next + 1 =>
      rw [offsetFrom, offsetFrom]
      refine ih ?_ _
      split <;> omega

/-! ## There and back -/

/-- Two splits of a text at the same offset are the same. -/
theorem append_inj_of_width {a b c d : Text} (h : a ++ b = c ++ d) (hw : width a = width c) :
    a = c ∧ b = d := by
  have hleft := splitAt?_width_append a b
  rw [h, hw, splitAt?_width_append] at hleft
  cases hleft
  exact ⟨rfl, rfl⟩

theorem slice?_return_iff {before after : Text} :
    slice? (before ++ after) (width before - 1) (width before) = some ['\r'] ↔
      before.getLast? = some '\r' := by
  have hw : width ['\r'] = 1 := by decide
  rw [List.getLast?_eq_some_iff]
  constructor
  · intro h
    obtain ⟨x, z, ht, -, hstop⟩ := append_of_slice? h
    rw [← List.append_assoc] at ht
    exact ⟨x, (append_inj_of_width ht (by rw [width_append]; omega)).1⟩
  · rintro ⟨x, rfl⟩
    rw [width_append, hw]
    exact slice?_eq_some (x := x) (z := after) (List.append_assoc _ _ _) (by omega) (by omega)

theorem slice?_feed_iff {before after : Text} :
    slice? (before ++ after) (width before) (width before + 1) = some ['\n'] ↔
      after.head? = some '\n' := by
  rw [List.head?_eq_some_iff]
  constructor
  · intro h
    obtain ⟨x, z, ht, hstart, -⟩ := append_of_slice? h
    exact ⟨z, (append_inj_of_width ht hstart.symm).2⟩
  · rintro ⟨z, rfl⟩
    exact slice?_eq_some (x := before) (z := z) rfl rfl rfl

/-- A cut goes through a line break if a carriage return stands in front of it, and behind it a line
feed or nothing. -/
theorem cutsBreak_iff {before after : Text} :
    CutsBreak before after ↔
      slice? (before ++ after) (width before - 1) (width before) = some ['\r'] ∧
        (width before = width (before ++ after) ∨
          slice? (before ++ after) (width before) (width before + 1) = some ['\n']) := by
  have hend : width before = width (before ++ after) ↔ after = [] := by
    rw [width_append, ← width_eq_zero_iff]
    omega
  rw [slice?_return_iff, slice?_feed_iff, hend]
  exact Iff.rfl

/-- **The offset of the position of an offset.** In a text of less than `2 ^ 32` bytes every offset
between two characters comes back, but for one behind a carriage return that a line feed or the end
of the text follows: that comes back one less. Every other offset has the position of the last
offset between characters in front of it. No line and no column is too large for its number. -/
theorem positions_return {t : Text} (hsize : width t < 2 ^ 32) :
    (∀ n, IsBoundary t n → offsetAt t (positionAt t n) =
      if slice? t (n - 1) n = some ['\r'] ∧ (n = width t ∨ slice? t n (n + 1) = some ['\n'])
      then n - 1 else n) ∧
    ∀ n, (positionAt t n).IsSmall ∧ (positionAt t n).Counts (upTo n t) ∧
      ∃ m, IsGreatest {m | IsBoundary t m ∧ m ≤ min n (width t)} m ∧
        positionAt t n = positionAt t m := by
  constructor
  · rintro n ⟨before, after, rfl, rfl⟩
    rw [offsetAt_positionAt (counts_positionAt_append hsize)]
    simp only [cutsBreak_iff]
  · intro n
    exact ⟨isSmall_positionAt t n, counts_positionAt hsize n, exists_positionAt_eq t n⟩

/-- Offset 2 cuts the break of the first line, and offset 8 lies behind the last carriage return.
Offset 7 comes back, behind two code units, and offset 5 lies inside of their character. -/
theorem positions_return_surrogates :
    let t : Text := "a\r\n😀\r".toList
    width t = 8 ∧ offsetAt t (positionAt t 2) = 1 ∧ offsetAt t (positionAt t 7) = 7 ∧
      offsetAt t (positionAt t 8) = 7 ∧
      ∃ m, IsGreatest {m | IsBoundary t m ∧ m ≤ min 5 (width t)} m ∧
        positionAt t 5 = positionAt t m := by
  intro t
  have hsize : width t < 2 ^ 32 := by decide
  have hbreak : IsBoundary t 2 := ⟨['a', '\r'], ['\n', '😀', '\r'], rfl, by decide⟩
  have hpair : IsBoundary t 7 := ⟨['a', '\r', '\n', '😀'], ['\r'], rfl, by decide⟩
  refine ⟨by decide, ?_, ?_, ?_, ((positions_return hsize).2 5).2.2⟩
  · rw [(positions_return hsize).1 2 hbreak]
    decide
  · rw [(positions_return hsize).1 7 hpair]
    decide
  · rw [(positions_return hsize).1 8 (isBoundary_width t)]
    decide

/-- **Both directions keep the order**, in a text of less than `2 ^ 32` bytes. Every position, of
the text or not, has an offset between two characters, and of two positions the larger one does not
have the smaller offset. The positions of offsets count lines and columns exactly; they grow with
the offsets, and differ between characters. -/
theorem positions_ordered {t : Text} (hsize : width t < 2 ^ 32) :
    (∀ p q : Position, p.key ≤ q.key → offsetAt t p ≤ offsetAt t q) ∧
    (∀ p, IsBoundary t (offsetAt t p) ∧ offsetAt t p ≤ width t) ∧
    (∀ n, (positionAt t n).IsSmall ∧ (positionAt t n).Counts (upTo n t)) ∧
    Monotone (fun n => (positionAt t n).key) ∧
    StrictMonoOn (fun n => (positionAt t n).key) {n | IsBoundary t n} := by
  refine ⟨?_, ?_, ?_, monotone_positionAt hsize, strictMonoOn_positionAt hsize⟩
  · intro p q h
    exact offsetFrom_mono (Position.key_le_iff.1 h) 0 t
  · intro p
    exact ⟨isBoundary_offsetAt t p, (isBoundary_offsetAt t p).le_width⟩
  · intro n
    exact ⟨isSmall_positionAt t n, counts_positionAt hsize n⟩

/-- A column behind the end of the first line, and one inside of a pair of code units. -/
theorem positions_ordered_surrogates :
    let t : Text := "a\r\n😀\r".toList
    offsetAt t ⟨0, 9⟩ = 1 ∧ offsetAt t ⟨1, 1⟩ = 7 ∧ offsetAt t ⟨0, 9⟩ ≤ offsetAt t ⟨1, 1⟩ ∧
      IsBoundary t (offsetAt t ⟨1, 1⟩) ∧ (positionAt t 3).key < (positionAt t 7).key := by
  intro t
  obtain ⟨hoffsets, hplaces, -, -, hpositions⟩ := positions_ordered (t := t) (by decide)
  refine ⟨by decide, by decide, ?_, (hplaces _).1, ?_⟩
  · exact hoffsets _ _ (Position.key_le_iff.2 (.inl (by decide)))
  · refine hpositions (a := 3) (b := 7) ?_ ?_ (by decide)
    · exact ⟨['a', '\r', '\n'], ['😀', '\r'], rfl, by decide⟩
    · exact ⟨['a', '\r', '\n', '😀'], ['\r'], rfl, by decide⟩

end Text

end BindingToggle
