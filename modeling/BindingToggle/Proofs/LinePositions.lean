import BindingToggle.Text.Position
import Mathlib.Algebra.Group.Nat.Defs
import Mathlib.Data.List.DropRight

/-!
# Offsets, to a position and back

A position counts the line feeds in front of it and the code units behind the last of them, in
numbers of 32 bits. The offset of a position is found by going through these lines and these units
again, but a column never lies inside or behind a line break: an offset between the two characters
of a break, or behind a carriage return that ends the text, comes back one less.

* `positionAt_eq` — a position is made of two counts, each wrapped on its own.
* `Position.Counts` — neither count was too large; `counts_positionAt` says so of every position of
  a text of less than `2 ^ 32` bytes.
* `exists_lines` — every text ends in a line without a line feed, behind one or at the start.
* `offsetAt_positionAt` — the offset that comes back, for every offset between two characters whose
  position counts.
-/

namespace BindingToggle

/-! ## Numbers of 32 bits -/

namespace Position

theorem wrap_lt (n : Nat) : wrap n < 2 ^ 32 := Nat.mod_lt n (by decide)

theorem wrap_eq_self {n : Nat} (h : n < 2 ^ 32) : wrap n = n := Nat.mod_eq_of_lt h

/-- It makes no difference to wrap a count on the way. -/
theorem wrap_wrap_add (m n : Nat) : wrap (wrap m + n) = wrap (m + n) := Nat.mod_add_mod m _ n

/-- The position fits into two numbers of 32 bits. -/
def IsSmall (p : Position) : Prop := p.line < 2 ^ 32 ∧ p.character < 2 ^ 32

end Position

namespace Text

open Position (wrap wrap_lt wrap_eq_self wrap_wrap_add)

/-! ## Positions of a prefix -/

/-- The number of UTF-16 code units of a text. -/
def columns : Text → Nat
  | [] => 0
  | c :: t => units16 c + columns t

theorem columns_nil : columns [] = 0 := rfl

theorem columns_cons (c : Char) (t : Text) : columns (c :: t) = units16 c + columns t := rfl

theorem columns_append (s t : Text) : columns (s ++ t) = columns s + columns t := by
  induction s with
  | nil => rw [List.nil_append, columns_nil, Nat.zero_add]
  | cons c s ih => rw [List.cons_append, columns_cons, columns_cons, ih, Nat.add_assoc]

/-- What stands behind the last line feed of a text, or all of it. -/
def lastLine (t : Text) : Text := t.rtakeWhile (· != '\n')

theorem lastLine_concat (t : Text) (c : Char) :
    lastLine (t ++ [c]) = if c = '\n' then [] else lastLine t ++ [c] := by
  rw [lastLine, List.rtakeWhile_concat]
  by_cases hc : c = '\n' <;> simp [hc, lastLine]

/-- Every text ends in a line: all of it, or what stands behind its last line feed. -/
theorem exists_lines (t : Text) :
    '\n' ∉ lastLine t ∧ (t = lastLine t ∨ ∃ lines, t = lines ++ '\n' :: lastLine t) := by
  induction t using List.reverseRecOn with
  | nil => exact ⟨List.not_mem_nil, .inl rfl⟩
  | append_singleton t c ih =>
    rw [lastLine_concat]
    split
    · rename_i hc
      exact ⟨List.not_mem_nil, .inr ⟨t, by rw [hc]⟩⟩
    · rename_i hc
      obtain ⟨hlast, ht | ⟨lines, ht⟩⟩ := ih
      · exact ⟨by simp [hlast, Ne.symm hc], .inl (by rw [← ht])⟩
      · refine ⟨by simp [hlast, Ne.symm hc], .inr ⟨lines, ?_⟩⟩
        rw [← List.cons_append, ← List.append_assoc, ← ht]

/-- The position behind a text: its line feeds, and the code units of its last line. -/
theorem foldl_step (t : Text) :
    t.foldl step ⟨0, 0⟩ = ⟨wrap (t.count '\n'), wrap (columns (lastLine t))⟩ := by
  induction t using List.reverseRecOn with
  | nil => rfl
  | append_singleton t c ih =>
    rw [List.foldl_append, ih, lastLine_concat, List.count_append, List.foldl_cons, List.foldl_nil,
      step]
    by_cases hc : c = '\n'
    · simp [hc, columns_nil, wrap]
    · simp [hc, wrap_wrap_add, columns_append, columns_cons, columns_nil]

/-- An offset inside of a character stands for the place in front of the character. -/
theorem upTo_floor {before after : Text} {offset : Nat} (hle : width before ≤ offset)
    (hnext : ∀ c, after.head? = some c → offset < width before + c.utf8Size) :
    upTo offset (before ++ after) = before := by
  induction before generalizing offset with
  | nil =>
    cases after with
    | nil => rfl
    | cons c after =>
      have hc := hnext c rfl
      rw [width_nil] at hc
      rw [List.nil_append, upTo, if_neg (by omega)]
  | cons c before ih =>
    rw [width_cons] at hle hnext
    rw [List.cons_append, upTo, if_pos (by omega), ih (by omega)]
    intro d hd
    have hd := hnext d hd
    omega

theorem upTo_append (before after : Text) : upTo (width before) (before ++ after) = before := by
  refine upTo_floor (Nat.le_refl _) ?_
  intro c _
  have := c.utf8Size_pos
  omega

theorem upTo_prefix (offset : Nat) (t : Text) : upTo offset t <+: t := by
  fun_induction upTo offset t with
  | case1 => exact List.prefix_refl _
  | case2 offset c t _ ih => exact List.cons_prefix_cons.2 ⟨rfl, ih⟩
  | case3 => exact List.nil_prefix

/-- **The position of an offset**: the line feeds in front of it, and the code units behind the last
of them. -/
theorem positionAt_eq (t : Text) (offset : Nat) :
    positionAt t offset =
      ⟨wrap ((upTo offset t).count '\n'), wrap (columns (lastLine (upTo offset t)))⟩ :=
  foldl_step _

theorem isSmall_positionAt (t : Text) (offset : Nat) : (positionAt t offset).IsSmall := by
  rw [positionAt_eq]
  exact ⟨wrap_lt _, wrap_lt _⟩

end Text

/-! ## Positions that count -/

/-- The position counts the line feeds of a text and the code units behind the last of them, and
neither number was too large for it. -/
structure Position.Counts (p : Position) (t : Text) : Prop where
  line : p.line = t.count '\n'
  character : p.character = Text.columns (Text.lastLine t)

namespace Text

open Position (wrap wrap_eq_self)

/-- A position counts when line and column fit into 32 bits. -/
theorem counts_positionAt_of_lt {t : Text} {offset : Nat}
    (hline : (upTo offset t).count '\n' < 2 ^ 32)
    (hcolumn : columns (lastLine (upTo offset t)) < 2 ^ 32) :
    (positionAt t offset).Counts (upTo offset t) := by
  rw [positionAt_eq, wrap_eq_self hline, wrap_eq_self hcolumn]
  exact ⟨rfl, rfl⟩

/-- A character has no more code units than bytes. -/
theorem units16_le (c : Char) : units16 c ≤ c.utf8Size := by
  have hpos := c.utf8Size_pos
  unfold units16
  split
  · exact hpos
  · rename_i hc
    -- beyond the sixteen bits of one unit, a character takes up four bytes
    have hval : c.toNat = c.val.toNat := rfl
    have hlarge : ∀ n : UInt32, n.toNat < 0x10000 → ¬c.val ≤ n := by
      intro n hn
      rw [UInt32.le_iff_toNat_le]
      omega
    rw [Char.utf8Size, if_neg (hlarge _ (by decide)), if_neg (hlarge _ (by decide)),
      if_neg (hlarge _ (by decide))]
    decide

theorem columns_le_width (t : Text) : columns t ≤ width t := by
  induction t with
  | nil => exact Nat.le_refl _
  | cons c t ih =>
    have hunits := units16_le c
    rw [columns_cons, width_cons]
    omega

theorem count_le_width (c : Char) (t : Text) : t.count c ≤ width t := by
  induction t with
  | nil => exact Nat.le_refl _
  | cons d t ih =>
    have hpos := d.utf8Size_pos
    rw [List.count_cons, width_cons]
    split <;> omega

theorem width_lastLine_le (t : Text) : width (lastLine t) ≤ width t := by
  obtain ⟨-, ht | ⟨lines, ht⟩⟩ := exists_lines t
  · rw [← ht]
  · have hwidth := congrArg width ht
    rw [width_append, width_cons] at hwidth
    omega

theorem width_upTo_le (offset : Nat) (t : Text) : width (upTo offset t) ≤ width t := by
  obtain ⟨after, ht⟩ := upTo_prefix offset t
  have hwidth := congrArg width ht
  rw [width_append] at hwidth
  omega

/-- The column of an offset is not larger than the text. -/
theorem columns_lastLine_upTo_le (offset : Nat) (t : Text) :
    columns (lastLine (upTo offset t)) ≤ width t :=
  (columns_le_width _).trans ((width_lastLine_le _).trans (width_upTo_le offset t))

/-- Every position of a text that is not too long counts. -/
theorem counts_positionAt {t : Text} (h : width t < 2 ^ 32) (offset : Nat) :
    (positionAt t offset).Counts (upTo offset t) :=
  counts_positionAt_of_lt
    (((count_le_width '\n' _).trans (width_upTo_le offset t)).trans_lt h)
    ((columns_lastLine_upTo_le offset t).trans_lt h)

theorem counts_positionAt_append_of_lt {before after : Text} (hline : before.count '\n' < 2 ^ 32)
    (hcolumn : columns (lastLine before) < 2 ^ 32) :
    (positionAt (before ++ after) (width before)).Counts before := by
  rw [← upTo_append before after] at hline hcolumn
  have hcounts := counts_positionAt_of_lt hline hcolumn
  rwa [upTo_append] at hcounts

theorem counts_positionAt_append {before after : Text} (h : width (before ++ after) < 2 ^ 32) :
    (positionAt (before ++ after) (width before)).Counts before := by
  have hcounts := counts_positionAt h (width before)
  rwa [upTo_append] at hcounts

/-! ## Offsets of positions -/

theorem offsetFrom_zero (offset column : Nat) (t : Text) :
    offsetFrom offset 0 column t = columnOffset offset 0 column t := by
  cases t <;> rfl

/-- Going ahead by the line feeds of some whole lines leads behind them. -/
theorem offsetFrom_lines (offset column : Nat) (lines t : Text) :
    offsetFrom offset (lines.count '\n' + 1) column (lines ++ '\n' :: t) =
      columnOffset (offset + width lines + 1) 0 column t := by
  induction lines generalizing offset with
  | nil =>
    have hw : '\n'.utf8Size = 1 := by decide
    simp [offsetFrom, offsetFrom_zero, hw]
  | cons c lines ih =>
    have hcount : (if c = '\n' then (c :: lines).count '\n' else (c :: lines).count '\n' + 1) =
        lines.count '\n' + 1 := by
      by_cases hc : c = '\n'
      · simp [hc]
      · simp [hc, List.count_cons_of_ne hc]
    rw [List.cons_append, offsetFrom, hcount, ih, width_cons]
    congr 1
    omega

/-- The cut between the two texts goes through a line break: through its two characters, or behind a
carriage return at the end, which could be one. -/
def CutsBreak (before after : Text) : Prop :=
  before.getLast? = some '\r' ∧ (after = [] ∨ after.head? = some '\n')

instance (before after : Text) : Decidable (CutsBreak before after) :=
  inferInstanceAs (Decidable (_ ∧ _))

/-- A line ends in front of a character that begins a break. -/
theorem atLineEnd_iff {c : Char} {t : Text} (hc : c ≠ '\n') :
    atLineEnd (c :: t) = true ↔ CutsBreak [c] t := by
  unfold atLineEnd
  split
  · cases ‹_ :: _ = _›
  · simp_all [CutsBreak]
  · simp_all [CutsBreak]
  · rename_i hend hbreak heq
    cases heq
    have hhead : c = '\r' → t.head? ≠ some '\n' := by
      intro hr ht
      obtain ⟨u, rfl⟩ := List.head?_eq_some_iff.1 ht
      exact hbreak u hr rfl
    simp_all [CutsBreak]

theorem units16_pos (c : Char) : 0 < units16 c := by
  unfold units16
  split <;> omega

/-- A column that is not reached yet goes on across a character, unless that begins a break. -/
theorem columnOffset_cons {c : Char} (hc : c ≠ '\n') {units column : Nat} (hlt : units < column)
    (offset : Nat) (t : Text) :
    columnOffset offset units column (c :: t) =
      if CutsBreak [c] t then offset
      else columnOffset (offset + c.utf8Size) (wrap (units + units16 c)) column t := by
  rw [columnOffset]
  simp only [Nat.not_le.2 hlt, false_or, atLineEnd_iff hc]

theorem columnOffset_of_le {units column : Nat} (h : column ≤ units) (offset : Nat) (t : Text) :
    columnOffset offset units column t = offset := by
  cases t <;> simp [columnOffset, h]

/-- Going through the code units of a line leads to its end, in front of the break if the line ends
in one. The units are counted in 32 bits. -/
theorem columnOffset_columns {last : Text} (h : '\n' ∉ last) (offset units : Nat)
    (hfits : units + columns last < 2 ^ 32) (after : Text) :
    columnOffset offset units (units + columns last) (last ++ after) =
      if CutsBreak last after then offset + width last - 1 else offset + width last := by
  induction last generalizing offset units with
  | nil =>
    rw [columns_nil, Nat.add_zero, columnOffset_of_le (Nat.le_refl _)]
    simp [CutsBreak]
  | cons c last ih =>
    obtain ⟨hc, hlast⟩ : '\n' ≠ c ∧ '\n' ∉ last := by simpa using h
    have hpos := units16_pos c
    rw [columns_cons, ← Nat.add_assoc] at hfits
    rw [List.cons_append, columns_cons, ← Nat.add_assoc, columnOffset_cons (Ne.symm hc) (by omega),
      wrap_eq_self (by omega), ih hlast _ _ hfits]
    cases last with
    | nil =>
      -- the last character of the line: it may begin the break
      by_cases hcut : CutsBreak [c] after
      · obtain rfl : c = '\r' := by simpa using hcut.1
        have hw : '\r'.utf8Size = 1 := by decide
        simp [hcut, hw]
      · have hnil : ¬CutsBreak [] after := by simp [CutsBreak]
        simp [hcut, hnil]
    | cons d last =>
      have hd : d ≠ '\n' := by
        rintro rfl
        simp at hlast
      have hend : ¬CutsBreak [c] (d :: last ++ after) := by simp [CutsBreak, hd]
      have hcut : CutsBreak (c :: d :: last) after ↔ CutsBreak (d :: last) after := by
        simp [CutsBreak]
      rw [if_neg hend]
      simp only [hcut, width_cons, Nat.add_assoc]

/-- The code units of a line lead from its beginning to its end. -/
theorem columnOffset_line {last : Text} (h : '\n' ∉ last) (hfits : columns last < 2 ^ 32)
    (offset : Nat) (after : Text) :
    columnOffset offset 0 (columns last) (last ++ after) =
      if CutsBreak last after then offset + width last - 1 else offset + width last := by
  rw [← Nat.zero_add (columns last)] at hfits ⊢
  exact columnOffset_columns h offset 0 hfits after

/-- The line of a place begins where its last line does. -/
theorem offsetFrom_lastLine (before after : Text) (column : Nat) :
    offsetFrom 0 (before.count '\n') column (before ++ after) =
      columnOffset (width before - width (lastLine before)) 0 column
        (lastLine before ++ after) := by
  obtain ⟨hlast, hbefore⟩ := exists_lines before
  generalize lastLine before = last at *
  rcases hbefore with rfl | ⟨lines, rfl⟩
  · rw [List.count_eq_zero_of_not_mem hlast, offsetFrom_zero, Nat.sub_self]
  · have hw : '\n'.utf8Size = 1 := by decide
    have hcount : (lines ++ '\n' :: last).count '\n' = lines.count '\n' + 1 := by
      rw [List.count_append, List.count_cons_self, List.count_eq_zero_of_not_mem hlast]
    rw [hcount, List.append_assoc, List.cons_append, offsetFrom_lines]
    simp only [width_append, width_cons, hw]
    congr 1
    omega

theorem cutsBreak_lastLine (before after : Text) :
    CutsBreak before after ↔ CutsBreak (lastLine before) after := by
  obtain ⟨-, hbefore⟩ := exists_lines before
  generalize lastLine before = last at *
  rcases hbefore with rfl | ⟨lines, rfl⟩
  · exact Iff.rfl
  · cases last with
    | nil => simp [CutsBreak]
    | cons c last => simp [CutsBreak]

/-- **The offset that comes back** from the position of an offset, if the position counts: it is the
same, but for an offset that cuts a line break. -/
theorem offsetAt_positionAt {before after : Text}
    (h : (positionAt (before ++ after) (width before)).Counts before) :
    offsetAt (before ++ after) (positionAt (before ++ after) (width before)) =
      if CutsBreak before after then width before - 1 else width before := by
  have hcolumn : columns (lastLine before) < 2 ^ 32 := by
    rw [← h.character]
    exact (isSmall_positionAt _ _).2
  have hwidth := width_lastLine_le before
  rw [offsetAt, h.line, h.character, offsetFrom_lastLine,
    columnOffset_line (exists_lines before).1 hcolumn, Nat.sub_add_cancel hwidth]
  simp only [cutsBreak_lastLine before after]

end Text

end BindingToggle
