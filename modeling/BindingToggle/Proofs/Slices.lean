import BindingToggle.Span

/-!
# Spans of a text

* `IsBoundary t n` — offset `n` does not fall inside a character of `t`; `exists_append_of_le` says
  what stands between two boundaries.
* `append_of_slice?` — the slice of a span is what stands between its ends, so the ends are in
  order, inside of the text and between characters (`within_of_slice?`); `slice?_eq_some` is the
  other direction.
* `InRow low high spans` — spans that stand one behind the other between two places, without
  overlaps; rows can be put together (`InRow.append`).
-/

namespace BindingToggle

namespace Text

/-- The offset lies between two characters of the text, or at one of its ends. -/
def IsBoundary (t : Text) (n : Nat) : Prop := ∃ before after, t = before ++ after ∧ width before = n

theorem IsBoundary.le_width {t : Text} {n : Nat} (h : IsBoundary t n) : n ≤ width t := by
  obtain ⟨before, after, rfl, rfl⟩ := h
  rw [width_append]
  omega

theorem isBoundary_width (t : Text) : IsBoundary t (width t) := ⟨t, [], by simp, rfl⟩

/-- The text up to a boundary goes on to every later boundary. -/
theorem exists_append_of_le {t x y : Text} {n : Nat} (ht : t = x ++ y) (hn : IsBoundary t n)
    (hle : width x ≤ n) : ∃ between after, y = between ++ after ∧ width x + width between = n := by
  obtain ⟨before, after, hb, rfl⟩ := hn
  rw [ht] at hb
  rcases List.append_eq_append_iff.1 hb with ⟨between, rfl, rfl⟩ | ⟨more, rfl, rfl⟩
  · exact ⟨between, after, rfl, by rw [width_append]⟩
  · -- the first text would reach beyond the boundary
    refine ⟨[], more ++ y, ?_, ?_⟩
    · have hmore : more = [] := by
        rw [← width_eq_zero_iff]
        rw [width_append] at hle
        omega
      simp [hmore]
    · rw [width_append, width_nil] at *
      omega

/-- The slice between two offsets is what stands between them. -/
theorem append_of_slice? {t y : Text} {a b : Nat} (h : slice? t a b = some y) :
    ∃ x z, t = x ++ (y ++ z) ∧ width x = a ∧ width x + width y = b := by
  unfold slice? at h
  split at h
  · rename_i hab
    split at h
    · cases h
    · rename_i x after hx
      obtain ⟨⟨y', z⟩, hy, rfl⟩ := Option.map_eq_some_iff.1 h
      obtain ⟨rfl, rfl⟩ := append_of_splitAt? hx
      obtain ⟨rfl, hw⟩ := append_of_splitAt? hy
      refine ⟨x, z, rfl, rfl, ?_⟩
      show width x + width y' = b
      omega
  · cases h

theorem slice?_eq_some {t x y z : Text} {a b : Nat} (ht : t = x ++ (y ++ z)) (ha : a = width x)
    (hb : b = width x + width y) : slice? t a b = some y := by
  subst ht ha hb
  have hlen : width x + width y - width x = width y := by omega
  rw [slice?, if_pos (Nat.le_add_right _ _)]
  simp only [splitAt?_width_append, hlen, Option.map_some]

end Text

namespace Span

open Text

/-- The span ends before the other one starts, or where it does. -/
def Precedes (s t : Span) : Prop := s.stop ≤ t.start

/-- The ends of the span are in order, inside of the text, and between characters. -/
structure Within (source : Text) (s : Span) : Prop where
  ordered : s.start ≤ s.stop
  inside : s.stop ≤ width source
  first : IsBoundary source s.start
  last : IsBoundary source s.stop

theorem within_of_slice? {source t : Text} {s : Span} (h : s.slice? source = some t) :
    s.Within source := by
  obtain ⟨x, z, hsource, hfirst, hlast⟩ := append_of_slice? h
  have hstop : IsBoundary source s.stop := ⟨x ++ t, z, by simp [hsource], by simp [hlast]⟩
  refine ⟨?_, hstop.le_width, ⟨x, t ++ z, hsource, hfirst⟩, hstop⟩
  omega

/-- Spans that stand one behind the other, from `low` on and up to `high`. -/
structure InRow (low high : Nat) (spans : List Span) : Prop where
  ordered : spans.Pairwise Precedes
  bounds : ∀ s ∈ spans, low ≤ s.start ∧ s.start ≤ s.stop ∧ s.stop ≤ high

theorem inRow_nil (low high : Nat) : InRow low high [] := ⟨.nil, by simp⟩

theorem inRow_singleton {low high : Nat} {s : Span} (hlow : low ≤ s.start)
    (hs : s.start ≤ s.stop) (hhigh : s.stop ≤ high) : InRow low high [s] := by
  refine ⟨List.pairwise_singleton _ _, ?_⟩
  intro t ht
  rw [List.mem_singleton.1 ht]
  exact ⟨hlow, hs, hhigh⟩

theorem InRow.mono {low high low' high' : Nat} {spans : List Span} (h : InRow low high spans)
    (hlow : low' ≤ low) (hhigh : high ≤ high') : InRow low' high' spans := by
  refine ⟨h.ordered, ?_⟩
  intro s hs
  have := h.bounds s hs
  omega

/-- Behind the first span, the others stand in a row. -/
theorem InRow.tail {low high : Nat} {s : Span} {spans : List Span}
    (h : InRow low high (s :: spans)) : InRow s.stop high spans := by
  obtain ⟨hprecedes, hordered⟩ := List.pairwise_cons.1 h.ordered
  refine ⟨hordered, ?_⟩
  intro t ht
  have hbounds := h.bounds t (List.mem_cons_of_mem _ ht)
  have hbehind : s.stop ≤ t.start := hprecedes t ht
  omega

theorem InRow.append {low mid high : Nat} {xs ys : List Span} (hx : InRow low mid xs)
    (hy : InRow mid high ys) (hlow : low ≤ mid) (hhigh : mid ≤ high) :
    InRow low high (xs ++ ys) := by
  constructor
  · refine List.pairwise_append.2 ⟨hx.ordered, hy.ordered, ?_⟩
    intro s hs t ht
    have hs := hx.bounds s hs
    have ht := hy.bounds t ht
    show s.stop ≤ t.start
    omega
  · intro s hs
    rcases List.mem_append.1 hs with hs | hs
    · have := hx.bounds s hs
      omega
    · have := hy.bounds s hs
      omega

end Span

end BindingToggle
