import BindingToggle.Proofs.Nesting

/-!
# What a selection lies in

A walk that drops every element away from the selection finds as much as a look at all attributes
of the template, because the elements are nested in the source. And a selection lies in few
attributes, because these stand one behind the other.

* `located` — every attribute of a forest with its element, in source order; `inside_located` and
  `apart_located` say where these lie in a placed forest.
* `walk_eq_filter` — in a placed forest, dropping elements loses nothing.
* `Located.Neighbours` — two attributes of one element with none in between.
* `locate_parseTemplate` — in a template, what is located are the attributes that contain the
  selection: one at most, or two neighbours that touch at the caret.
-/

namespace BindingToggle

open Text
open Element (AllPlaced preorderAll)

/-- Forests are built from trees with smaller forests inside. -/
@[elab_as_elim]
theorem Element.forestInduction {motive : List Element → Prop} (nil : motive [])
    (cons : ∀ e es, motive e.children → motive es → motive (e :: es)) : ∀ es, motive es
  | [] => nil
  | ⟨_, _, _, children, _⟩ :: es =>
    cons _ es (forestInduction nil cons children) (forestInduction nil cons es)

/-! ## The attributes of a forest -/

/-- Every attribute of a forest with its element, in the order in which they are written. -/
def located (es : List Element) : List Located :=
  (preorderAll es).flatMap fun e => e.attributes.map (Located.mk e)

theorem located_append (es fs : List Element) : located (es ++ fs) = located es ++ located fs := by
  simp only [located, Locate.preorderAll_append, List.flatMap_append]

theorem located_cons (e : Element) (es : List Element) :
    located (e :: es) =
      e.attributes.map (Located.mk e) ++ (located e.children ++ located es) := by
  simp only [located, preorderAll, Locate.preorder_eq, List.cons_append, List.flatMap_cons,
    List.flatMap_append]

theorem located_singleton (e : Element) :
    located [e] = e.attributes.map (Located.mk e) ++ located e.children := by
  rw [located_cons]
  exact congrArg _ (List.append_nil _)

/-- The children of a placed element stand in a row, behind its name and every attribute of it. -/
theorem Element.Placed.children {source : Text} {e : Element} (h : e.Placed source) {low : Nat}
    (hlow : low ≤ e.span.start + 1 + width e.tag ∨ ∃ a ∈ e.attributes, low ≤ a.span.stop) :
    Span.InRow low e.span.stop (e.children.map Element.span) := by
  obtain ⟨-, hrow, hbehind⟩ := List.pairwise_append.1 h.parts.ordered
  refine ⟨hrow, ?_⟩
  intro s hs
  have hs' := h.parts.bounds s (List.mem_append_right _ hs)
  rcases hlow with hlow | ⟨a, ha, hlow⟩
  · omega
  · have hprecedes : a.span.stop ≤ s.start := hbehind _ (List.mem_map_of_mem ha) s hs
    omega

/-- The attributes of a forest in a row lie strictly inside of it. -/
theorem inside_located {source : Text} {es : List Element} (h : AllPlaced source es) {low high : Nat}
    (hrow : Span.InRow low high (es.map Element.span)) :
    ∀ l ∈ located es,
      low < l.attr.span.start ∧ l.attr.span.start < l.attr.span.stop ∧ l.attr.span.stop ≤ high := by
  induction es using Element.forestInduction generalizing low high with
  | nil =>
    intro l hl
    cases hl
  | cons e es ihchildren ihes =>
    obtain ⟨he, hchildren, hes⟩ := Element.allPlaced_cons.1 h
    have hbounds := hrow.bounds e.span List.mem_cons_self
    intro l hl
    rw [located_cons, List.mem_append, List.mem_append] at hl
    rcases hl with hl | hl | hl
    · obtain ⟨a, ha, rfl⟩ := List.mem_map.1 hl
      have hpart := he.parts.bounds a.span (List.mem_append_left _ (List.mem_map_of_mem ha))
      have hnonempty := (he.attributes a ha).2
      show low < a.span.start ∧ a.span.start < a.span.stop ∧ a.span.stop ≤ high
      omega
    · have hinside := ihchildren hchildren (he.children (.inl (Nat.le_refl _))) l hl
      omega
    · have hinside := ihes hes hrow.tail l hl
      omega

/-- The attributes of an element and of all that is inside it lie inside it. -/
theorem inside_singleton {source : Text} {e : Element} (he : e.Placed source)
    (hchildren : AllPlaced source e.children) :
    ∀ l ∈ located [e], e.span.start < l.attr.span.start ∧ l.attr.span.start < l.attr.span.stop ∧
      l.attr.span.stop ≤ e.span.stop := by
  refine inside_located (Element.allPlaced_cons.2 ⟨he, hchildren, fun d hd => (by cases hd)⟩) ?_
  exact Span.inRow_singleton (Nat.le_refl _) he.span.ordered (Nat.le_refl _)

/-! ## The walk -/

/-- No attribute in or inside of a placed element contains a selection that the element does not
touch. -/
theorem filter_located_of_isDisjoint {source : Text} {selection : Span} {e : Element}
    (he : e.Placed source) (hchildren : AllPlaced source e.children)
    (hs : selection.start ≤ selection.stop) (hdisjoint : e.span.isDisjoint selection = true) :
    (located [e]).filter (fun l => l.attr.span.contains selection) = [] := by
  rw [List.filter_eq_nil_iff]
  intro l hl hcontains
  have hinside := inside_singleton he hchildren l hl
  simp only [Span.isDisjoint, Span.contains, Bool.or_eq_true, Bool.and_eq_true,
    decide_eq_true_eq] at hdisjoint hcontains
  omega

/-- No attribute of a placed element is passed over: none is inverted or outside of it. -/
theorem found_eq_filter {source : Text} {e : Element} (he : e.Placed source) (selection : Span) :
    Locate.found selection e =
      (e.attributes.map (Located.mk e)).filter fun l => l.attr.span.contains selection := by
  rw [List.filter_map, Locate.found]
  refine congrArg _ (List.filter_congr fun a ha => ?_)
  have hpart := he.parts.bounds a.span (List.mem_append_left _ (List.mem_map_of_mem ha))
  have hproper : a.span.isInverted = false := by
    simp only [Span.isInverted, decide_eq_false_iff_not]
    omega
  have hinside : e.span.contains a.span = true := by
    simp only [Span.contains, Bool.and_eq_true, decide_eq_true_eq]
    omega
  simp only [Locate.hits, hproper, hinside, Bool.not_false, Bool.true_and, Function.comp_apply]

/-- **Dropping elements loses nothing** in a placed forest. -/
theorem walk_eq_filter {source : Text} {selection : Span} {agenda : List Element}
    (h : AllPlaced source agenda) (hs : selection.start ≤ selection.stop) :
    Locate.walk selection false agenda =
      (located agenda).filter fun l => l.attr.span.contains selection := by
  fun_induction Locate.walk selection false agenda with
  | case1 => rfl
  | case2 _ _ hcancelled => cases hcancelled
  | case3 e others _ hdisjoint ih =>
    obtain ⟨he, hchildren, hothers⟩ := Element.allPlaced_cons.1 h
    have hsplit : located (e :: others) = located [e] ++ located others :=
      located_append [e] others
    rw [hsplit, List.filter_append, filter_located_of_isDisjoint he hchildren hs hdisjoint,
      List.nil_append]
    exact ih hothers
  | case4 e others _ _ ih =>
    obtain ⟨he, hchildren, hothers⟩ := Element.allPlaced_cons.1 h
    have hrest : AllPlaced source (e.children ++ others) := by
      intro d hd
      rw [Locate.preorderAll_append, List.mem_append] at hd
      rcases hd with hd | hd
      · exact hchildren d hd
      · exact hothers d hd
    rw [located_cons, List.filter_append, ← located_append, found_eq_filter he, ih hrest]

/-! ## Neighbours -/

/-- Attributes of one element, the second right behind the first. -/
structure Located.Neighbours (l m : Located) : Prop where
  element : m.element = l.element
  next : ∃ i, l.element.attributes[i]? = some l.attr ∧
    l.element.attributes[i + 1]? = some m.attr

/-- The first attribute ends in front of the second one, and they touch only as neighbours. -/
def Located.Apart (l m : Located) : Prop :=
  l.attr.span.stop < m.attr.span.start ∨
    l.Neighbours m ∧ l.attr.span.stop ≤ m.attr.span.start

theorem apart_attributes {source : Text} {e : Element} (h : e.Placed source) :
    (e.attributes.map (Located.mk e)).Pairwise Located.Apart := by
  have hordered := List.pairwise_map.1 (List.pairwise_append.1 h.parts.ordered).1
  rw [List.pairwise_iff_getElem] at hordered
  rw [List.pairwise_map, List.pairwise_iff_getElem]
  intro i j hi hj hij
  by_cases hnext : j = i + 1
  · subst hnext
    refine .inr ⟨⟨rfl, i, ?_, ?_⟩, hordered i (i + 1) hi hj hij⟩
    · exact List.getElem?_eq_getElem hi
    · exact List.getElem?_eq_getElem hj
  · -- the attribute in between is not empty
    have hk : i + 1 < e.attributes.length := by omega
    have hfront : e.attributes[i].span.stop ≤ e.attributes[i + 1].span.start :=
      hordered i (i + 1) hi hk (by omega)
    have hback : e.attributes[i + 1].span.stop ≤ e.attributes[j].span.start :=
      hordered (i + 1) j hk hj (by omega)
    have hnonempty := (h.attributes e.attributes[i + 1] (List.getElem_mem hk)).2
    left
    show e.attributes[i].span.stop < e.attributes[j].span.start
    omega

theorem apart_located {source : Text} {es : List Element} (h : AllPlaced source es) {low high : Nat}
    (hrow : Span.InRow low high (es.map Element.span)) :
    (located es).Pairwise Located.Apart := by
  induction es using Element.forestInduction generalizing low high with
  | nil => exact .nil
  | cons e es ihchildren ihes =>
    obtain ⟨he, hchildren, hes⟩ := Element.allPlaced_cons.1 h
    have hfront := inside_singleton he hchildren
    have hothers : Span.InRow e.span.stop high (es.map Element.span) := hrow.tail
    have hback := inside_located hes hothers
    have hsplit : located (e :: es) = located [e] ++ located es := located_append [e] es
    rw [hsplit]
    refine List.pairwise_append.2 ⟨?_, ihes hes hothers, ?_⟩
    · rw [located_singleton]
      refine List.pairwise_append.2 ⟨apart_attributes he, ?_, ?_⟩
      · exact ihchildren hchildren (he.children (.inl (Nat.le_refl _)))
      · intro l hl m hm
        obtain ⟨a, ha, rfl⟩ := List.mem_map.1 hl
        have hinside := inside_located hchildren (he.children (.inr ⟨a, ha, Nat.le_refl _⟩)) m hm
        exact .inl hinside.1
    · intro l hl m hm
      have hl := hfront l hl
      have hm := hback m hm
      left
      omega

/-! ## Templates -/

theorem Anchor.contains_toDocument {anchor : Anchor} {s selection : Span} :
    (anchor.toDocument s).contains selection = true ↔
      s.start + anchor.offset ≤ selection.start ∧ selection.stop ≤ s.stop + anchor.offset := by
  simp only [Span.contains, Bool.and_eq_true, decide_eq_true_eq]
  exact Iff.rfl

/-- Attributes that are apart and contain the same selection touch at a caret. -/
theorem Located.Apart.touch {l m : Located} {anchor : Anchor} {selection : Span} (h : l.Apart m)
    (hs : selection.start ≤ selection.stop)
    (hl : (anchor.toDocument l.attr.span).contains selection = true)
    (hm : (anchor.toDocument m.attr.span).contains selection = true) :
    l.Neighbours m ∧ (anchor.toDocument l.attr.span).stop = selection.start ∧
      (anchor.toDocument m.attr.span).start = selection.start ∧
      selection.stop = selection.start := by
  rw [Anchor.contains_toDocument] at hl hm
  simp only [Anchor.toDocument, Span.shift]
  rcases h with h | ⟨hneighbours, h⟩
  · omega
  · refine ⟨hneighbours, ?_, ?_, ?_⟩
    · omega
    · omega
    · omega

section Counting

variable {anchor : Anchor} {selection : Span} {found : List Located}

/-- Of attributes that are apart, at most one contains a selection that is no caret. -/
theorem length_le_one_of_apart (hapart : found.Pairwise Located.Apart)
    (hcontains : ∀ l ∈ found, (anchor.toDocument l.attr.span).contains selection = true)
    (hs : selection.start < selection.stop) : found.length ≤ 1 := by
  rcases found with _ | ⟨l, _ | ⟨m, rest⟩⟩
  · exact Nat.zero_le _
  · exact Nat.le_refl _
  · have hpair := (List.pairwise_cons.1 hapart).1 m List.mem_cons_self
    obtain ⟨-, -, -, hcaret⟩ :=
      hpair.touch (Nat.le_of_lt hs) (hcontains l (by simp)) (hcontains m (by simp))
    omega

/-- Of attributes that are apart, at most two contain a selection. -/
theorem length_le_two_of_apart (hapart : found.Pairwise Located.Apart)
    (hcontains : ∀ l ∈ found, (anchor.toDocument l.attr.span).contains selection = true)
    (hnonempty : ∀ l ∈ found, l.attr.span.start < l.attr.span.stop)
    (hs : selection.start ≤ selection.stop) : found.length ≤ 2 := by
  rcases found with _ | ⟨l, _ | ⟨m, _ | ⟨k, rest⟩⟩⟩
  · exact Nat.zero_le _
  · exact Nat.le_succ _
  · exact Nat.le_refl _
  · -- the attribute in the middle would begin and end at the caret
    obtain ⟨hl, hothers⟩ := List.pairwise_cons.1 hapart
    obtain ⟨-, -, hstart, -⟩ :=
      (hl m List.mem_cons_self).touch hs (hcontains l (by simp)) (hcontains m (by simp))
    obtain ⟨-, hstop, -, -⟩ := ((List.pairwise_cons.1 hothers).1 k List.mem_cons_self).touch hs
      (hcontains m (by simp)) (hcontains k (by simp))
    have hm := hnonempty m (by simp)
    simp only [Anchor.toDocument, Span.shift] at hstart hstop
    omega

end Counting

/-- What is located in a placed forest are the attributes whose places in the document contain the
selection. -/
theorem locate_eq_filter {source : Text} {roots : List Element} (h : AllPlaced source roots)
    (anchor : Anchor) {selection : Span} (hs : selection.start ≤ selection.stop) :
    locate roots anchor selection false =
      (located roots).filter fun l => (anchor.toDocument l.attr.span).contains selection := by
  unfold locate
  split
  · rename_i hlocal
    -- a selection in front of the template lies in none of its attributes
    have hbefore : ¬ (anchor.offset ≤ selection.start ∧ anchor.offset ≤ selection.stop) := by
      intro hbehind
      simp [Anchor.toLocal?, hbehind] at hlocal
    symm
    rw [List.filter_eq_nil_iff]
    intro l _ hcontains
    rw [Anchor.contains_toDocument] at hcontains
    omega
  · rename_i s hlocal
    have hselection := Anchor.toLocal?_eq_some_iff.1 hlocal
    subst hselection
    simp only [Anchor.toDocument, Span.shift] at hs
    have hproper : s.isInverted = false := by
      simp only [Span.isInverted, decide_eq_false_iff_not]
      omega
    rw [hproper, if_neg Bool.false_ne_true, walk_eq_filter h (by omega)]
    refine List.filter_congr fun l _ => ?_
    simp [Anchor.toDocument, Span.shift, Span.contains]

/-- **What is located in a template are the attributes that contain the selection**, in source
order. There is at most one of them, unless the selection is a caret at which two neighbours
touch. -/
theorem locate_parseTemplate (source : Text) (anchor : Anchor) {selection : Span}
    (hs : selection.start ≤ selection.stop) :
    let template := parseTemplate source
    let found := locate template.roots anchor selection false
    found = (template.elements.flatMap fun e => e.attributes.map (Located.mk e)).filter
        (fun l => (anchor.toDocument l.attr.span).contains selection) ∧
      (selection.start < selection.stop → found.length ≤ 1) ∧
      found.length ≤ 2 ∧
      ∀ l m, found = [l, m] → l.Neighbours m ∧
        (anchor.toDocument l.attr.span).stop = selection.start ∧
        (anchor.toDocument m.attr.span).start = selection.start := by
  intro template found
  obtain ⟨hrow, hplaced⟩ := placed_roots source
  have hfound : found = (located template.roots).filter
      (fun l => (anchor.toDocument l.attr.span).contains selection) :=
    locate_eq_filter hplaced anchor hs
  have hapart : found.Pairwise Located.Apart := by
    rw [hfound]
    exact (apart_located hplaced hrow).filter _
  have hcontains : ∀ l ∈ found, (anchor.toDocument l.attr.span).contains selection = true := by
    intro l hl
    rw [hfound] at hl
    exact (List.mem_filter.1 hl).2
  have hnonempty : ∀ l ∈ found, l.attr.span.start < l.attr.span.stop := by
    intro l hl
    rw [hfound] at hl
    exact (inside_located hplaced hrow l (List.mem_filter.1 hl).1).2.1
  refine ⟨hfound, length_le_one_of_apart hapart hcontains,
    length_le_two_of_apart hapart hcontains hnonempty hs, ?_⟩
  intro l m hpair
  rw [hpair] at hapart hcontains
  obtain ⟨hneighbours, hstop, hstart, -⟩ :=
    (List.pairwise_pair.1 hapart).touch hs (hcontains l (by simp)) (hcontains m (by simp))
  exact ⟨hneighbours, hstop, hstart⟩

/-- A caret between an attribute in quotes and the next one. -/
theorem locate_touching :
    let caret := Span.mk 18 18
    caret.start ≤ caret.stop ∧
      ∃ l m, locate (parseTemplate "<p a=\"1\"b>".toList).roots ⟨10⟩ caret false = [l, m] ∧
        l.Neighbours m ∧ (Anchor.toDocument ⟨10⟩ l.attr.span).stop = caret.start ∧
        (Anchor.toDocument ⟨10⟩ m.attr.span).start = caret.start := by
  intro caret
  have hproper : caret.start ≤ caret.stop := Nat.le_refl 18
  have hlength :
      (locate (parseTemplate "<p a=\"1\"b>".toList).roots ⟨10⟩ caret false).length = 2 := by
    decide +kernel
  obtain ⟨l, m, hpair⟩ := List.length_eq_two.1 hlength
  refine ⟨hproper, l, m, hpair, ?_⟩
  exact (locate_parseTemplate "<p a=\"1\"b>".toList ⟨10⟩ hproper).2.2.2 l m hpair

end BindingToggle
