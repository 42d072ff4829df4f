import BindingToggle.Proofs.Selection

/-!
# What a walk over a forest reaches

The walk for a selection works off an agenda and drops an element with everything inside of it. So
what it finds of an element depends on the elements around it. Nothing is asked here of the places
of elements and attributes: they may be inverted, or lie outside of what they belong to.

* `Lineage` — an element and the elements that it is inside of. `lineagesAll` lists the elements of
  a forest in this way by recursion on the trees; `map_element_lineagesAll` says that these are all
  of them, in source order.
* `Lineage.Reaches` — the condition on an attribute, its element and the elements around that one.
* `walk_append`, `walk_cons` — the agenda can be worked off tree by tree.
* `walk_eq_reached` — the walk finds the attributes that are reached. Its invariant is that the
  elements around the agenda touch the selection.
* `locate_eq_reached` — the statement for selections of a document.
-/

namespace BindingToggle

open Element (preorderAll)

/-! ## Elements and what is around them -/

/-- An element of a forest, and the elements that it is inside of, innermost first. -/
structure Lineage where
  element : Element
  ancestors : List Element

namespace Element

mutual

/-- An element inside of `ancestors` and all elements inside of it, depth first in source order. -/
def lineages (ancestors : List Element) : Element → List Lineage
  | ⟨tag, span, attributes, children, selfClosing⟩ =>
    ⟨⟨tag, span, attributes, children, selfClosing⟩, ancestors⟩ ::
      lineagesAll (⟨tag, span, attributes, children, selfClosing⟩ :: ancestors) children

/-- The elements of a forest inside of `ancestors`, depth first in source order. -/
def lineagesAll (ancestors : List Element) : List Element → List Lineage
  | [] => []
  | e :: es => e.lineages ancestors ++ lineagesAll ancestors es

end

theorem lineagesAll_cons (ancestors : List Element) (e : Element) (es : List Element) :
    lineagesAll ancestors (e :: es) =
      ⟨e, ancestors⟩ :: (lineagesAll (e :: ancestors) e.children ++ lineagesAll ancestors es) := by
  cases e
  rfl

/-- No element of a forest is left out, and their order is that of the source. -/
theorem map_element_lineagesAll (ancestors es : List Element) :
    (lineagesAll ancestors es).map Lineage.element = preorderAll es := by
  induction es using forestInduction generalizing ancestors with
  | nil => rfl
  | cons e es ihchildren ihes =>
    rw [lineagesAll_cons, List.map_cons, List.map_append, ihchildren, ihes, preorderAll,
      Locate.preorder_eq, List.cons_append]

/-- The elements around a forest are around each of its elements. -/
theorem ancestors_subset {ancestors es : List Element} {l : Lineage}
    (hl : l ∈ lineagesAll ancestors es) : ancestors ⊆ l.ancestors := by
  induction es using forestInduction generalizing ancestors with
  | nil => cases hl
  | cons e es ihchildren ihes =>
    rw [lineagesAll_cons, List.mem_cons, List.mem_append] at hl
    rcases hl with rfl | hl | hl
    · exact List.Subset.refl _
    · intro d hd
      apply ihchildren hl
      exact List.mem_cons_of_mem e hd
    · exact ihes hl

end Element

open Element (lineagesAll lineagesAll_cons ancestors_subset)

/-! ## What a selection reaches -/

/-- The element and the selection have a place in common, if only an end. -/
def Element.Touches (selection : Span) (e : Element) : Prop :=
  e.span.start ≤ selection.stop ∧ selection.start ≤ e.span.stop

instance (selection : Span) (e : Element) : Decidable (e.Touches selection) :=
  inferInstanceAs (Decidable (_ ∧ _))

theorem Element.touches_iff {selection : Span} {e : Element} :
    e.Touches selection ↔ e.span.isDisjoint selection = false := by
  simp only [Touches, Span.isDisjoint, Bool.or_eq_false_iff, decide_eq_false_iff_not]
  omega

/-- The selection touches the element and all elements around it, and lies in the attribute, which
lies in the element. -/
@[mk_iff]
structure Lineage.Reaches (selection : Span) (l : Lineage) (a : Attribute) : Prop where
  touches : ∀ e ∈ l.element :: l.ancestors, e.Touches selection
  ordered : a.span.start ≤ a.span.stop
  inside : l.element.span.start ≤ a.span.start ∧ a.span.stop ≤ l.element.span.stop
  around : a.span.start ≤ selection.start ∧ selection.stop ≤ a.span.stop

instance (selection : Span) (l : Lineage) (a : Attribute) : Decidable (l.Reaches selection a) :=
  decidable_of_iff _ (Lineage.reaches_iff selection l a).symm

/-- The attributes of an element that are reached. -/
def Lineage.reached (selection : Span) (l : Lineage) : List Located :=
  (l.element.attributes.filter fun a => l.Reaches selection a).map (Located.mk l.element)

theorem Lineage.reached_eq_found {selection : Span} {l : Lineage}
    (h : ∀ e ∈ l.element :: l.ancestors, e.Touches selection) :
    l.reached selection = Locate.found selection l.element := by
  unfold reached Locate.found
  refine congrArg _ (List.filter_congr fun a _ => ?_)
  rw [Bool.eq_iff_iff, decide_eq_true_iff, reaches_iff]
  simp only [Locate.hits, Span.isInverted, Span.contains, Bool.and_eq_true, Bool.not_eq_true',
    decide_eq_true_eq, decide_eq_false_iff_not, Nat.not_lt]
  constructor
  · rintro ⟨-, hordered, hinside, haround⟩
    exact ⟨⟨hordered, hinside⟩, haround⟩
  · rintro ⟨⟨hordered, hinside⟩, haround⟩
    exact ⟨h, hordered, hinside, haround⟩

/-- Nothing is reached inside of an element that the selection does not touch. -/
theorem Lineage.reached_eq_nil {selection : Span} {l : Lineage} {e : Element}
    (he : e ∈ l.element :: l.ancestors) (hdisjoint : ¬ e.Touches selection) :
    l.reached selection = [] := by
  unfold reached
  rw [List.map_eq_nil_iff, List.filter_eq_nil_iff]
  intro a _ hreaches
  exact hdisjoint ((decide_eq_true_iff.1 hreaches).touches e he)

/-! ## The walk -/

namespace Locate

variable (selection : Span)

/-- The front of the agenda is worked off before the rest, and apart from it. -/
theorem walk_append (cancelled : Bool) (es fs : List Element) :
    walk selection cancelled (es ++ fs) =
      walk selection cancelled es ++ walk selection cancelled fs := by
  fun_induction walk selection cancelled es with
  | case1 => rfl
  | case2 e others hcancelled =>
    -- what is behind is not looked at either
    rw [List.cons_append, walk, if_pos hcancelled, List.nil_append]
    cases fs with
    | nil => rw [walk]
    | cons f fs => rw [walk, if_pos hcancelled]
  | case3 e others hgo hdisjoint ih =>
    rw [List.cons_append, walk, if_neg hgo, if_pos hdisjoint, ih]
  | case4 e others hgo hdisjoint ih =>
    rw [List.cons_append, walk, if_neg hgo, if_neg hdisjoint, ← List.append_assoc, ih,
      List.append_assoc]

/-- One tree of the agenda: it is dropped, or searched from its root on. -/
theorem walk_cons (e : Element) (es : List Element) :
    walk selection false (e :: es) =
      (if e.span.isDisjoint selection then []
        else found selection e ++ walk selection false e.children) ++
        walk selection false es := by
  rw [walk, if_neg Bool.false_ne_true]
  split
  · rfl
  · rw [walk_append, List.append_assoc]

/-- A walk that was called off before it began finds nothing. -/
theorem walk_cancelled (es : List Element) : walk selection true es = [] := by
  cases es with
  | nil => rw [walk]
  | cons e es => rw [walk, if_pos rfl]

/-- **The walk finds what is reached**, if the elements around its agenda touch the selection. -/
theorem walk_eq_reached {ancestors : List Element} (es : List Element)
    (h : ∀ e ∈ ancestors, e.Touches selection) :
    walk selection false es = (lineagesAll ancestors es).flatMap (Lineage.reached selection) := by
  -- over the forest; the root of a tree is around its children, so they may be searched if it
  -- touches the selection, and otherwise none of them is reached
  induction es using Element.forestInduction generalizing ancestors with
  | nil => rw [walk]; rfl
  | cons e es ihchildren ihes =>
    rw [walk_cons, lineagesAll_cons, List.flatMap_cons, List.flatMap_append, ← ihes h,
      ← List.append_assoc]
    congr 1
    by_cases htouches : e.Touches selection
    · have haround : ∀ d ∈ e :: ancestors, d.Touches selection :=
        List.forall_mem_cons.2 ⟨htouches, h⟩
      rw [Element.touches_iff.1 htouches, if_neg Bool.false_ne_true, ihchildren haround,
        Lineage.reached_eq_found haround]
    · have hdisjoint : e.span.isDisjoint selection = true := by
        rwa [Element.touches_iff, Bool.not_eq_false] at htouches
      have hchildren : ∀ l ∈ lineagesAll (e :: ancestors) e.children, l.reached selection = [] := by
        intro l hl
        apply Lineage.reached_eq_nil (e := e) _ htouches
        exact List.mem_cons_of_mem _ (ancestors_subset hl List.mem_cons_self)
      rw [hdisjoint, if_pos rfl, Lineage.reached_eq_nil List.mem_cons_self htouches,
        List.flatMap_eq_nil_iff.2 hchildren, List.append_nil]

end Locate

/-! ## Selections of a document -/

/-- **What is located in a forest are the attributes that are reached**, in source order, wherever
its elements and attributes lie. There are none for a selection that is inverted or has an end in
front of the anchor, and none after the walk was called off. -/
theorem locate_eq_reached (roots : List Element) (anchor : Anchor) (selection : Span) :
    locate roots anchor selection false =
        (if selection.start < anchor.offset ∨ selection.stop < anchor.offset ∨
            selection.stop < selection.start then []
          else (lineagesAll [] roots).flatMap
            (Lineage.reached ⟨selection.start - anchor.offset, selection.stop - anchor.offset⟩)) ∧
      locate roots anchor selection true = [] := by
  constructor
  · unfold locate Anchor.toLocal?
    by_cases hbehind : anchor.offset ≤ selection.start ∧ anchor.offset ≤ selection.stop
    · rw [if_pos hbehind]
      simp only [Span.isInverted, decide_eq_true_eq]
      by_cases hinverted : selection.stop < selection.start
      · rw [if_pos (by omega), if_pos (by omega)]
      · rw [if_neg (by omega), if_neg (by omega)]
        exact Locate.walk_eq_reached _ roots (List.forall_mem_nil _)
    · rw [if_neg hbehind, if_pos (by omega)]
  · unfold locate
    split
    · rfl
    · rw [Locate.walk_cancelled, ite_self]

/-- An inverted attribute hides neither its neighbour nor what is in an element that sticks out. -/
example :
    let named (name : String) (s : Span) : Attribute := .static ⟨name.toList, s, none, s⟩
    let child : Element := ⟨"i".toList, ⟨4, 30⟩, [named "c" ⟨4, 20⟩], [], true⟩
    let root : Element :=
      ⟨"p".toList, ⟨0, 9⟩, [named "a" ⟨6, 3⟩, named "b" ⟨3, 6⟩], [child], false⟩
    (locate [root] ⟨10⟩ ⟨14, 14⟩ false).map (·.attr.rawName) = ["b".toList, "c".toList] := by
  decide +kernel

end BindingToggle
