import BindingToggle.Toggle.Locate
import Mathlib.Data.List.Nodup

/-!
# Forests without places

Two templates that differ in one attribute have the same elements in the same arrangement, but all
places behind the attribute differ. An outline of a forest is what is left without the places.

* `unplaced` — an attribute or an element with all places set to zero; `outline` also makes a change
  to every attribute.
* `elementAt?`, `modifyAt` — the element at an address, a list of indices, and the forest with that
  element changed.
* `map_outline_exchange` — in a forest whose attributes begin at different places, a change to the
  attribute that begins at a given place is a change at one address and index.
-/

namespace BindingToggle

/-! ## Attributes -/

/-- The value without its place. -/
def AttributeValue.unplaced (v : AttributeValue) : AttributeValue :=
  { v with span := .caret 0, contentSpan := .caret 0 }

namespace Attribute

/-- The attribute without its place. -/
def unplaced : Attribute → Attribute
  | static a =>
    static
      { a with
        nameSpan := .caret 0
        value := a.value.map AttributeValue.unplaced
        span := .caret 0 }
  | directive d =>
    directive
      { d with
        markerSpan := .caret 0
        argument := d.argument.map fun a => { a with span := .caret 0 }
        expression := d.expression.map fun e => { e with span := .caret 0 }
        span := .caret 0 }

theorem unplaced_of {value value' : Option AttributeValue}
    (h : value.map AttributeValue.unplaced = value'.map AttributeValue.unplaced) (name : Text)
    (start start' : Nat) : (of name start value).unplaced = (of name start' value').unplaced := by
  have hexpr : (boundExpression value).map (fun e => { e with span := .caret 0 }) =
      (boundExpression value').map fun e => { e with span := .caret 0 } := by
    cases value with
    | none => cases value' <;> simp_all
    | some v =>
      cases value' with
      | none => cases h
      | some v' =>
        simp only [Option.map_some, Option.some.injEq] at h
        have hc : v.content = v'.content := (AttributeValue.mk.inj h).1
        simp only [boundExpression, hc]
        split <;> rfl
  cases hn : DirectiveName.ofText? name with
  | none => simp [of, hn, unplaced, h]
  | some parts => simp [of, hn, unplaced, hexpr, Function.comp_def]

@[simp] theorem span_start_of (name : Text) (start : Nat) (value : Option AttributeValue) :
    (of name start value).span.start = start := by
  unfold of
  cases value <;> cases DirectiveName.ofText? name <;> rfl

/-- The attribute without its place, or `new` in the place of one that begins at `start`. -/
def exchange (start : Nat) (new a : Attribute) : Attribute :=
  if a.span.start = start then new.unplaced else a.unplaced

end Attribute

/-! ## Elements -/

namespace Element

mutual

/-- The element without places, and with a change to every attribute. -/
def outline (change : Attribute → Attribute) : Element → Element
  | ⟨tag, _, attributes, children, selfClosing⟩ =>
    ⟨tag, .caret 0, attributes.map change, outlineAll change children, selfClosing⟩

def outlineAll (change : Attribute → Attribute) : List Element → List Element
  | [] => []
  | e :: es => e.outline change :: outlineAll change es

end

/-- The element without places. -/
def unplaced (e : Element) : Element := e.outline Attribute.unplaced

theorem outlineAll_eq_map (change : Attribute → Attribute) (es : List Element) :
    outlineAll change es = es.map (outline change) := by
  induction es with
  | nil => rfl
  | cons e es ih => rw [outlineAll, ih, List.map_cons]

theorem outline_eq (change : Attribute → Attribute) (e : Element) :
    e.outline change =
      { e with
        span := .caret 0
        attributes := e.attributes.map change
        children := e.children.map (outline change) } := by
  cases e
  rw [outline, outlineAll_eq_map]

/-- The attributes of the elements of a forest. -/
def allAttributes (forest : List Element) : List Attribute :=
  (preorderAll forest).flatMap (·.attributes)

@[simp] theorem allAttributes_nil : allAttributes [] = [] := rfl

theorem allAttributes_cons (e : Element) (es : List Element) :
    allAttributes (e :: es) = e.attributes ++ (allAttributes e.children ++ allAttributes es) := by
  simp [allAttributes, preorderAll, Locate.preorder_eq]

theorem allAttributes_append (es fs : List Element) :
    allAttributes (es ++ fs) = allAttributes es ++ allAttributes fs := by
  simp [allAttributes, Locate.preorderAll_append]

mutual

theorem outline_congr {f g : Attribute → Attribute} :
    ∀ e : Element, (∀ a ∈ allAttributes [e], f a = g a) → e.outline f = e.outline g
  | ⟨tag, span, attributes, children, selfClosing⟩, h => by
    have ha : attributes.map f = attributes.map g :=
      List.map_congr_left fun a ha => h a (by simp [allAttributes_cons, ha])
    have hc := outlineAll_congr children fun a ha => h a (by simp [allAttributes_cons, ha])
    rw [outline, outline, ha, hc]

theorem outlineAll_congr {f g : Attribute → Attribute} :
    ∀ es : List Element, (∀ a ∈ allAttributes es, f a = g a) → outlineAll f es = outlineAll g es
  | [], _ => rfl
  | e :: es, h => by
    have hcons : allAttributes (e :: es) = allAttributes [e] ++ allAttributes es :=
      allAttributes_append [e] es
    have he := outline_congr e fun a ha => h a (by simp [hcons, ha])
    have hes := outlineAll_congr es fun a ha => h a (by simp [hcons, ha])
    rw [outlineAll, outlineAll, he, hes]

end

/-- Outlines agree when the changes agree on the attributes of the forest. -/
theorem map_outline_congr {f g : Attribute → Attribute} {es : List Element}
    (h : ∀ a ∈ allAttributes es, f a = g a) : es.map (outline f) = es.map (outline g) := by
  rw [← outlineAll_eq_map, ← outlineAll_eq_map, outlineAll_congr es h]

/-- No attribute of a forest begins at `start`. -/
theorem map_outline_exchange_of_notMem {start : Nat} {es : List Element}
    (h : start ∉ (allAttributes es).map (·.span.start)) (new : Attribute) :
    es.map (outline (Attribute.exchange start new)) = es.map unplaced := by
  refine map_outline_congr fun a ha => ?_
  have hs : a.span.start ≠ start := fun hs => h (List.mem_map.2 ⟨a, ha, hs⟩)
  rw [Attribute.exchange, if_neg hs]

/-! ## Addresses -/

/-- The element at an address of a forest: `index` picks a tree, and each further index an element
inside the one picked so far. -/
def elementAt? (forest : List Element) (index : Nat) : List Nat → Option Element
  | [] => forest[index]?
  | next :: path =>
    match forest[index]? with
    | none => none
    | some e => elementAt? e.children next path

/-- The forest with a change to the element at an address. -/
def modifyAt (change : Element → Element) (forest : List Element) (index : Nat) :
    List Nat → List Element
  | [] => forest.modify index change
  | next :: path =>
    forest.modify index fun e => { e with children := modifyAt change e.children next path }

/-- The element with another attribute at an index. -/
def setAttribute (index : Nat) (new : Attribute) (e : Element) : Element :=
  { e with attributes := e.attributes.set index new }

theorem elementAt?_map_outline (change : Attribute → Attribute) (forest : List Element)
    (index : Nat) (path : List Nat) :
    elementAt? (forest.map (outline change)) index path =
      (elementAt? forest index path).map (outline change) := by
  induction path generalizing forest index with
  | nil => simp [elementAt?]
  | cons next path ih =>
    simp only [elementAt?, List.getElem?_map]
    cases forest[index]? with
    | none => rfl
    | some e =>
      simp only [Option.map_some, outline_eq]
      exact ih e.children next

theorem elementAt?_modifyAt (change : Element → Element) (forest : List Element) (index : Nat)
    (path : List Nat) :
    elementAt? (modifyAt change forest index path) index path =
      (elementAt? forest index path).map change := by
  induction path generalizing forest index with
  | nil => simp [elementAt?, modifyAt]
  | cons next path ih =>
    simp only [elementAt?, modifyAt, List.getElem?_modify_eq]
    cases forest[index]? with
    | none => rfl
    | some e => exact ih e.children next

/-- The change of one attribute of an element, by its place and by its index. -/
theorem map_exchange {attributes : List Attribute} {place : Nat} {a : Attribute}
    (hd : (attributes.map (·.span.start)).Nodup) (ha : attributes[place]? = some a)
    (new : Attribute) :
    attributes.map (Attribute.exchange a.span.start new) =
      (attributes.set place new).map Attribute.unplaced := by
  obtain ⟨hlt, hget⟩ := List.getElem?_eq_some_iff.1 ha
  refine List.ext_getElem (by simp) fun i hi hi' => ?_
  simp only [List.length_map] at hi
  simp only [List.getElem_map, List.getElem_set]
  by_cases hp : place = i
  · subst hp
    simp [hget, Attribute.exchange]
  · have hs : attributes[i].span.start ≠ a.span.start := by
      intro hs
      refine hp ((List.getElem?_inj (by simpa using hlt) hd).1 ?_)
      simp [hlt, hi, hget, hs]
    rw [if_neg hp, Attribute.exchange, if_neg hs]

theorem sublist_allAttributes {forest : List Element} {index : Nat} {e : Element}
    (h : forest[index]? = some e) :
    (e.attributes ++ allAttributes e.children).Sublist (allAttributes forest) := by
  induction forest generalizing index with
  | nil => cases h
  | cons first forest ih =>
    rw [allAttributes_cons, ← List.append_assoc]
    cases index with
    | zero =>
      simp only [List.getElem?_cons_zero, Option.some.injEq] at h
      subst h
      exact List.sublist_append_left _ _
    | succ index => exact (ih (by simpa using h)).trans (List.sublist_append_right _ _)

/-- The attributes of the element at an address are attributes of the forest. -/
theorem mem_allAttributes_of_elementAt? {forest : List Element} {index : Nat} {path : List Nat}
    {e : Element} {a : Attribute} (he : elementAt? forest index path = some e)
    (ha : a ∈ e.attributes) : a ∈ allAttributes forest := by
  induction path generalizing forest index with
  | nil => exact (sublist_allAttributes he).mem (List.mem_append_left _ ha)
  | cons next path ih =>
    simp only [elementAt?] at he
    split at he
    · cases he
    · rename_i tree ht
      exact (sublist_allAttributes ht).mem (List.mem_append_right _ (ih he))

/-- The change of one tree of a forest. -/
theorem map_outline_modify {forest : List Element} {index start : Nat} {e : Element}
    {new : Attribute} {change : Element → Element}
    (hd : ((allAttributes forest).map (·.span.start)).Nodup) (he : forest[index]? = some e)
    (hs : start ∈ (allAttributes [e]).map (·.span.start))
    (hc : e.outline (Attribute.exchange start new) = (change e).unplaced) :
    forest.map (outline (Attribute.exchange start new)) =
      (forest.modify index change).map unplaced := by
  obtain ⟨hlt, rfl⟩ := List.getElem?_eq_some_iff.1 he
  have hforest : forest = forest.take index ++ ([forest[index]] ++ forest.drop (index + 1)) := by
    simp
  have hd' := hd
  rw [hforest, allAttributes_append, allAttributes_append] at hd'
  simp only [List.map_append] at hd'
  -- the other trees have no attribute that begins there
  have hfront : start ∉ (allAttributes (forest.take index)).map (·.span.start) := by
    intro h
    exact List.disjoint_of_nodup_append hd' h (List.mem_append_left _ hs)
  have hback : start ∉ (allAttributes (forest.drop (index + 1))).map (·.span.start) := by
    intro h
    exact List.disjoint_of_nodup_append (List.Nodup.of_append_right hd') hs h
  rw [List.modify_eq_take_cons_drop hlt]
  conv_lhs => rw [hforest]
  simp only [List.map_append, List.map_cons, List.map_nil, hc,
    map_outline_exchange_of_notMem hfront, map_outline_exchange_of_notMem hback]
  rfl

/-- **A change to the attribute that begins at a given place is a change at one address**, when the
attributes of the forest begin at different places. -/
theorem map_outline_exchange {forest : List Element} {index place : Nat} {path : List Nat}
    {e : Element} {a : Attribute} (hd : ((allAttributes forest).map (·.span.start)).Nodup)
    (he : elementAt? forest index path = some e) (ha : e.attributes[place]? = some a)
    (new : Attribute) :
    forest.map (outline (Attribute.exchange a.span.start new)) =
      (modifyAt (setAttribute place new) forest index path).map unplaced := by
  induction path generalizing forest index with
  | nil =>
    have hmem : a ∈ e.attributes := List.mem_of_getElem? ha
    have hsub := hd.sublist ((sublist_allAttributes he).map _)
    rw [List.map_append] at hsub
    have hchildren : a.span.start ∉ (allAttributes e.children).map (·.span.start) := fun h =>
      List.disjoint_of_nodup_append hsub (List.mem_map_of_mem hmem) h
    refine map_outline_modify hd he (List.mem_map.2 ⟨a, by simp [allAttributes_cons, hmem], rfl⟩) ?_
    rw [outline_eq, map_exchange hsub.of_append_left ha, map_outline_exchange_of_notMem hchildren,
      unplaced, outline_eq]
    rfl
  | cons next path ih =>
    simp only [elementAt?] at he
    split at he
    · cases he
    rename_i tree ht
    have hmem := mem_allAttributes_of_elementAt? he (List.mem_of_getElem? ha)
    have hsub := hd.sublist ((sublist_allAttributes ht).map _)
    rw [List.map_append] at hsub
    have hself : tree.attributes.map (Attribute.exchange a.span.start new) =
        tree.attributes.map Attribute.unplaced := by
      refine List.map_congr_left fun b hb => if_neg fun hs => ?_
      exact List.disjoint_of_nodup_append hsub (List.mem_map_of_mem hb)
        (List.mem_map.2 ⟨a, hmem, hs.symm⟩)
    refine map_outline_modify hd ht (List.mem_map.2 ⟨a, by simp [allAttributes_cons, hmem], rfl⟩) ?_
    rw [outline_eq, hself, ih hsub.of_append_right he, unplaced, outline_eq]
    rfl

/-- The attribute of a forest at an address and an index where another forest of the same outline
has been given a new one. -/
theorem exists_attribute_of_map_unplaced {forest forest' : List Element} {index place : Nat}
    {path : List Nat} {e : Element} {a new : Attribute} (he : elementAt? forest index path = some e)
    (ha : e.attributes[place]? = some a)
    (h : forest'.map unplaced =
      (modifyAt (setAttribute place new) forest index path).map unplaced) :
    ∃ e' new', elementAt? forest' index path = some e' ∧ e'.attributes[place]? = some new' ∧
      new'.unplaced = new.unplaced := by
  have hat : (elementAt? forest' index path).map unplaced =
      some (setAttribute place new e).unplaced := by
    have hleft := elementAt?_map_outline Attribute.unplaced forest' index path
    have hright := elementAt?_map_outline Attribute.unplaced
      (modifyAt (setAttribute place new) forest index path) index path
    rw [elementAt?_modifyAt, he] at hright
    exact (hleft.symm.trans (congrArg (elementAt? · index path) h)).trans hright
  obtain ⟨e', he', hunplaced⟩ := Option.map_eq_some_iff.1 hat
  rw [unplaced, unplaced, outline_eq, outline_eq] at hunplaced
  have hattributes : e'.attributes.map Attribute.unplaced =
      (e.attributes.set place new).map Attribute.unplaced := (mk.inj hunplaced).2.2.1
  have hplace := congrArg (·[place]?) hattributes
  have hlt := (List.getElem?_eq_some_iff.1 ha).1
  simp only [List.getElem?_map, List.getElem?_set_self hlt, Option.map_some,
    Option.map_eq_some_iff] at hplace
  obtain ⟨new', hnew, hunplaced'⟩ := hplace
  exact ⟨e', new', he', hnew, hunplaced'⟩

end Element

end BindingToggle
