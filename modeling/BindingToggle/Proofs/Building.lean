import BindingToggle.Proofs.Outline
import BindingToggle.Template.Forest
import Mathlib.Algebra.Order.Group.Multiset
import Mathlib.Tactic.Abel

/-!
# How forests are built

What the builder does with an event does not depend on places or on attributes, and no start tag is
lost or made on the way.

* `Builder.outline_foldl` — the builder takes events of the same outline to forests of the same
  outline; `outline_parseTemplate` is the statement for templates.
* `perm_heads` — the start tags of the elements of a template are those of its events, in some
  order; `perm_allAttributes` says so of the attributes.
-/

namespace BindingToggle

open Element (allAttributes preorderAll)

/-! ## Outlines -/

/-- The issue without its place. -/
def Issue.unplaced (i : Issue) : Issue := ⟨i.problem, .caret 0⟩

/-- The event without places, and with a change to every attribute. -/
def Markup.Event.outline (change : Attribute → Attribute) : Markup.Event → Markup.Event
  | issue i => issue i.unplaced
  | leaf e => leaf (e.outline change)
  | opening tag _ attributes => opening tag 0 (attributes.map change)
  | closing tag _ => closing tag (.caret 0)

/-- The open element without places, and with a change to every attribute. -/
def OpenElement.outline (change : Attribute → Attribute) (o : OpenElement) : OpenElement :=
  ⟨o.tag, 0, o.attributes.map change, o.children.map (Element.outline change)⟩

namespace Builder

/-- The forest without places, and with a change to every attribute. -/
def outline (change : Attribute → Attribute) (b : Builder) : Builder :=
  ⟨b.stack.map (OpenElement.outline change), b.roots.map (Element.outline change),
    b.issues.map Issue.unplaced⟩

section Alike

-- Two builders that have the same outline under two changes: each step of the first is followed by
-- the second.
variable {f g : Attribute → Attribute} {b b' : Builder}

theorem outline_report {i i' : Issue} (h : b.outline f = b'.outline g)
    (hi : i.problem = i'.problem) : (b.report i).outline f = (b'.report i').outline g := by
  simp only [outline, mk.injEq] at h
  simp [outline, report, Issue.unplaced, h, hi]

theorem outline_add {e e' : Element} (h : b.outline f = b'.outline g)
    (he : e.outline f = e'.outline g) : (b.add e).outline f = (b'.add e').outline g := by
  simp only [outline, mk.injEq] at h
  obtain ⟨hs, hr, hi⟩ := h
  unfold add
  split <;> rename_i hb <;> split <;> rename_i hb' <;> simp only [hb, hb', List.map_cons,
    List.map_nil, reduceCtorEq, List.cons.injEq] at hs
  · simp [outline, hb, hb', hr, hi, he]
  · obtain ⟨ho, hs⟩ := hs
    simp only [OpenElement.outline, OpenElement.mk.injEq, true_and] at ho
    simp [outline, OpenElement.outline, hs, hr, hi, he, ho]

theorem outline_openElement_close {o o' : OpenElement} (h : o.outline f = o'.outline g)
    (stop stop' : Nat) : (o.close stop).outline f = (o'.close stop').outline g := by
  simp only [OpenElement.outline, OpenElement.mk.injEq, true_and] at h
  simp [OpenElement.close, Element.outline_eq, h]

theorem outline_close (h : b.outline f = b'.outline g) (stop stop' : Nat) :
    (b.close stop).outline f = (b'.close stop').outline g := by
  have hs : b.stack.map (OpenElement.outline f) = b'.stack.map (OpenElement.outline g) :=
    congrArg stack h
  unfold close
  split <;> rename_i hb <;> split <;> rename_i hb' <;> simp only [hb, hb', List.map_cons,
    List.map_nil, reduceCtorEq, List.cons.injEq] at hs
  · exact h
  · simp only [outline, mk.injEq] at h
    refine outline_add ?_ (outline_openElement_close hs.1 stop stop')
    simp [outline, hs, h]

theorem outline_abandon (h : b.outline f = b'.outline g) (stop stop' : Nat) :
    (b.abandon stop).outline f = (b'.abandon stop').outline g := by
  have hs : b.stack.map (OpenElement.outline f) = b'.stack.map (OpenElement.outline g) :=
    congrArg stack h
  unfold abandon
  split <;> rename_i hb <;> split <;> rename_i hb' <;> simp only [hb, hb', List.map_cons,
    List.map_nil, reduceCtorEq, List.cons.injEq] at hs
  · exact h
  · rename_i o below _ o' below'
    have htag : o.tag = o'.tag := (OpenElement.mk.inj hs.1).1
    simp only [outline, mk.injEq] at h
    refine outline_add (outline_report ?_ ?_) (outline_openElement_close hs.1 stop stop')
    · simp [outline, hs, h]
    · simp [OpenElement.unclosed, htag]

theorem outline_abandonMany (h : b.outline f = b'.outline g) (stop stop' count : Nat) :
    (b.abandonMany stop count).outline f = (b'.abandonMany stop' count).outline g := by
  induction count generalizing b b' with
  | zero => exact h
  | succ count ih => exact ih (outline_abandon h stop stop')

theorem outline_closeTag (h : b.outline f = b'.outline g) (tag : Text) (span span' : Span) :
    (b.closeTag tag span).outline f = (b'.closeTag tag span').outline g := by
  have hs : b.stack.map (OpenElement.outline f) = b'.stack.map (OpenElement.outline g) :=
    congrArg stack h
  have hfind : ∀ (c : Attribute → Attribute) (s : List OpenElement),
      (s.map (OpenElement.outline c)).findIdx? (fun o => Text.eqFolded o.tag tag) =
        s.findIdx? fun o => Text.eqFolded o.tag tag := by
    intro c s
    rw [List.findIdx?_map]
    rfl
  have hsame : b.stack.findIdx? (fun o => Text.eqFolded o.tag tag) =
      b'.stack.findIdx? fun o => Text.eqFolded o.tag tag := by
    rw [← hfind f, hs, hfind g]
  unfold closeTag
  rw [hsame]
  split
  · exact outline_report h rfl
  · exact outline_close (outline_abandonMany h _ _ _) _ _

/-- **A step is followed by a step** of an event of the same outline. -/
theorem outline_step {e e' : Markup.Event} (h : b.outline f = b'.outline g)
    (he : e.outline f = e'.outline g) : (b.step e).outline f = (b'.step e').outline g := by
  cases e <;> cases e' <;> simp only [Markup.Event.outline, reduceCtorEq, Markup.Event.issue.injEq,
    Markup.Event.leaf.injEq, Markup.Event.opening.injEq, Markup.Event.closing.injEq, true_and,
    and_true] at he
  · exact outline_report h (Issue.mk.inj he).1
  · exact outline_add h he
  · simp only [outline, mk.injEq] at h
    simp [step, outline, OpenElement.outline, h, he]
  · subst he
    exact outline_closeTag h _ _ _

theorem outline_foldl {es es' : List Markup.Event} (h : b.outline f = b'.outline g)
    (hes : es.map (Markup.Event.outline f) = es'.map (Markup.Event.outline g)) :
    (es.foldl step b).outline f = (es'.foldl step b').outline g := by
  induction es generalizing es' b b' with
  | nil =>
    cases es' with
    | nil => exact h
    | cons e' es' => cases hes
  | cons e es ih =>
    cases es' with
    | nil => cases hes
    | cons e' es' =>
      simp only [List.map_cons, List.cons.injEq] at hes
      rw [List.foldl_cons, List.foldl_cons]
      exact ih (outline_step h hes.1) hes.2

theorem outline_finish (h : b.outline f = b'.outline g) (stop stop' : Nat) :
    (b.finish stop).outline f = (b'.finish stop').outline g := by
  have hlen : b.stack.length = b'.stack.length := by
    simpa [outline] using congrArg (fun c => c.stack.length) h
  unfold finish
  rw [hlen]
  exact outline_abandonMany h stop stop' _

end Alike

end Builder

/-- Templates with events of the same outline have the same outline, and the same problems. -/
theorem outline_parseTemplate {source source' : Text} {f g : Attribute → Attribute}
    (h : (Markup.events ⟨0, source⟩).map (Markup.Event.outline f) =
      (Markup.events ⟨0, source'⟩).map (Markup.Event.outline g)) :
    (parseTemplate source).roots.map (Element.outline f) =
        (parseTemplate source').roots.map (Element.outline g) ∧
      (parseTemplate source).issues.map (·.problem) =
        (parseTemplate source').issues.map (·.problem) := by
  have hempty : Builder.empty.outline f = Builder.empty.outline g := rfl
  have hbuilt := Builder.outline_finish (Builder.outline_foldl hempty h) (Text.width source)
    (Text.width source')
  simp only [Builder.outline, Builder.mk.injEq] at hbuilt
  refine ⟨?_, ?_⟩
  · simp only [parseTemplate, List.map_reverse, hbuilt]
  · have := congrArg (List.map (·.problem)) hbuilt.2.2
    simp only [List.map_map] at this
    simp only [parseTemplate, List.map_reverse]
    exact congrArg List.reverse this

/-! ## Start tags -/

/-- The name, the place and the attributes of a start tag. -/
structure Element.Head where
  tag : Text
  start : Nat
  attributes : List Attribute
  deriving DecidableEq, Repr, Inhabited

namespace Element

/-- The start tag that the element begins with. -/
def head (e : Element) : Head := ⟨e.tag, e.span.start, e.attributes⟩

/-- The start tags of the elements of a forest. -/
def heads (forest : List Element) : List Head := (preorderAll forest).map head

theorem heads_cons (e : Element) (es : List Element) :
    heads (e :: es) = e.head :: (heads e.children ++ heads es) := by
  simp [heads, preorderAll, Locate.preorder_eq]

theorem heads_append (es fs : List Element) : heads (es ++ fs) = heads es ++ heads fs := by
  simp [heads, Locate.preorderAll_append]

theorem allAttributes_eq_flatMap (forest : List Element) :
    allAttributes forest = (heads forest).flatMap (·.attributes) := by
  rw [heads, List.flatMap_map]
  rfl

theorem coe_heads_cons (e : Element) (es : List Element) :
    (heads (e :: es) : Multiset Head) = e.head ::ₘ (heads e.children + heads es) := by
  rw [heads_cons, ← Multiset.cons_coe, Multiset.coe_add]

theorem coe_heads_reverse (es : List Element) :
    (heads es.reverse : Multiset Head) = heads es := by
  induction es with
  | nil => rfl
  | cons e es ih =>
    rw [List.reverse_cons, heads_append, ← Multiset.coe_add, ih, coe_heads_cons, coe_heads_cons]
    simp [heads, preorderAll, add_comm]

end Element

open Element (Head)

/-- The start tags of the elements of an event. -/
def Markup.Event.heads : Markup.Event → List Head
  | leaf e => Element.heads [e]
  | opening tag start attributes => [⟨tag, start, attributes⟩]
  | _ => []

/-- The start tags of an open element and of the elements inside it. -/
def OpenElement.heads (o : OpenElement) : Multiset Head :=
  ⟨o.tag, o.start, o.attributes⟩ ::ₘ (Element.heads o.children : Multiset Head)

namespace Builder

/-- The start tags of a forest that is being built. -/
def heads (b : Builder) : Multiset Head :=
  (b.stack.map OpenElement.heads).sum + Element.heads b.roots

theorem coe_heads_close (o : OpenElement) (stop : Nat) :
    (Element.heads [o.close stop] : Multiset Head) = o.heads := by
  rw [Element.coe_heads_cons, OpenElement.close, Element.coe_heads_reverse]
  exact congrArg _ (add_zero _)

theorem heads_report (i : Issue) (b : Builder) : (b.report i).heads = b.heads := rfl

theorem heads_add (e : Element) (b : Builder) :
    (b.add e).heads = Element.heads [e] + b.heads := by
  have hcons : ∀ es : List Element, (Element.heads (e :: es) : Multiset Head) =
      Element.heads [e] + Element.heads es := by
    intro es
    rw [Multiset.coe_add, ← Element.heads_append]
    rfl
  unfold add heads
  split
  · rename_i hb
    simp only [hb, List.map_nil, List.sum_nil, zero_add]
    exact hcons b.roots
  · rename_i o below hb
    simp only [hb, List.map_cons, List.sum_cons, OpenElement.heads]
    rw [hcons o.children, ← Multiset.add_cons, add_assoc, add_assoc, add_assoc]

theorem heads_close (stop : Nat) (b : Builder) : (b.close stop).heads = b.heads := by
  unfold close
  split
  · rfl
  · rename_i hb
    rw [heads_add, coe_heads_close]
    simp only [heads, hb, List.map_cons, List.sum_cons, add_assoc]

theorem heads_abandon (stop : Nat) (b : Builder) : (b.abandon stop).heads = b.heads := by
  unfold abandon
  split
  · rfl
  · rename_i hb
    rw [heads_add, coe_heads_close, heads_report]
    simp only [heads, hb, List.map_cons, List.sum_cons, add_assoc]

theorem heads_abandonMany (stop count : Nat) (b : Builder) :
    (b.abandonMany stop count).heads = b.heads := by
  induction count generalizing b with
  | zero => rfl
  | succ count ih => rw [abandonMany, ih, heads_abandon]

theorem heads_finish (stop : Nat) (b : Builder) : (b.finish stop).heads = b.heads :=
  heads_abandonMany stop b.stack.length b

theorem heads_step (b : Builder) (e : Markup.Event) : (b.step e).heads = e.heads + b.heads := by
  cases e with
  | issue i => exact (zero_add _).symm
  | leaf e => exact heads_add e b
  | opening tag start attributes =>
    simp [step, heads, OpenElement.heads, Markup.Event.heads, Element.heads, preorderAll]
  | closing tag span =>
    simp only [step, closeTag, Markup.Event.heads, Multiset.coe_nil, zero_add]
    split
    · exact heads_report _ b
    · rw [heads_close, heads_abandonMany]

theorem heads_foldl (es : List Markup.Event) (b : Builder) :
    (es.foldl step b).heads = es.flatMap Markup.Event.heads + b.heads := by
  induction es generalizing b with
  | nil => exact (zero_add _).symm
  | cons e es ih =>
    rw [List.foldl_cons, ih, heads_step, List.flatMap_cons, ← Multiset.coe_add]
    abel

theorem length_stack_abandon (stop : Nat) (b : Builder) :
    (b.abandon stop).stack.length = b.stack.length - 1 := by
  unfold abandon
  split
  · rename_i hb
    simp [hb]
  · rename_i hb
    unfold add report
    simp only [hb]
    split <;> simp_all

/-- Everything is closed at the end. -/
theorem stack_finish (stop : Nat) (b : Builder) : (b.finish stop).stack = [] := by
  unfold finish
  induction hn : b.stack.length generalizing b with
  | zero => exact List.length_eq_zero_iff.1 hn
  | succ n ih =>
    rw [abandonMany]
    exact ih _ (by rw [length_stack_abandon, hn]; rfl)

end Builder

/-- **The start tags of a template are those of its events.** -/
theorem perm_heads (source : Text) :
    (Element.heads (parseTemplate source).roots).Perm
      ((Markup.events ⟨0, source⟩).flatMap Markup.Event.heads) := by
  have hstack := Builder.stack_finish (Text.width source)
    ((Markup.events ⟨0, source⟩).foldl Builder.step Builder.empty)
  rw [← Multiset.coe_eq_coe]
  calc (Element.heads (parseTemplate source).roots : Multiset Head)
      = (((Markup.events ⟨0, source⟩).foldl Builder.step Builder.empty).finish
          (Text.width source)).heads := by
        simp [parseTemplate, Element.coe_heads_reverse, Builder.heads, hstack]
    _ = ((Markup.events ⟨0, source⟩).foldl Builder.step Builder.empty).heads :=
        Builder.heads_finish _ _
    _ = (Markup.events ⟨0, source⟩).flatMap Markup.Event.heads := by
        rw [Builder.heads_foldl]
        exact add_zero _

/-- The attributes of the element of an event. -/
def Markup.Event.attributes : Markup.Event → List Attribute
  | leaf e => allAttributes [e]
  | opening _ _ attributes => attributes
  | _ => []

theorem Markup.Event.attributes_eq_flatMap (e : Markup.Event) :
    e.attributes = e.heads.flatMap (·.attributes) := by
  cases e with
  | leaf e => exact Element.allAttributes_eq_flatMap [e]
  | opening tag start as => exact (List.append_nil as).symm
  | issue i => rfl
  | closing tag span => rfl

theorem flatMap_attributes (es : List Markup.Event) :
    es.flatMap Markup.Event.attributes =
      (es.flatMap Markup.Event.heads).flatMap (·.attributes) := by
  rw [List.flatMap_assoc]
  exact congrArg (List.flatMap · es) (funext Markup.Event.attributes_eq_flatMap)

/-- **The attributes of a template are those of its events.** -/
theorem perm_allAttributes (source : Text) :
    (allAttributes (parseTemplate source).roots).Perm
      ((Markup.events ⟨0, source⟩).flatMap Markup.Event.attributes) := by
  rw [flatMap_attributes, Element.allAttributes_eq_flatMap]
  exact (perm_heads source).flatMap_right _

end BindingToggle
