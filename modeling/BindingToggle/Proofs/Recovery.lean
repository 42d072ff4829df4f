import BindingToggle.Proofs.Fragments
import BindingToggle.Proofs.Moves
import BindingToggle.Proofs.Selection

/-!
# No element ends in silence

Reading never fails, so every element ends somewhere: with its start tag, with its own closing tag,
in front of the closing tag of an element around it, or with the template. The last two are
reported, and so is a start tag that the template ends in. Nothing else is reported in this way, and
nothing twice.

* `Builder.ended`, `Builder.reported` — the elements that have ended, and the places of those
  reports.
* `Builder.Accounted` — the invariant of a forest that is being built: every element that has ended
  closes itself, is void, is reported or has its closing tag, and the reports are about elements
  that have ended, one report about one element.
* `Accounted.move` — a move keeps it, and so do all the moves of a reading (`Accounted.moves`).
* `ascending_starts` — no two elements of a template begin at the same place.
* `accounted_parseTemplate` — in every template, the elements without an end of their own and the
  reports correspond to each other.
-/

namespace BindingToggle

open Text Markup
open Element (AllPlaced preorderAll)

/-- The element ends with a closing tag of its own, behind its name, its attributes and all that is
inside of it. -/
def Element.EndsClosed (source : Text) (e : Element) : Prop :=
  ∃ place name x, slice? source place e.span.stop = some x ∧ IsClosingTag name x ∧
    eqFolded e.tag name = true ∧ e.span.start + 1 + width e.tag ≤ place ∧
    (∀ a ∈ e.attributes, a.span.stop ≤ place) ∧ ∀ c ∈ e.children, c.span.stop ≤ place

theorem OpenElement.Placed.endsClosed {source name x : Text} {o : OpenElement} {span : Span}
    (ho : o.Placed source span.start) (hslice : span.slice? source = some x)
    (hx : IsClosingTag name x) (hname : eqFolded o.tag name = true) :
    (o.close span.stop).EndsClosed source := by
  -- all parts of the element stand in front of the place up to which it is placed
  have hparts : ∀ s ∈ o.attributes.map Attribute.span ++ o.children.reverse.map Element.span,
      s.stop ≤ span.start := fun s hs => (ho.closed.parts.bounds s hs).2.2
  refine ⟨span.start, name, x, hslice, hx, hname, ho.closed.name_le, ?_, ?_⟩
  · intro a ha
    exact hparts a.span (List.mem_append_left _ (List.mem_map_of_mem ha))
  · intro c hc
    exact hparts c.span (List.mem_append_right _ (List.mem_map_of_mem hc))

/-! ## What has ended, and what is reported -/

namespace Builder

/-- The elements of a forest that is being built that have ended. -/
def ended (b : Builder) : Multiset Element :=
  (b.stack.map fun o => (preorderAll o.children : Multiset Element)).sum + preorderAll b.roots

/-- The places at which elements begin that are reported as unclosed. -/
def reported (b : Builder) : Multiset Nat :=
  (b.issues.filter Issue.isUnclosed).map (·.span.start)

variable {source : Text} {b b' : Builder}

theorem coe_preorderAll_cons (e : Element) (es : List Element) :
    (preorderAll (e :: es) : Multiset Element) =
      e ::ₘ (preorderAll e.children + preorderAll es) := by
  simp only [preorderAll, Locate.preorder_eq, List.cons_append, ← Multiset.cons_coe,
    ← Multiset.coe_add]

theorem coe_preorderAll_reverse (es : List Element) :
    (preorderAll es.reverse : Multiset Element) = preorderAll es := by
  induction es with
  | nil => rfl
  | cons e es ih =>
    rw [List.reverse_cons, Locate.preorderAll_append, ← Multiset.coe_add, ih,
      coe_preorderAll_cons, coe_preorderAll_cons]
    simp [preorderAll, add_comm]

theorem ended_add (e : Element) (b : Builder) :
    (b.add e).ended = e ::ₘ (preorderAll e.children + b.ended) := by
  unfold add ended
  split
  · rename_i hb
    simp only [hb, coe_preorderAll_cons, List.map_nil, List.sum_nil, zero_add]
  · rename_i hb
    simp only [hb, coe_preorderAll_cons, List.map_cons, List.sum_cons, Multiset.cons_add, add_assoc]

/-- An element that ends comes to those inside of it. -/
theorem ended_pop {o : OpenElement} {below : List OpenElement} (hs : b.stack = o :: below)
    (stop : Nat) :
    ({ b with stack := below }.add (o.close stop)).ended = o.close stop ::ₘ b.ended := by
  rw [ended_add]
  simp only [ended, hs, OpenElement.close, coe_preorderAll_reverse, List.map_cons, List.sum_cons,
    add_assoc]

theorem ended_close {o : OpenElement} {below : List OpenElement} (hs : b.stack = o :: below)
    (stop : Nat) : (b.close stop).ended = o.close stop ::ₘ b.ended := by
  rw [close, hs]
  exact ended_pop hs stop

theorem ended_abandon {o : OpenElement} {below : List OpenElement} (hs : b.stack = o :: below)
    (stop : Nat) : (b.abandon stop).ended = o.close stop ::ₘ b.ended := by
  rw [abandon, hs]
  exact ended_pop (b := b.report o.unclosed) hs stop

theorem reported_of_issues {i : Issue} (hb : b'.issues = i :: b.issues)
    (hi : i.isUnclosed = true) : b'.reported = i.span.start ::ₘ b.reported := by
  simp only [reported, hb, List.filter_cons_of_pos hi, List.map_cons, ← Multiset.cons_coe]

/-! ## The invariant -/

/-- Elements and reports account for each other. -/
structure Accounted (source : Text) (b : Builder) : Prop where
  ends : ∀ e ∈ b.ended, e.selfClosing = true ∨ isVoid e.tag = true ∨
    e.span.start ∈ b.reported ∨ e.EndsClosed source
  /-- Every report is about an element of its own. -/
  reports : b.reported ≤ (b.ended.filter (·.selfClosing = false)).map (·.span.start)

theorem Accounted.same (h : b.Accounted source) (he : b'.ended = b.ended)
    (hr : b'.reported = b.reported) : b'.Accounted source := by
  refine ⟨?_, ?_⟩
  · rw [he, hr]
    exact h.ends
  · rw [he, hr]
    exact h.reports

/-- An element ends that needs no report. -/
theorem Accounted.silent {e : Element} (h : b.Accounted source) (he : b'.ended = e ::ₘ b.ended)
    (hr : b'.reported = b.reported)
    (hend : e.selfClosing = true ∨ isVoid e.tag = true ∨ e.EndsClosed source) :
    b'.Accounted source := by
  refine ⟨?_, ?_⟩
  · intro d hd
    rw [hr]
    rw [he, Multiset.mem_cons] at hd
    rcases hd with rfl | hd
    · rcases hend with hself | hvoid | hclosed
      · exact .inl hself
      · exact .inr (.inl hvoid)
      · exact .inr (.inr (.inr hclosed))
    · exact h.ends d hd
  · rw [he, hr]
    refine h.reports.trans (Multiset.map_le_map (Multiset.filter_le_filter _ ?_))
    exact Multiset.le_cons_self _ _

/-- An element ends and is reported. -/
theorem Accounted.told {e : Element} (h : b.Accounted source) (he : b'.ended = e ::ₘ b.ended)
    (hr : b'.reported = e.span.start ::ₘ b.reported) (hself : e.selfClosing = false) :
    b'.Accounted source := by
  refine ⟨?_, ?_⟩
  · intro d hd
    rw [hr, Multiset.mem_cons]
    rw [he, Multiset.mem_cons] at hd
    rcases hd with rfl | hd
    · exact .inr (.inr (.inl (.inl rfl)))
    · rcases h.ends d hd with hself | hvoid | hreport | hclosed
      · exact .inl hself
      · exact .inr (.inl hvoid)
      · exact .inr (.inr (.inl (.inr hreport)))
      · exact .inr (.inr (.inr hclosed))
  · rw [he, hr, Multiset.filter_cons_of_pos (p := fun d : Element => d.selfClosing = false) _ hself,
      Multiset.map_cons]
    exact Multiset.cons_le_cons _ h.reports

/-- **A move** keeps the account. -/
theorem Accounted.move (h : b.Accounted source) (hmove : Move source b b') :
    b'.Accounted source := by
  cases hmove with
  | @report i _ hkind =>
    refine h.same rfl ?_
    have hskip : ¬i.isUnclosed = true := by simp [hkind]
    simp only [reported, Builder.report, List.filter_cons_of_neg hskip]
  | @leaf e he hend =>
    have hended : (b.add e).ended = e ::ₘ b.ended := by
      rw [ended_add, he]
      simp [preorderAll]
    refine h.silent hended (by rw [reported, issues_add]; rfl) ?_
    rcases hend with hself | hvoid
    · exact .inl hself
    · exact .inr (.inl hvoid)
  | @cutOff tag span attributes =>
    refine h.told (e := ⟨tag, span, attributes, [], false⟩) ?_ ?_ rfl
    · rw [ended_add]
      simp only [preorderAll, Multiset.coe_nil, zero_add]
      rfl
    · exact reported_of_issues (i := ⟨.unterminatedStartTag tag, span⟩) (issues_add _ _) rfl
  | @opening tag start attributes =>
    refine h.same ?_ rfl
    simp [ended, preorderAll]
  | @abandon o below stop hs _ =>
    exact h.told (ended_abandon hs stop) (reported_of_issues (issues_abandon hs stop) rfl) rfl
  | @close o below span name x hs ho hslice hx hname =>
    refine h.silent (ended_close hs span.stop) (by rw [reported, issues_close]; rfl) ?_
    exact .inr (.inr (ho.endsClosed hslice hx hname))

theorem Accounted.moves (h : b.Accounted source) (hmoves : Moves source b b') :
    b'.Accounted source := by
  induction hmoves with
  | refl => exact h
  | tail _ hmove ih => exact ih.move hmove

theorem accounted_empty (source : Text) : empty.Accounted source := by
  refine ⟨?_, Multiset.zero_le _⟩
  intro e he
  simp [ended, empty, preorderAll] at he

end Builder

/-! ## Where elements begin -/

/-- The elements of a placed forest begin one behind the other. -/
theorem ascending_starts {source : Text} {es : List Element} (h : AllPlaced source es)
    {low high : Nat} (hrow : Span.InRow low high (es.map Element.span)) :
    (preorderAll es).Pairwise (fun d e => d.span.start < e.span.start) ∧
      ∀ e ∈ preorderAll es, low ≤ e.span.start ∧ e.span.start < high := by
  induction es using Element.forestInduction generalizing low high with
  | nil => exact ⟨.nil, fun e he => nomatch he⟩
  | cons e es ihchildren ihes =>
    obtain ⟨he, hchildren, hes⟩ := Element.allPlaced_cons.1 h
    have hname := he.name_le
    have hbounds := hrow.bounds e.span List.mem_cons_self
    obtain ⟨hinner, hinnerBounds⟩ := ihchildren hchildren (he.children (.inl (Nat.le_refl _)))
    obtain ⟨houter, houterBounds⟩ := ihes hes hrow.tail
    simp only [preorderAll, Locate.preorder_eq, List.cons_append, List.pairwise_cons,
      List.pairwise_append, List.mem_append, List.mem_cons]
    refine ⟨⟨?_, hinner, houter, ?_⟩, ?_⟩
    · rintro d (hd | hd)
      · have := hinnerBounds d hd
        omega
      · have := houterBounds d hd
        omega
    · intro c hc d hd
      have := hinnerBounds c hc
      have := houterBounds d hd
      omega
    · rintro d (rfl | hd | hd)
      · omega
      · have := hinnerBounds d hd
        omega
      · have := houterBounds d hd
        omega

/-- No two elements of a template begin at the same place. -/
theorem nodup_elementStarts (source : Text) :
    ((parseTemplate source).elements.map (·.span.start)).Nodup := by
  obtain ⟨hrow, hplaced⟩ := placed_roots source
  have hascending := (ascending_starts hplaced hrow).1
  exact (List.pairwise_map.2 hascending).imp fun h => Nat.ne_of_lt h

/-! ## Templates -/

theorem accounted_forest (source : Text) :
    (∀ e ∈ (parseTemplate source).elements, e.selfClosing = true ∨ isVoid e.tag = true ∨
      e.span.start ∈ ((parseTemplate source).issues.filter Issue.isUnclosed).map (·.span.start) ∨
      e.EndsClosed source) ∧
    (↑(((parseTemplate source).issues.filter Issue.isUnclosed).map (·.span.start)) :
      Multiset Nat) ≤
      ↑(((parseTemplate source).elements.filter (·.selfClosing = false)).map (·.span.start)) := by
  have haccount := (Builder.accounted_empty source).moves (moves_parseTemplate source)
  have hended : Builder.ended ⟨[], (parseTemplate source).roots.reverse,
      (parseTemplate source).issues.reverse⟩ = (parseTemplate source).elements := by
    simp only [Builder.ended, List.map_nil, List.sum_nil, zero_add,
      Builder.coe_preorderAll_reverse]
    rfl
  have hreported : Builder.reported ⟨[], (parseTemplate source).roots.reverse,
      (parseTemplate source).issues.reverse⟩ =
        (((parseTemplate source).issues.filter Issue.isUnclosed).map (·.span.start) :
          List Nat) := by
    simp only [Builder.reported, List.filter_reverse, List.map_reverse, Multiset.coe_reverse]
  obtain ⟨hends, hreports⟩ := haccount
  rw [hended, hreported] at hends hreports
  exact ⟨hends, hreports⟩

/-- **Recovery is never silent.** An element of a template closes itself, is void, ends with its own
closing tag, or is reported as unclosed by exactly one issue. Every such issue is about exactly one
element, which does not close itself, and no two begin at the same place. -/
theorem accounted_parseTemplate (source : Text) :
    (∀ e ∈ (parseTemplate source).elements, e.selfClosing = true ∨ isVoid e.tag = true ∨
      (parseTemplate source).issues.countP
        (fun i => i.isUnclosed && i.span.start == e.span.start) = 1 ∨
      e.EndsClosed source) ∧
    (∀ i ∈ (parseTemplate source).issues, i.isUnclosed = true →
      (parseTemplate source).elements.countP (·.span.start == i.span.start) = 1 ∧
      ∃ e ∈ (parseTemplate source).elements,
        e.span.start = i.span.start ∧ e.selfClosing = false) ∧
    (((parseTemplate source).issues.filter Issue.isUnclosed).map (·.span.start)).Nodup := by
  obtain ⟨hends, hreports⟩ := accounted_forest source
  have hstarts := nodup_elementStarts source
  have hsublist : (((parseTemplate source).elements.filter (·.selfClosing = false)).map
      (·.span.start)).Sublist ((parseTemplate source).elements.map (·.span.start)) :=
    List.filter_sublist.map _
  have hnodup : (((parseTemplate source).issues.filter Issue.isUnclosed).map
      (·.span.start)).Nodup :=
    Multiset.nodup_of_le hreports (hstarts.sublist hsublist)
  refine ⟨?_, ?_, hnodup⟩
  · intro e he
    rcases hends e he with hself | hvoid | hreport | hclosed
    · exact .inl hself
    · exact .inr (.inl hvoid)
    · have hone := List.count_eq_one_of_mem hnodup hreport
      rw [List.count, List.countP_map, List.countP_filter] at hone
      refine .inr (.inr (.inl ?_))
      simpa only [Function.comp_apply, Bool.and_comm] using hone
    · exact .inr (.inr (.inr hclosed))
  · intro i hi hunclosed
    have hreport : i.span.start ∈
        ((parseTemplate source).issues.filter Issue.isUnclosed).map (·.span.start) :=
      List.mem_map.2 ⟨i, List.mem_filter.2 ⟨hi, hunclosed⟩, rfl⟩
    have hmem : i.span.start ∈
        ((parseTemplate source).elements.filter (·.selfClosing = false)).map (·.span.start) :=
      Multiset.subset_of_le hreports hreport
    obtain ⟨e, he, hstart⟩ := List.mem_map.1 hmem
    obtain ⟨he, hself⟩ := List.mem_filter.1 he
    refine ⟨?_, e, he, hstart, by simpa using hself⟩
    have hone := List.count_eq_one_of_mem hstarts (List.mem_map_of_mem he)
    rwa [hstart, List.count, List.countP_map] at hone

/-- The item is given up, the break is void, and the list ends with its own tag, which is cut
off. -/
example : (parseTemplate "<ul><li><br></UL x".toList).issues =
    [⟨.unclosedElement "li".toList, ⟨4, 7⟩⟩] := by
  decide +kernel

end BindingToggle
