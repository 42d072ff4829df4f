import BindingToggle.Proofs.Places

/-!
# Printing templates

A `Node` is a part of a template that can be printed: a text, a comment, an interpolation, or an
element. What would be read differently after printing is excluded by the proofs that a node
carries, so every tree of nodes has a printed form.

* `outlineOf_printAll` — apart from places, the events of printed nodes are the events of the nodes,
  whatever is printed behind them.
* `Builder.foldl_eventsAll` — the events of nodes add the elements of the nodes to the forest.
* `parseTemplate_printAll` — a printed template is read without an issue, and its forest is that of
  the nodes.
-/

namespace BindingToggle

namespace Markup

open Text

/-! ## Nodes -/

/-- The name of a tag: a letter, and characters that do not end it. -/
structure TagName where
  text : Text
  letter : text.head?.any Char.isAlpha = true
  parts : text.all isTagPart = true

/-- A text between quotes of a kind that it does not contain. -/
structure QuotedText where
  quote : Char
  content : Text
  quote_eq : quote = '"' ∨ quote = '\''
  unbroken : quote ∉ content

/-- An attribute with a value in quotes, or without one. -/
structure PlainAttribute where
  name : Text
  value : Option QuotedText
  name_ne_nil : name ≠ []
  parts : name.all isAttributePart = true

/-- A part of a template. -/
inductive Node where
  | text (t : Text) (plain : ∀ c ∈ t, c ≠ '<' ∧ c ≠ '{')
  | comment (body : Text) (unbroken : ¬ "-->".toList <:+: body)
  | interpolation (body : Text) (unbroken : ¬ "\x7d\x7d".toList <:+: body)
  /-- An element whose content is not markup, and does not contain its closing tag in any case. -/
  | rawText (tag : TagName) (attributes : List PlainAttribute) (content : Text)
      (raw : isRawText tag.text = true)
      (unbroken : ¬ lower ('<' :: '/' :: tag.text) <:+: lower content)
  /-- An element that has no content by its name. -/
  | void (tag : TagName) (attributes : List PlainAttribute) (void : isVoid tag.text = true)
  /-- An element of any name that is closed in its start tag. -/
  | selfClosing (tag : TagName) (attributes : List PlainAttribute)
  | element (tag : TagName) (attributes : List PlainAttribute) (children : List Node)
      (notVoid : isVoid tag.text = false) (notRaw : isRawText tag.text = false)

/-- An attribute, with the space in front of it. -/
def PlainAttribute.print (a : PlainAttribute) : Text :=
  ' ' :: (a.name ++
    match a.value with
    | none => []
    | some v => '=' :: v.quote :: (v.content ++ [v.quote]))

/-- A start tag that ends with `>` or with `/>`. -/
def printStart (tag : TagName) (attributes : List PlainAttribute) (ending : TagEnd) : Text :=
  '<' :: (tag.text ++ (attributes.flatMap PlainAttribute.print ++ ending.text))

def printClosing (tag : TagName) : Text := '<' :: '/' :: (tag.text ++ ['>'])

namespace Node

mutual

/-- The characters of a node. -/
def print : Node → Text
  | text t _ => t
  | comment body _ => "<!--".toList ++ (body ++ "-->".toList)
  | interpolation body _ => "\x7b\x7b".toList ++ (body ++ "\x7d\x7d".toList)
  | rawText tag attributes content _ _ =>
    printStart tag attributes .complete ++ (content ++ printClosing tag)
  | void tag attributes _ => printStart tag attributes .complete
  | selfClosing tag attributes => printStart tag attributes .selfClosing
  | element tag attributes children _ _ =>
    printStart tag attributes .complete ++ (printAll children ++ printClosing tag)

def printAll : List Node → Text
  | [] => []
  | n :: ns => n.print ++ printAll ns

end

end Node

/-! ## What nodes stand for -/

/-- The attribute that is printed. Its places are left at zero. -/
def PlainAttribute.toAttribute (a : PlainAttribute) : Attribute :=
  Attribute.of a.name 0 (a.value.map fun v => ⟨v.content, some v.quote, .caret 0, .caret 0⟩)

/-- An element with the given name, attributes and children. Its places are left at zero. -/
def elementOf (tag : TagName) (attributes : List PlainAttribute) (children : List Element)
    (selfClosing : Bool) : Element :=
  ⟨tag.text, .caret 0, attributes.map PlainAttribute.toAttribute, children, selfClosing⟩

namespace Node

mutual

/-- The element that a node is, if it is one. -/
def elements : Node → List Element
  | text _ _ => []
  | comment _ _ => []
  | interpolation _ _ => []
  | rawText tag attributes _ _ _ => [elementOf tag attributes [] false]
  | void tag attributes _ => [elementOf tag attributes [] false]
  | selfClosing tag attributes => [elementOf tag attributes [] true]
  | element tag attributes children _ _ => [elementOf tag attributes (elementsAll children) false]

/-- The elements among nodes, in their order. -/
def elementsAll : List Node → List Element
  | [] => []
  | n :: ns => n.elements ++ elementsAll ns

end

/-- The event of a start tag of an element that stays open. -/
def opening (tag : TagName) (attributes : List PlainAttribute) : Event :=
  .opening tag.text 0 (attributes.map PlainAttribute.toAttribute)

mutual

/-- The events of a node, with their places left at zero. -/
def events : Node → List Event
  | text _ _ => []
  | comment _ _ => []
  | interpolation _ _ => []
  | rawText tag attributes _ _ _ => [opening tag attributes, .closing tag.text (.caret 0)]
  | void tag attributes _ => [.leaf (elementOf tag attributes [] false)]
  | selfClosing tag attributes => [.leaf (elementOf tag attributes [] true)]
  | element tag attributes children _ _ =>
    opening tag attributes :: (eventsAll children ++ [.closing tag.text (.caret 0)])

def eventsAll : List Node → List Event
  | [] => []
  | n :: ns => n.events ++ eventsAll ns

end

end Node

/-! ## Reading pieces -/

/-- The events of a text, apart from places. -/
def outlineOf (t : Text) : List Event :=
  (events ⟨0, t⟩).map (Event.outline Attribute.unplaced)

theorem outlineOf_piece {t : Text} (ht : t ≠ []) {r : List Event × Cursor}
    (h : piece ⟨0, t⟩ = r) :
    outlineOf t = r.1.map (Event.outline Attribute.unplaced) ++ outlineOf r.2.rest := by
  unfold outlineOf
  rw [events_of_ne_nil ht, h, List.map_append]
  exact congrArg _ (outline_events r.2.offset 0 r.2.rest)

/-! ### Text, comments and interpolations -/

/-- Characters that go on a run of text. -/
def isPlain (c : Char) : Bool := c != '<' && c != '{'

theorem markOf_text {c : Char} (hc : isPlain c = true) (t : Text) : markOf (c :: t) = .text := by
  simp only [isPlain, Bool.and_eq_true, bne_iff_ne] at hc
  rw [markOf] <;> simp [hc]

/-- A run of text up to its end has no events. -/
theorem outlineOf_run {run rest : Text} (hrun : ∀ c ∈ run, isPlain c = true)
    (hrest : Stops isPlain rest) : outlineOf (run ++ rest) = outlineOf rest := by
  cases run with
  | nil => rfl
  | cons c run =>
    have hpiece : piece ⟨0, c :: (run ++ rest)⟩ = ([], ⟨0 + c.utf8Size + width run, rest⟩) := by
      have hskip : (Cursor.mk (0 + c.utf8Size) (run ++ rest)).skipWhile isPlain =
          ⟨0 + c.utf8Size + width run, rest⟩ :=
        Cursor.skipWhile_run (fun d hd => hrun d (List.mem_cons_of_mem c hd)) hrest _
      rw [piece_eq, markOf_text (hrun c List.mem_cons_self)]
      simp only [piece.skipText, Cursor.skip_one]
      rw [← hskip]
      rfl
    exact outlineOf_piece (by simp) hpiece

/-- Text has no events, also when text follows it. -/
theorem outlineOf_text {t : Text} (ht : ∀ c ∈ t, isPlain c = true) (rest : Text) :
    outlineOf (t ++ rest) = outlineOf rest := by
  obtain ⟨run, rest, rfl, hrun, hrest⟩ := exists_run isPlain rest
  have hboth : ∀ c ∈ t ++ run, isPlain c = true := by
    intro c hc
    rcases List.mem_append.1 hc with hc | hc
    · exact ht c hc
    · exact hrun c hc
  rw [← List.append_assoc, outlineOf_run hboth hrest, outlineOf_run hrun hrest]

theorem outlineOf_comment {body : Text} (hb : ¬ "-->".toList <:+: body) (rest : Text) :
    outlineOf ("<!--".toList ++ (body ++ ("-->".toList ++ rest))) = outlineOf rest := by
  have hpiece : piece ⟨0, "<!--".toList ++ (body ++ ("-->".toList ++ rest))⟩ =
      ([], ⟨0 + width "<!--".toList + width body + width "-->".toList, rest⟩) := by
    rw [piece_eq]
    exact passage_found rfl (breakOn?_commentEnd hb rest) .unterminatedComment 0
  exact outlineOf_piece (by simp) hpiece

theorem outlineOf_interpolation {body : Text} (hb : ¬ "\x7d\x7d".toList <:+: body) (rest : Text) :
    outlineOf ("\x7b\x7b".toList ++ (body ++ ("\x7d\x7d".toList ++ rest))) = outlineOf rest := by
  obtain ⟨before, left, hleft, htext, hbreak⟩ := breakOn?_interpolationEnd hb rest
  have hpiece : piece ⟨0, "\x7b\x7b".toList ++ (before ++ ("\x7d\x7d".toList ++ (left ++ rest)))⟩ =
      ([], ⟨0 + width "\x7b\x7b".toList + width before + width "\x7d\x7d".toList,
        left ++ rest⟩) := by
    rw [piece_eq]
    exact passage_found rfl hbreak .unterminatedInterpolation 0
  -- the brace that may be left over is a text
  have hplain : ∀ c ∈ left, isPlain c = true := by
    rcases hleft with rfl | rfl
    · simp
    · simp [isPlain]
  rw [htext, ← outlineOf_text hplain rest]
  exact outlineOf_piece (by simp) hpiece

/-! ### Tags -/

namespace PlainAttribute

/-- The characters of an attribute behind its space. -/
def form (a : PlainAttribute) : AttributeForm :=
  ⟨a.name, a.value.map fun v => ⟨[], [], .quoted v.quote v.content true⟩⟩

theorem print_eq (a : PlainAttribute) : a.print = ' ' :: a.form.text := by
  cases hv : a.value with
  | none => simp [print, form, hv, AttributeForm.text]
  | some v =>
    simp [print, form, hv, AttributeForm.text, ValuePart.separator, ValueForm.text,
      ValueForm.opening, ValueForm.content, ValueForm.closing]

/-- What can stand behind an attribute: it ends a name, and adds no value to it. -/
def Ends (rest : Text) : Prop :=
  Stops isAttributePart rest ∧ (rest.dropWhile isMarkupBlank).head? ≠ some '='

theorem fits_form (a : PlainAttribute) {rest : Text} (hr : Ends rest) : a.form.Fits rest := by
  refine ⟨?_, ?_, fun _ => hr, ?_⟩
  · obtain ⟨c, u, hu⟩ := List.exists_cons_of_ne_nil a.name_ne_nil
    have hc := List.all_eq_true.1 a.parts c (by simp [hu])
    simp only [isAttributePart, Bool.and_eq_true, Bool.not_eq_true', bne_iff_ne] at hc
    exact ⟨c, u, hu, hc.1.1.1, hc.1.1.2, hc.1.2⟩
  · intro c hc
    exact List.all_eq_true.1 a.parts c (List.mem_of_mem_tail hc)
  · intro p hp
    obtain ⟨v, -, rfl⟩ := Option.map_eq_some_iff.1 hp
    refine ⟨⟨v.quote_eq, v.unbroken, fun h => (by cases h)⟩, by simp, by simp, ?_⟩
    apply stops_cons.2
    rcases v.quote_eq with h | h <;> rw [h] <;> decide

/-- An attribute, with the space in front of it, can stand behind another. -/
theorem ends_print (a : PlainAttribute) (rest : Text) : Ends (a.print ++ rest) := by
  obtain ⟨c, u, hu⟩ := List.exists_cons_of_ne_nil a.name_ne_nil
  have hc := List.all_eq_true.1 a.parts c (by simp [hu])
  simp only [isAttributePart, Bool.and_eq_true, Bool.not_eq_true', bne_iff_ne] at hc
  refine ⟨stops_cons.2 (by decide), ?_⟩
  have hblank : isMarkupBlank ' ' = true := by decide
  simpa [print, hu, hblank, hc.1.1.1] using hc.2

/-- The items of a start tag with these attributes. -/
def items (attributes : List PlainAttribute) : TagItems :=
  attributes.map fun a => ([' '], .attr a.form)

theorem text_items (attributes : List PlainAttribute) :
    (items attributes).text = attributes.flatMap print := by
  induction attributes with
  | nil => rfl
  | cons a attributes ih =>
    simp only [items, List.map_cons, TagItems.text, TagItem.text, List.flatMap_cons, print_eq,
      List.cons_append, List.nil_append] at ih ⊢
    rw [ih]

theorem fits_items (attributes : List PlainAttribute) {rest : Text} (hr : Ends rest) :
    (items attributes).Fits rest := by
  induction attributes with
  | nil => trivial
  | cons a attributes ih =>
    refine ⟨by simp [isMarkupBlank], a.fits_form ?_, ih⟩
    show Ends ((items attributes).text ++ rest)
    rw [text_items]
    cases attributes with
    | nil => exact hr
    | cons b attributes =>
      rw [List.flatMap_cons, List.append_assoc]
      exact b.ends_print _

theorem attributes_items (attributes : List PlainAttribute) (start : Nat) :
    ((items attributes).attributes start).map Attribute.unplaced =
      (attributes.map toAttribute).map Attribute.unplaced := by
  induction attributes generalizing start with
  | nil => rfl
  | cons a attributes ih =>
    have ha : ∀ n, (a.form.toAttribute n).unplaced = a.toAttribute.unplaced := by
      intro n
      apply Attribute.unplaced_of
      cases hv : a.value <;>
        simp [form, hv, ValueForm.value, AttributeValue.unplaced, ValueForm.content,
          ValueForm.quote]
    simp only [items, List.map_cons, TagItems.attributes, TagItem.attributes, List.map_append,
      List.map_nil, ha] at ih ⊢
    rw [ih]
    rfl

theorem issues_items (attributes : List PlainAttribute) (start : Nat) :
    (items attributes).issues start = [] := by
  induction attributes generalizing start with
  | nil => rfl
  | cons a attributes ih =>
    have ha : ∀ n, a.form.issues n = [] := by
      intro n
      cases hv : a.value <;> simp [form, hv, AttributeForm.issues, ValueForm.issues]
    simp only [items, List.map_cons, TagItems.issues, TagItem.issues, ha] at ih ⊢
    rw [ih]
    rfl

end PlainAttribute

/-- A start tag behind its name. -/
def startForm (attributes : List PlainAttribute) (ending : TagEnd) : TagForm :=
  ⟨PlainAttribute.items attributes, [], ending⟩

theorem text_startForm (attributes : List PlainAttribute) (ending : TagEnd) :
    (startForm attributes ending).text =
      attributes.flatMap PlainAttribute.print ++ ending.text := by
  rw [TagForm.text, TagForm.close, startForm, PlainAttribute.text_items]
  rfl

theorem TagEnd.exists_cons {ending : TagEnd} (he : ending ≠ .missing) (rest : Text) :
    ∃ c u, ending.text ++ rest = c :: u ∧ (c = '>' ∨ c = '/') := by
  cases ending with
  | complete => exact ⟨'>', rest, rfl, .inl rfl⟩
  | selfClosing => exact ⟨'/', '>' :: rest, rfl, .inr rfl⟩
  | missing => exact absurd rfl he

theorem fits_startForm (attributes : List PlainAttribute) {ending : TagEnd}
    (he : ending ≠ .missing) (rest : Text) : (startForm attributes ending).Fits rest := by
  refine ⟨PlainAttribute.fits_items attributes ?_, by simp [startForm], fun h => absurd h he⟩
  obtain ⟨c, u, hend, hc⟩ := ending.exists_cons he rest
  show PlainAttribute.Ends (ending.text ++ rest)
  rw [hend]
  rcases hc with rfl | rfl
  · exact ⟨stops_cons.2 (by decide), by simp [isMarkupBlank]⟩
  · exact ⟨stops_cons.2 (by decide), by simp [isMarkupBlank]⟩

/-- What stands behind the name of a tag ends the name. -/
theorem stops_startForm (attributes : List PlainAttribute) {ending : TagEnd}
    (he : ending ≠ .missing) (rest : Text) :
    Stops isTagPart ((startForm attributes ending).text ++ rest) := by
  rw [text_startForm, List.append_assoc]
  cases attributes with
  | nil =>
    obtain ⟨c, u, hend, hc⟩ := ending.exists_cons he rest
    rw [List.flatMap_nil, List.nil_append, hend]
    rcases hc with rfl | rfl <;> exact stops_cons.2 (by decide)
  | cons a attributes => exact stops_cons.2 (by decide)

theorem piece_printStart (tag : TagName) (attributes : List PlainAttribute) {ending : TagEnd}
    (he : ending ≠ .missing) (rest : Text) :
    piece ⟨0, printStart tag attributes ending ++ rest⟩ =
      ((startForm attributes ending).body (0 + 1 + width tag.text) rest).events tag.text 0 := by
  have htext : printStart tag attributes ending ++ rest =
      '<' :: (tag.text ++ ((startForm attributes ending).text ++ rest)) := by
    simp [printStart, text_startForm]
  have hmark : markOf ('<' :: (tag.text ++ ((startForm attributes ending).text ++ rest))) =
      .start := by
    obtain ⟨first, others, hname, hfirst⟩ := exists_cons_of_head? tag.letter
    rw [hname]
    exact markOf_start hfirst _
  rw [htext, piece_eq, hmark]
  exact startTag_form (List.all_eq_true.1 tag.parts) (stops_startForm attributes he rest)
    (fits_startForm attributes he rest) 0

/-- A start tag with these attributes in front of `rest`, with its places left at zero. -/
def startBody (attributes : List PlainAttribute) (ending : TagEnd) (rest : Text) : TagBody :=
  ⟨attributes.map PlainAttribute.toAttribute, [], ending, ⟨0, rest⟩⟩

/-- A start tag is read as its events, and reading goes on behind it. -/
theorem outlineOf_start (tag : TagName) (attributes : List PlainAttribute) {ending : TagEnd}
    (he : ending ≠ .missing) (rest : Text) :
    outlineOf (printStart tag attributes ending ++ rest) =
      ((startBody attributes ending rest).events tag.text 0).1.map
          (Event.outline Attribute.unplaced) ++
        outlineOf ((startBody attributes ending rest).events tag.text 0).2.rest := by
  have hbody := outlineOf_piece (by simp [printStart]) (piece_printStart tag attributes he rest)
  have hissues := PlainAttribute.issues_items attributes (0 + 1 + width tag.text)
  rw [hbody]
  refine congrArg₂ (· ++ ·) ?_ (congrArg outlineOf ?_)
  · apply TagBody.outline_events
    · exact PlainAttribute.attributes_items attributes _
    · exact congrArg (List.map (·.problem)) hissues
    · rfl
  · apply TagBody.rest_events <;> rfl

theorem outlineOf_closing (tag : TagName) (rest : Text) :
    outlineOf (printClosing tag ++ rest) = .closing tag.text (.caret 0) :: outlineOf rest := by
  have hbound : '>' ∉ tag.text := by
    intro h
    exact absurd (List.all_eq_true.1 tag.parts _ h) (by decide)
  have hskip : ((Cursor.mk 0 (['<', '/'] ++ (tag.text ++ '>' :: rest))).skip 2).skipPast '>' =
      ⟨0 + width ['<', '/'] + width tag.text + '>'.utf8Size, rest⟩ :=
    Cursor.skip_skipPast_mark hbound rest 0
  have hname : (tag.text ++ '>' :: rest).takeWhile isTagPart = tag.text :=
    takeWhile_run (List.all_eq_true.1 tag.parts) (stops_cons.2 (by decide))
  have hpiece : piece ⟨0, ['<', '/'] ++ (tag.text ++ '>' :: rest)⟩ =
      ([.closing tag.text ⟨0, 0 + width ['<', '/'] + width tag.text + '>'.utf8Size⟩],
        ⟨0 + width ['<', '/'] + width tag.text + '>'.utf8Size, rest⟩) := by
    rw [piece_eq]
    show closingTag _ = _
    rw [closingTag, hskip]
    simp [Cursor.skip, hname]
  have htext : printClosing tag ++ rest = ['<', '/'] ++ (tag.text ++ '>' :: rest) := by
    simp [printClosing]
  rw [htext, outlineOf_piece (by simp) hpiece]
  rfl

/-! ### Raw text -/

/-- No name of an element with raw text is one of an element without content, or contains `<`. -/
theorem isRawText_spec {tag : Text} (h : isRawText tag = true) :
    isVoid tag = false ∧ '<' ∉ tag := by
  have hmem : lower tag ∈ rawTextTags := List.contains_iff_mem.1 h
  have hnames : ∀ t ∈ rawTextTags, voidTags.contains t = false ∧ '<' ∉ t := by decide
  obtain ⟨hvoid, hmark⟩ := hnames _ hmem
  refine ⟨hvoid, fun hin => hmark ?_⟩
  exact List.mem_map.2 ⟨'<', hin, by decide⟩

/-- Raw text runs to the closing tag behind it. -/
theorem skipRawText_content {tag : TagName} {content : Text} (hraw : isRawText tag.text = true)
    (hc : ¬ lower ('<' :: '/' :: tag.text) <:+: lower content) (offset : Nat) (rest : Text) :
    skipRawText tag.text ⟨offset, content ++ (printClosing tag ++ rest)⟩ =
      ⟨offset + width content, printClosing tag ++ rest⟩ := by
  have hbreak : breakOnFolded? ('<' :: '/' :: tag.text) (content ++ (printClosing tag ++ rest)) =
      some (content, printClosing tag ++ rest) := by
    apply breakAt?_eq_some
    · apply startsWithFolded_iff.2
      exact ⟨'<' :: '/' :: tag.text, '>' :: rest, by simp [printClosing], rfl⟩
    · intro x y hxy hy
      rw [Bool.eq_false_iff]
      intro hstarts
      have htail : '<' ∉ ('<' :: '/' :: tag.text).tail := by
        simp [(isRawText_spec hraw).2]
      obtain ⟨name, after, rfl, hname⟩ := exists_spelling_of_seam htail hy rfl hstarts
      refine hc ⟨lower x, lower after, ?_⟩
      rw [hxy, lower_append, lower_append, hname, List.append_assoc]
  simp only [skipRawText, Cursor.findFolded?, hbreak, Option.map_some, Option.getD_some]

/-! ## Reading nodes -/

theorem outlineOf_rawText {tag : TagName} {content : Text} (attributes : List PlainAttribute)
    (hraw : isRawText tag.text = true)
    (hc : ¬ lower ('<' :: '/' :: tag.text) <:+: lower content) (rest : Text) :
    outlineOf (printStart tag attributes .complete ++ (content ++ (printClosing tag ++ rest))) =
      (Node.opening tag attributes).outline Attribute.unplaced ::
        .closing tag.text (.caret 0) :: outlineOf rest := by
  have hvoid := (isRawText_spec hraw).1
  rw [outlineOf_start tag attributes (by decide)]
  simp only [TagBody.events, startBody, hvoid, hraw, skipRawText_content hraw hc,
    Bool.false_eq_true, if_false, if_true]
  rw [outlineOf_closing]
  rfl

/-- A start tag of an element that is complete with it. -/
theorem outlineOf_leaf (tag : TagName) (attributes : List PlainAttribute) {ending : TagEnd}
    (he : ending = .complete ∧ isVoid tag.text = true ∨ ending = .selfClosing) (rest : Text) :
    outlineOf (printStart tag attributes ending ++ rest) =
      (Event.leaf (elementOf tag attributes [] (ending = .selfClosing))).outline
        Attribute.unplaced :: outlineOf rest := by
  rcases he with ⟨rfl, hvoid⟩ | rfl
  · rw [outlineOf_start tag attributes (by decide)]
    simp only [TagBody.events, startBody, hvoid]
    rfl
  · rw [outlineOf_start tag attributes (by decide)]
    rfl

theorem outlineOf_opening {tag : TagName} (attributes : List PlainAttribute)
    (hvoid : isVoid tag.text = false) (hraw : isRawText tag.text = false) (rest : Text) :
    outlineOf (printStart tag attributes .complete ++ rest) =
      (Node.opening tag attributes).outline Attribute.unplaced :: outlineOf rest := by
  rw [outlineOf_start tag attributes (by decide)]
  simp only [TagBody.events, startBody, hvoid, hraw]
  rfl

namespace Node

mutual

/-- **A printed node is read as its events**, whatever stands behind it. -/
theorem outlineOf_print :
    ∀ (n : Node) (rest : Text), outlineOf (n.print ++ rest) =
      n.events.map (Event.outline Attribute.unplaced) ++ outlineOf rest
  | text t plain, rest => by
    have hplain : ∀ c ∈ t, isPlain c = true := by
      intro c hc
      simpa [isPlain] using plain c hc
    exact outlineOf_text hplain rest
  | comment body unbroken, rest => by
    rw [print, List.append_assoc, List.append_assoc]
    exact outlineOf_comment unbroken rest
  | interpolation body unbroken, rest => by
    rw [print, List.append_assoc, List.append_assoc]
    exact outlineOf_interpolation unbroken rest
  | rawText tag attributes content raw unbroken, rest => by
    rw [print, List.append_assoc, List.append_assoc]
    exact outlineOf_rawText attributes raw unbroken rest
  | .void tag attributes hvoid, rest => outlineOf_leaf tag attributes (.inl ⟨rfl, hvoid⟩) rest
  | selfClosing tag attributes, rest => outlineOf_leaf tag attributes (.inr rfl) rest
  | element tag attributes children notVoid notRaw, rest => by
    rw [print, List.append_assoc, List.append_assoc,
      outlineOf_opening attributes notVoid notRaw, outlineOf_printAll children, outlineOf_closing]
    simp [events, Event.outline]

theorem outlineOf_printAll :
    ∀ (ns : List Node) (rest : Text), outlineOf (printAll ns ++ rest) =
      (eventsAll ns).map (Event.outline Attribute.unplaced) ++ outlineOf rest
  | [], rest => rfl
  | n :: ns, rest => by
    rw [printAll, List.append_assoc, outlineOf_print n, outlineOf_printAll ns, eventsAll,
      List.map_append, List.append_assoc]

end

end Node

end Markup

/-! ## Building the forest -/

namespace Builder

open Markup

/-- Adds complete elements, one after the other. -/
def addAll (es : List Element) (b : Builder) : Builder := es.foldl (fun b e => b.add e) b

theorem addAll_append (es fs : List Element) (b : Builder) :
    b.addAll (es ++ fs) = (b.addAll es).addAll fs := List.foldl_append

/-- Elements are added inside the innermost open one. -/
theorem addAll_cons (es : List Element) (o : OpenElement) (b : Builder) :
    ({ b with stack := o :: b.stack } : Builder).addAll es =
      { b with stack := { o with children := es.reverse ++ o.children } :: b.stack } := by
  induction es generalizing o with
  | nil => rfl
  | cons e es ih =>
    have hstep := ih { o with children := e :: o.children }
    simp only [List.reverse_cons, List.append_assoc, List.cons_append, List.nil_append]
    exact hstep

theorem addAll_empty (es : List Element) : empty.addAll es = ⟨[], es.reverse, []⟩ := by
  have hroots : ∀ roots, addAll es ⟨[], roots, []⟩ = ⟨[], es.reverse ++ roots, []⟩ := by
    induction es with
    | nil => exact fun roots => rfl
    | cons e es ih =>
      intro roots
      have hstep := ih (e :: roots)
      simp only [List.reverse_cons, List.append_assoc, List.cons_append, List.nil_append]
      exact hstep
  have hempty := hroots []
  rwa [List.append_nil] at hempty

/-- A closing tag ends the element that was opened last, when it has the name of that element. -/
theorem closeTag_cons (o : OpenElement) (b : Builder) :
    ({ b with stack := o :: b.stack } : Builder).closeTag o.tag (.caret 0) = b.add (o.close 0) := by
  simp [closeTag, List.findIdx?_cons, abandonMany, close, Span.caret]

/-- The tags of an element, with the elements `es` between them. -/
theorem step_closing_addAll (tag : TagName) (attributes : List PlainAttribute)
    (es : List Element) (b : Builder) :
    step ((b.step (Node.opening tag attributes)).addAll es) (.closing tag.text (.caret 0)) =
      b.add (elementOf tag attributes es false) := by
  let o : OpenElement := ⟨tag.text, 0, attributes.map PlainAttribute.toAttribute, []⟩
  have hopen : b.step (Node.opening tag attributes) = { b with stack := o :: b.stack } := rfl
  have hclose := closeTag_cons { o with children := es.reverse ++ [] } b
  rw [hopen, addAll_cons]
  refine hclose.trans ?_
  simp [OpenElement.close, elementOf, o, Span.caret]

mutual

theorem foldl_events :
    ∀ (n : Node) (b : Builder), n.events.foldl step b = b.addAll n.elements
  | .text _ _, b => rfl
  | .comment _ _, b => rfl
  | .interpolation _ _, b => rfl
  | .rawText tag attributes _ _ _, b => step_closing_addAll tag attributes [] b
  | .void _ _ _, b => rfl
  | .selfClosing _ _, b => rfl
  | .element tag attributes children _ _, b => by
    rw [Node.events, List.foldl_cons, List.foldl_append, foldl_eventsAll children]
    exact step_closing_addAll tag attributes (Node.elementsAll children) b

/-- **The events of nodes add the elements of the nodes**, and leave everything else as it is. -/
theorem foldl_eventsAll :
    ∀ (ns : List Node) (b : Builder),
      (Node.eventsAll ns).foldl step b = b.addAll (Node.elementsAll ns)
  | [], b => rfl
  | n :: ns, b => by
    rw [Node.eventsAll, List.foldl_append, foldl_events n, foldl_eventsAll ns, Node.elementsAll,
      addAll_append]

end

end Builder

open Markup

/-- **Reading undoes printing.** A printed template is read without an issue, and apart from places
its forest is that of the nodes: the same tags, attributes and nesting, in the same order. -/
theorem parseTemplate_printAll (nodes : List Node) :
    (parseTemplate (Node.printAll nodes)).issues = [] ∧
      (parseTemplate (Node.printAll nodes)).roots.map Element.unplaced =
        (Node.elementsAll nodes).map Element.unplaced := by
  have hevents : (events ⟨0, Node.printAll nodes⟩).map (Event.outline Attribute.unplaced) =
      (Node.eventsAll nodes).map (Event.outline Attribute.unplaced) := by
    have hnodes := Node.outlineOf_printAll nodes []
    have hend : outlineOf [] = [] := by
      rw [outlineOf, events, dif_pos rfl]
      rfl
    rwa [List.append_nil, hend, List.append_nil] at hnodes
  have hempty : Builder.empty.outline Attribute.unplaced =
      Builder.empty.outline Attribute.unplaced := rfl
  have hbuilt := Builder.outline_foldl hempty hevents
  rw [Builder.foldl_eventsAll, Builder.addAll_empty] at hbuilt
  have hfinished := Builder.outline_finish hbuilt (Text.width (Node.printAll nodes)) 0
  -- nothing is open at the end, so that finishing changes nothing
  have hnodes : Builder.finish 0 ⟨[], (Node.elementsAll nodes).reverse, []⟩ =
      ⟨[], (Node.elementsAll nodes).reverse, []⟩ := rfl
  rw [hnodes] at hfinished
  obtain ⟨-, hroots, hissues⟩ := Builder.mk.inj hfinished
  refine ⟨?_, ?_⟩
  · exact List.reverse_eq_nil_iff.2 (List.map_eq_nil_iff.1 hissues)
  · have hreverse := congrArg List.reverse hroots
    rw [← List.map_reverse, ← List.map_reverse, List.reverse_reverse] at hreverse
    exact hreverse

/-- A value with `>` in it, an interpolation with markup in it, and raw text that stops short of a
closing tag. -/
example :
    Node.printAll
      [.element ⟨"p".toList, by decide, by decide⟩
        [⟨":a".toList, some ⟨'"', "'>'".toList, by decide, by decide⟩, by decide, by decide⟩]
        [.interpolation "<b>\x7d".toList (by decide),
          .rawText ⟨"Title".toList, by decide, by decide⟩ [] "</T".toList (by decide) (by decide),
          .void ⟨"br".toList, by decide, by decide⟩ [] (by decide)]
        (by decide) (by decide)] =
      "<p :a=\"'>'\">\x7b\x7b<b>\x7d\x7d\x7d<Title></T</Title><br></p>".toList := by
  rfl

end BindingToggle
