import BindingToggle.Proofs.OpaqueBlock
import BindingToggle.Proofs.RangeEdits

/-!
# Where the caret lands

An action that binds an attribute without a value leaves the caret between the quotes that it
inserts. It counts off that place in a text that does not exist yet, from the end of the attribute
in the text that does, and tells it to the editor by line and column. In the edited text, line and
column lead back to the place between the quotes: in front of it there is a quote, and no place
behind a quote lies inside of a line break.

The edited text is longer than the document, and a document of less than `2 ^ 32` bytes can be
edited to one with a column that does not fit into 32 bits. Then the caret lands elsewhere.

* `caret_of_synthesize` — an action has a caret when it binds an attribute without a value, and then
  it is `addBinding`.
* `PutsQuotes` — a place in the edited text lies between the quotes that the edits insert;
  `putsQuotes_addBinding` says so of the caret.
* `offsetAt_caret_iff` — the position of the caret resolves to the caret if its column fits into 32
  bits, and only then.
* `codeActions_caret` — a code action has a command exactly when it binds an attribute without a
  value, and what the position of the command resolves to.
* `codeActions_caret_overflow` — a caret in the first column that does not fit.
-/

namespace BindingToggle

open Text

/-! ## Actions with a caret -/

/-- An action has a caret exactly when it binds an attribute without a value. -/
theorem caret_of_synthesize {anchor : Anchor} {a : Attribute} {action : ToggleAction}
    (h : synthesize anchor a (classify a) = some action) :
    action.caret.isSome = true ↔ action.kind = .add ∧ ∃ s, a = .static s ∧ s.value = none := by
  cases a with
  | static s =>
    obtain ⟨name, nameSpan, value, span⟩ := s
    cases value <;> cases h <;> simp [ToggleAction.addBinding]
  | directive d =>
    cases hd : classify (.directive d) with
    | ineligible reason =>
      rw [hd] at h
      cases h
    | removable b =>
      rw [hd] at h
      cases h
      simp [ToggleAction.removeBinding]
    | addable hasValue =>
      rw [classify] at hd
      split at hd <;> cases hd

/-- In the edited text, `offset` lies between the quotes that the edits of an action insert behind
the attribute at `place`. -/
structure ToggleAction.PutsQuotes (action : ToggleAction) (text : Text) (place : Span)
    (offset : Nat) : Prop where
  edits : action.edits = [.insert place.start [':'], .insert place.stop ['=', '"', '"']]
  inserted : ∃ before name after, text = before ++ (name ++ after) ∧
    place = ⟨width before, width before + width name⟩ ∧
    Edit.applyAll text action.edits = before ++ ':' :: (name ++ '=' :: '"' :: '"' :: after) ∧
    offset = width (before ++ ':' :: (name ++ ['=', '"']))
  opening : slice? (Edit.applyAll text action.edits) (offset - 1) offset = some ['"']
  closing : slice? (Edit.applyAll text action.edits) offset (offset + 1) = some ['"']

/-- The place between two quotes has one on each side. -/
theorem slice?_quotes (opened after : Text) :
    let caret := width (opened ++ ['"'])
    slice? (opened ++ '"' :: '"' :: after) (caret - 1) caret = some ['"'] ∧
      slice? (opened ++ '"' :: '"' :: after) caret (caret + 1) = some ['"'] := by
  intro caret
  have hcaret : caret = width opened + 1 := width_append opened ['"']
  constructor
  · refine slice?_eq_some (x := opened) (z := '"' :: after) rfl ?_ hcaret
    rw [hcaret, Nat.add_sub_cancel]
  · exact slice?_eq_some (x := opened ++ ['"']) (z := after) (by simp) rfl rfl

/-- The caret of an action that binds the attribute `name` between `before` and `after`. -/
theorem putsQuotes_addBinding (pre before name after : Text) :
    let place : Span := ⟨width before, width before + width name⟩
    let action := ToggleAction.addBinding ⟨width pre⟩ place false
    let opened := pre ++ before ++ ':' :: (name ++ ['='])
    let text := pre ++ (before ++ (name ++ after))
    Edit.applyAll text action.edits = opened ++ '"' :: '"' :: after ∧
      action.caret = some (width (opened ++ ['"'])) ∧
      action.PutsQuotes text ((Anchor.mk (width pre)).toDocument place)
        (width (opened ++ ['"'])) := by
  intro place action opened text
  have hedited : Edit.applyAll text action.edits = opened ++ '"' :: '"' :: after := by
    rw [(applyAll_addBinding pre before name after false).2]
    simp [opened, boundSuffix]
  have hcaret : width (opened ++ ['"']) = width before + width name + width pre + 3 := by
    have hcolon : ':'.utf8Size = 1 := by decide
    have hequals : width ['='] = 1 := by decide
    have hquote : width ['"'] = 1 := by decide
    simp only [opened, width_append, width_cons, hcolon, hequals, hquote]
    omega
  obtain ⟨hopening, hclosing⟩ := slice?_quotes opened after
  refine ⟨hedited, congrArg some hcaret.symm, rfl, ⟨pre ++ before, name, after, ?_, ?_, ?_, ?_⟩,
    ?_, ?_⟩
  · simp [text]
  · simp only [Anchor.toDocument, Span.shift, place, width_append, Span.mk.injEq]
    omega
  · rw [hedited]
    simp [opened]
  · simp [opened]
  · rw [hedited]
    exact hopening
  · rw [hedited]
    exact hclosing

/-! ## The position of the caret -/

/-- A column is never further than four bytes for each of its code units. -/
theorem columnOffset_le {column : Nat} (hcolumn : column + 1 < 2 ^ 32) (offset units : Nat)
    (t : Text) : columnOffset offset units column t ≤ offset + 4 * (column - units) := by
  induction t generalizing offset units with
  | nil => exact Nat.le_add_right _ _
  | cons c t ih =>
    rw [columnOffset]
    split
    · exact Nat.le_add_right _ _
    · rename_i hgo
      rw [not_or] at hgo
      have hpos := units16_pos c
      have htwo : units16 c ≤ 2 := by
        unfold units16
        split <;> omega
      have hsize := c.utf8Size_le_four
      have hbehind := ih (offset + c.utf8Size) (units + units16 c)
      rw [Position.wrap_eq_self (by omega)]
      omega

/-- A place whose column is just too large for 32 bits does not come back: what is left of the
column leads to a place near the beginning of the line. -/
theorem offsetAt_positionAt_lt {before : Text} (hline : before.count '\n' < 2 ^ 32)
    (hcolumn : 2 ^ 32 ≤ columns (lastLine before)) (hwidth : width before < 2 ^ 32 + 2 ^ 20)
    (after : Text) :
    offsetAt (before ++ after) (positionAt (before ++ after) (width before)) < width before := by
  have hunits := columns_le_width (lastLine before)
  have hlast := width_lastLine_le before
  have hwrap : Position.wrap (columns (lastLine before)) =
      columns (lastLine before) - 2 ^ 32 := by
    unfold Position.wrap
    omega
  have hleft : columns (lastLine before) - 2 ^ 32 + 1 < 2 ^ 32 := by omega
  have hreached := columnOffset_le hleft (width before - width (lastLine before)) 0
    (lastLine before ++ after)
  rw [offsetAt, positionAt_eq, upTo_append, Position.wrap_eq_self hline, hwrap,
    offsetFrom_lastLine]
  dsimp only
  omega

/-- **The caret resolves if its column fits into 32 bits, and only then.** -/
theorem offsetAt_caret_iff {opened : Text} (hline : (opened ++ ['"']).count '\n' < 2 ^ 32)
    (hwidth : width (opened ++ ['"']) < 2 ^ 32 + 2 ^ 20) (after : Text) :
    let t := opened ++ '"' :: after
    let caret := width (opened ++ ['"'])
    offsetAt t (positionAt t caret) = caret ↔ columns (lastLine (upTo caret t)) < 2 ^ 32 := by
  intro t caret
  have ht : t = (opened ++ ['"']) ++ after := by simp [t]
  rw [ht, upTo_append]
  constructor
  · intro hback
    by_contra hcolumn
    exact absurd hback (Nat.ne_of_lt (offsetAt_positionAt_lt hline (Nat.not_lt.1 hcolumn) hwidth _))
  · intro hcolumn
    rw [offsetAt_positionAt (counts_positionAt_append_of_lt hline hcolumn), if_neg]
    rintro ⟨hlast, -⟩
    simp at hlast

/-- What stands in front of the caret, when the attribute `name` is bound behind `before`: no line
is broken in it, and it is three characters longer than in the document. -/
theorem opened_bounds (before name : Text) :
    let opened := before ++ ':' :: (name ++ ['=']) ++ ['"']
    opened.count '\n' ≤ width (before ++ name) ∧ width opened = width (before ++ name) + 3 := by
  intro opened
  have hmarks : ':'.utf8Size = 1 ∧ '='.utf8Size = 1 ∧ '"'.utf8Size = 1 := by decide
  have hcount : opened.count '\n' = (before ++ name).count '\n' := by
    simp [opened, List.count_append]
  refine ⟨hcount ▸ count_le_width '\n' _, ?_⟩
  simp only [opened, width_append, width_cons, width_nil, hmarks]
  omega

/-- The command of an action on a text stands for a caret between the quotes that the action inserts
behind the attribute at `place`. -/
structure CaretCommand.Stands (command : CaretCommand) (text : Text) (action : ToggleAction)
    (place : Span) (caret : Nat) : Prop where
  caret_eq : action.caret = some caret
  quotes : action.PutsQuotes text place caret
  /-- The line of the caret is counted exactly. -/
  line : command.position.line =
    (upTo caret (Edit.applyAll text action.edits)).count '\n'
  /-- In the edited text the position resolves to the caret if the column of the caret fits into 32
  bits, and only then. -/
  resolves_iff : offsetAt (Edit.applyAll text action.edits) command.position = caret ↔
    columns (lastLine (upTo caret (Edit.applyAll text action.edits))) < 2 ^ 32
  /-- In a text that is not too long every column fits. -/
  resolves : width (Edit.applyAll text action.edits) < 2 ^ 32 →
    offsetAt (Edit.applyAll text action.edits) command.position = caret

/-- An attribute without a value that is located, in the document, and the action that binds it. -/
theorem exists_bare_of_mem_locate {text : Text} {t : EmbeddedTemplate} {selection : Span}
    {cancelled : Bool} {l : Located} {a : StaticAttribute} {action : ToggleAction}
    (ht : (parseComponent text).template = some t)
    (hl : l ∈ locate t.roots t.anchor selection cancelled)
    (haction : synthesize t.anchor l.attr (classify l.attr) = some action)
    (ha : l.attr = .static a) (hvalue : a.value = none) :
    ∃ pre before name after, text = pre ++ (before ++ (name ++ after)) ∧
      t.anchor = ⟨width pre⟩ ∧ l.attr.span = ⟨width before, width before + width name⟩ ∧
      action = .addBinding t.anchor l.attr.span false := by
  obtain ⟨pre, post, s, f, hanchor, -, htext, -, hattr⟩ := exists_site_of_mem_locate ht hl
  refine ⟨pre, s.head, f.text, s.tail ++ post, ?_, hanchor, ?_, ?_⟩
  · rw [htext]
    simp only [Markup.Site.fill, List.append_assoc]
  · rw [hattr, f.span_toAttribute]
    rfl
  · have hclass : classify l.attr = .addable false := by simp [ha, classify, hvalue]
    rw [hclass] at haction
    exact (Option.some.inj haction).symm

/-- The command of an action that binds the attribute `name` between `before` and `after`. -/
theorem stands_addBinding {pre before name after : Text}
    (hsize : width (pre ++ (before ++ (name ++ after))) < 2 ^ 32) (command : Text) :
    let text := pre ++ (before ++ (name ++ after))
    let place : Span := ⟨width before, width before + width name⟩
    let action := ToggleAction.addBinding ⟨width pre⟩ place false
    ∀ caret, action.caret = some caret →
      CaretCommand.Stands ⟨command, positionAt (Edit.applyAll text action.edits) caret⟩ text action
        ((Anchor.mk (width pre)).toDocument place) caret := by
  intro text place action caret hcaret
  obtain ⟨hedited, hplace, hquotes⟩ := putsQuotes_addBinding pre before name after
  obtain rfl := Option.some.inj (hplace.symm.trans hcaret)
  obtain ⟨hcount, hwidth⟩ := opened_bounds (pre ++ before) name
  have hshort : width (pre ++ before ++ name) < 2 ^ 32 := by
    simp only [width_append] at hsize ⊢
    omega
  have hline := hcount.trans_lt hshort
  have hiff := offsetAt_caret_iff hline (by omega) ('"' :: after)
  dsimp only at hiff
  rw [← hedited] at hiff
  refine ⟨hcaret, hquotes, ?_, hiff, ?_⟩
  · have hfront : pre ++ before ++ ':' :: (name ++ ['=']) ++ '"' :: '"' :: after =
        (pre ++ before ++ ':' :: (name ++ ['=']) ++ ['"']) ++ '"' :: after := by
      simp
    rw [hedited, hfront, positionAt_eq, upTo_append]
    exact Position.wrap_eq_self hline
  · intro hfits
    exact hiff.2 ((columns_lastLine_upTo_le _ _).trans_lt hfits)

/-- **The caret lands between the new quotes.** Every code action of a document of less than
`2 ^ 32` bytes is that of an attribute under the selection. It has a command exactly when it binds
an attribute without a value, and the command stands for a caret between the two quotes that are
inserted then. In the edited document its position resolves to this place, unless the column of the
caret does not fit into 32 bits. -/
theorem codeActions_caret {text : Text} {uri : String} {range : Range}
    {only : Option (List String)} {settings : Settings} {cancelled : Bool} {c : CodeAction}
    (hsize : width text < 2 ^ 32)
    (hc : c ∈ codeActions text (parseComponent text) uri range only settings cancelled) :
    ∃ t l action, (parseComponent text).template = some t ∧
      l ∈ locate t.roots t.anchor (spanOf text range) cancelled ∧
      synthesize t.anchor l.attr (classify l.attr) = some action ∧
      c = CodeAction.of text uri settings action ∧
      (c.command.isSome = true ↔ c.kind = .add ∧ ∃ a, l.attr = .static a ∧ a.value = none) ∧
      ∀ command, c.command = some command →
        ∃ caret, command.Stands text action (t.anchor.toDocument l.attr.span) caret := by
  rw [codeActions] at hc
  split at hc
  · obtain ⟨action, hmem, rfl⟩ := List.mem_map.1 hc
    obtain ⟨t, l, ht, hl, haction⟩ :=
      exists_located_of_mem_toggleActions (List.mem_of_mem_filter hmem)
    have hcaret := caret_of_synthesize haction
    refine ⟨t, l, action, ht, hl, haction, rfl, ?_, ?_⟩
    · rw [CodeAction.of, Option.isSome_map]
      exact hcaret
    · intro command hcommand
      obtain ⟨caret, hsome, rfl⟩ := Option.map_eq_some_iff.1 hcommand
      obtain ⟨-, a, ha, hvalue⟩ := hcaret.1 (by rw [hsome]; rfl)
      obtain ⟨pre, before, name, after, rfl, hanchor, hspan, rfl⟩ :=
        exists_bare_of_mem_locate ht hl haction ha hvalue
      rw [hanchor, hspan] at hsome ⊢
      exact ⟨caret, stands_addBinding hsize _ caret hsome⟩
  · cases hc

/-- An attribute behind a character of two code units, on the third line of a document. -/
theorem codeActions_caret_surrogates :
    let text : Text := "é\r\n<template>\r\n😀<a b></a>".toList
    let c := CodeAction.of text "file:///a.vue" .default (.addBinding ⟨14⟩ ⟨9, 10⟩ false)
    c ∈ codeActions text (parseComponent text) "file:///a.vue" ⟨⟨2, 5⟩, ⟨2, 6⟩⟩ none .default
        false ∧
      ∃ command, c.command = some command ∧ command.position = ⟨2, 9⟩ ∧
        ∃ action place caret, command.Stands text action place caret := by
  intro text c
  have hactions : toggleActions (parseComponent text) (spanOf text ⟨⟨2, 5⟩, ⟨2, 6⟩⟩) false =
      [.addBinding ⟨14⟩ ⟨9, 10⟩ false] := by
    decide +kernel
  have hmem : c ∈ codeActions text (parseComponent text) "file:///a.vue" ⟨⟨2, 5⟩, ⟨2, 6⟩⟩ none
      .default false := by
    rw [codeActions, hactions]
    exact List.mem_singleton.2 rfl
  have hedited : Edit.applyAll text (ToggleAction.addBinding ⟨14⟩ ⟨9, 10⟩ false).edits =
      "é\r\n<template>\r\n😀<a :b=\"\"></a>".toList := by
    rw [Edit.applyAll, List.mergeSort_of_pairwise (by decide)]
    decide +kernel
  have hposition : positionAt "é\r\n<template>\r\n😀<a :b=\"\"></a>".toList 27 = ⟨2, 9⟩ := by
    decide +kernel
  obtain ⟨t, l, action, -, -, -, -, -, hcaret⟩ := codeActions_caret (by decide) hmem
  refine ⟨hmem, _, rfl, ?_, action, _, hcaret _ rfl⟩
  show positionAt (Edit.applyAll text (ToggleAction.addBinding ⟨14⟩ ⟨9, 10⟩ false).edits) 27 =
    ⟨2, 9⟩
  rw [hedited, hposition]

/-! ## A column that does not fit -/

/-- The same action further to the right. -/
def ToggleAction.shift (delta : Nat) (action : ToggleAction) : ToggleAction :=
  { action with
    edits := action.edits.map fun e => ⟨e.span.shift delta, e.newText⟩
    caret := action.caret.map (· + delta) }

theorem synthesize_shift (delta : Nat) (anchor : Anchor) (a : Attribute) (c : Classification) :
    synthesize ⟨anchor.offset + delta⟩ a c =
      (synthesize anchor a c).map (ToggleAction.shift delta) := by
  cases c with
  | ineligible reason => rfl
  | removable b =>
    simp [synthesize, ToggleAction.removeBinding, ToggleAction.shift, Edit.delete,
      Anchor.toDocument, Span.shift_shift]
  | addable hasValue =>
    cases hasValue <;>
      simp [synthesize, ToggleAction.addBinding, ToggleAction.shift, Edit.insert, Span.caret,
        Anchor.toDocument, Span.shift] <;>
      omega

/-- A document that is moved to the right as a whole is offered the same actions there. -/
theorem toggleActions_shift (delta : Nat) (component : Component) (selection : Span)
    (cancelled : Bool) :
    toggleActions (component.shift delta) (selection.shift delta) cancelled =
      (toggleActions component selection cancelled).map (ToggleAction.shift delta) := by
  obtain ⟨template, issues⟩ := component
  cases template with
  | none => rfl
  | some t =>
    have hlocal : Anchor.toLocal? ⟨t.anchor.offset + delta⟩ (selection.shift delta) =
        t.anchor.toLocal? selection := by
      simp [Anchor.toLocal?, Span.shift, Nat.add_sub_add_right]
    simp only [toggleActions, Component.shift, EmbeddedTemplate.shift, Option.map_some, locate,
      hlocal, synthesize_shift, List.map_filterMap]

theorem lastLine_of_not_mem {t : Text} (h : '\n' ∉ t) : lastLine t = t := by
  rw [lastLine, List.rtakeWhile_eq_self_iff]
  intro c hc
  simpa using ne_of_mem_of_not_mem hc h

/-- A place on the first line is that of its column, if it does not cut a line break. -/
theorem offsetAt_firstLine {before after : Text} (h : '\n' ∉ before)
    (hfits : columns before < 2 ^ 32) (hcut : ¬CutsBreak before after) :
    offsetAt (before ++ after) ⟨0, columns before⟩ = width before := by
  rw [offsetAt, offsetFrom_zero, columnOffset_line h hfits, if_neg hcut, Nat.zero_add]

theorem positionAt_firstLine {before : Text} (h : '\n' ∉ before) (after : Text) :
    positionAt (before ++ after) (width before) = ⟨0, Position.wrap (columns before)⟩ := by
  rw [positionAt_eq, upTo_append, lastLine_of_not_mem h, List.count_eq_zero_of_not_mem h]
  rfl

theorem width_replicate (n : Nat) : width (List.replicate n 'a') = n := by
  have hsize : 'a'.utf8Size = 1 := by decide
  induction n with
  | zero => rfl
  | succ n ih => rw [List.replicate_succ, width_cons, ih, hsize, Nat.add_comm]

theorem columns_replicate (n : Nat) : columns (List.replicate n 'a') = n := by
  have hunits : units16 'a' = 1 := by decide
  induction n with
  | zero => rfl
  | succ n ih => rw [List.replicate_succ, columns_cons, ih, hunits, Nat.add_comm]

section Run

variable {run : Text} {n : Nat}

/-- A document with one attribute at its end, behind a run of plain text, is offered to bind it. -/
theorem toggleActions_behind_run (hunmarked : '<' ∉ run) (hwidth : width run = n) :
    toggleActions (parseComponent (run ++ "<template><p a".toList)) (Span.shift n ⟨13, 13⟩) false =
      [.addBinding ⟨n + 10⟩ ⟨3, 4⟩ false] := by
  have hsmall : toggleActions (parseComponent "<template><p a".toList) ⟨13, 13⟩ false =
      [.addBinding ⟨10⟩ ⟨3, 4⟩ false] := by
    decide +kernel
  have hmoved : (ToggleAction.addBinding ⟨10⟩ ⟨3, 4⟩ false).shift n =
      .addBinding ⟨n + 10⟩ ⟨3, 4⟩ false := by
    have hshift := synthesize_shift n ⟨10⟩ (.static ⟨['a'], ⟨3, 4⟩, none, ⟨3, 4⟩⟩)
      (.addable false)
    rw [Nat.add_comm] at hshift
    exact (Option.some.inj hshift).symm
  rw [parseComponent_unmarked hunmarked, hwidth, toggleActions_shift, hsmall, List.map_singleton,
    hmoved]

theorem applyAll_behind_run (hwidth : width run = n) :
    Edit.applyAll (run ++ "<template><p a".toList)
        (ToggleAction.addBinding ⟨n + 10⟩ ⟨3, 4⟩ false).edits =
      run ++ "<template><p :a=\"\"".toList := by
  have hanchor : width (run ++ "<template>".toList) = n + 10 := by
    rw [width_append, hwidth]
    rfl
  have hplaced := (putsQuotes_addBinding (run ++ "<template>".toList) "<p ".toList ['a'] []).1
  rw [hanchor, List.append_assoc] at hplaced
  exact hplaced.trans (by simp)

/-- The position behind the name of the tag is the place there. -/
theorem spanOf_behind_run (hline : '\n' ∉ run) (hwidth : width run = n)
    (hcolumns : columns run = n) (hn : n + 13 < 2 ^ 32) :
    spanOf (run ++ "<template><p a".toList) ⟨⟨0, n + 13⟩, ⟨0, n + 13⟩⟩ =
      Span.shift n ⟨13, 13⟩ := by
  have hfront : columns (run ++ "<template><p ".toList) = n + 13 := by
    rw [columns_append, hcolumns]
    rfl
  have hplace : width (run ++ "<template><p ".toList) = n + 13 := by
    rw [width_append, hwidth]
    rfl
  have hoffset : offsetAt ((run ++ "<template><p ".toList) ++ ['a'])
        ⟨0, columns (run ++ "<template><p ".toList)⟩ =
      width (run ++ "<template><p ".toList) :=
    offsetAt_firstLine (by simp [hline]) (by omega) (by simp [CutsBreak])
  rw [hfront, hplace, List.append_assoc] at hoffset
  have htext : run ++ "<template><p a".toList = run ++ ("<template><p ".toList ++ ['a']) := rfl
  rw [spanOf, htext, hoffset, Span.shift, Nat.min_self, Nat.max_self, Nat.add_comm]

/-- A caret on the first column that does not fit is told as the beginning of the line. -/
theorem positionAt_behind_run (hline : '\n' ∉ run) (hwidth : width run = n)
    (hcolumns : columns run = n) (hn : n + 17 = 2 ^ 32) :
    positionAt (run ++ "<template><p :a=\"\"".toList) (2 ^ 32) = ⟨0, 0⟩ := by
  have hfront : width (run ++ "<template><p :a=\"".toList) = 2 ^ 32 := by
    rw [width_append, hwidth, ← hn]
    rfl
  have hunits : columns (run ++ "<template><p :a=\"".toList) = 2 ^ 32 := by
    rw [columns_append, hcolumns, ← hn]
    rfl
  have hnone : '\n' ∉ run ++ "<template><p :a=\"".toList := by simp [hline]
  have hposition := positionAt_firstLine hnone ['"']
  rw [hfront, hunits, List.append_assoc] at hposition
  exact hposition

end Run

/-- The caret falls on the column `2 ^ 32`, so that it lands at the beginning of the line. -/
theorem codeActions_caret_overflow :
    let text : Text := List.replicate 4294967279 'a' ++ "<template><p a".toList
    let action := ToggleAction.addBinding ⟨4294967289⟩ ⟨3, 4⟩ false
    let c := CodeAction.of text "file:///a.vue" .default action
    let edited := Edit.applyAll text action.edits
    width text < 2 ^ 32 ∧
      c ∈ codeActions text (parseComponent text) "file:///a.vue"
        ⟨⟨0, 4294967292⟩, ⟨0, 4294967292⟩⟩ none .default false ∧
      ∃ command, c.command = some command ∧ offsetAt edited command.position = 0 ∧
        slice? edited 0 1 = some ['a'] := by
  intro text action c edited
  have hmarks : ∀ mark, mark ≠ 'a' → mark ∉ List.replicate 4294967279 'a' :=
    fun mark hne hmem => hne (List.eq_of_mem_replicate hmem)
  have hline := hmarks '\n' (by decide)
  have hwidth := width_replicate 4294967279
  have hcolumns := columns_replicate 4294967279
  have hactions := toggleActions_behind_run (hmarks '<' (by decide)) hwidth
  have hspan := spanOf_behind_run hline hwidth hcolumns (by decide)
  have hedited : edited = List.replicate 4294967279 'a' ++ "<template><p :a=\"\"".toList :=
    applyAll_behind_run hwidth
  have hposition := positionAt_behind_run hline hwidth hcolumns (by decide)
  have hsize : width text < 2 ^ 32 := by
    have htext : width text = 4294967279 + 14 := by
      rw [width_append, hwidth]
      rfl
    omega
  have hmem : c ∈ codeActions text (parseComponent text) "file:///a.vue"
      ⟨⟨0, 4294967292⟩, ⟨0, 4294967292⟩⟩ none .default false := by
    rw [← hspan] at hactions
    rw [codeActions, hactions]
    exact List.mem_singleton.2 rfl
  refine ⟨hsize, hmem, _, rfl, ?_, ?_⟩
  · show offsetAt edited (positionAt edited (2 ^ 32)) = 0
    rw [hedited, hposition, offsetAt, offsetFrom_zero, columnOffset_of_le (Nat.le_refl 0)]
  · have hrun : List.replicate 4294967279 'a' = 'a' :: List.replicate 4294967278 'a' :=
      List.replicate_succ
    have hslice : slice? (List.replicate 4294967279 'a' ++ "<template><p :a=\"\"".toList) 0 1 =
        some ['a'] := by
      rw [hrun]
      exact slice?_eq_some (x := []) rfl rfl rfl
    rw [← hedited] at hslice
    exact hslice

end BindingToggle
