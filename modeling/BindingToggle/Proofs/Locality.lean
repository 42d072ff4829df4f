import BindingToggle.Proofs.Brackets
import BindingToggle.Proofs.Relocation

/-!
# Reading in front of a semicolon

A parser that comes to the end of the tokens stops there, and no production goes on with a
semicolon. So an expression that is read up to the end is read in the same way when a semicolon and
any other tokens stand behind. The one parser that looks further is that of arrow functions: it
looks for the parenthesis that closes the parameters, and could find it in what stands behind. This
is why the statements below ask that every parenthesis is closed before the end.

* `Closed ts` — every opening parenthesis among the tokens is closed behind it; this holds of tokens
  that are bracketed (`Bracketed.closed`).
* `Ended tail` — the tokens begin with a semicolon.
* `Parse.Local tail` — what is read at the end of the tokens is read in the same way in front of
  `tail`.
* `Inner.Local` — this holds of the parsers one level further in. It is handed on by every
  production, so it holds at every depth (`local_ofDepth`).
-/

namespace BindingToggle

/-! ## Parentheses that are closed -/

/-- Every opening parenthesis among the tokens is closed behind it. -/
def Closed : List Token → Prop
  | [] => True
  | t :: ts => (t.isPunct .openParen = true → (Inner.closing 0 ts).isSome = true) ∧ Closed ts

theorem Closed.tail {t : Token} {ts : List Token} (h : Closed (t :: ts)) : Closed ts := h.2

theorem Closed.behind {us ts : List Token} (h : Closed (us ++ ts)) : Closed ts := by
  induction us with
  | nil => exact h
  | cons u us ih => exact ih h.tail

/-- A bracket that is closed is so in front of more tokens. -/
theorem Inner.closing_extend {depth : Nat} {ts rest : List Token} {close : Token}
    (h : closing depth ts = some (close, rest)) (tail : List Token) :
    closing depth (ts ++ tail) = some (close, rest ++ tail) := by
  obtain ⟨inner, rfl, hinner⟩ := closing_append h
  rw [List.append_assoc, List.cons_append]
  exact hinner (rest ++ tail)

theorem Closed.append {us ts : List Token} (hus : Closed us) (hts : Closed ts) :
    Closed (us ++ ts) := by
  induction us with
  | nil => exact hts
  | cons u us ih =>
    refine ⟨fun hu => ?_, ih hus.tail⟩
    obtain ⟨⟨close, rest⟩, hclose⟩ := Option.isSome_iff_exists.1 (hus.1 hu)
    have hextended := Inner.closing_extend hclose ts
    exact Option.isSome_iff_exists.2 ⟨_, hextended⟩

theorem Bracketed.closed {ts : List Token} (h : Bracketed Punct.AnyPair ts) : Closed ts := by
  induction h with
  | nil => trivial
  | other ht _ ih =>
    refine ⟨fun hopen => ?_, ih⟩
    have hkind := beq_iff_eq.1 hopen
    simp [Token.isBracket, hkind, Punct.isOpening] at ht
  | pair hf hl hpair hinner _ ihinner ihrest =>
    refine ⟨fun _ => ?_, ihinner.append ⟨fun hopen => ?_, ihrest⟩⟩
    · rw [Inner.closing_bracketed hinner, Inner.closing_last hl hpair.2]
      rfl
    · have hkind := hl.symm.trans (beq_iff_eq.1 hopen)
      cases hkind
      cases hpair.2

/-! ## Reading in front of a semicolon -/

/-- The tokens begin with a semicolon. -/
inductive Ended : List Token → Prop
  | intro {t : Token} {ts : List Token} (ht : t.kind = .punct .semicolon) : Ended (t :: ts)

namespace Parse

/-- What is read at the end of the tokens is read in the same way in front of `tail`. -/
def Local {α : Type} (tail : List Token) (p : List Token → Parse α) : Prop :=
  ∀ {ts rest : List Token} {a : α}, Closed ts → p ts = .ok (a, rest) →
    p (ts ++ tail) = .ok (a, rest ++ tail) ∧ Closed rest

variable (tail : List Token)

theorem consume?_some {p : Punct} {ts rest : List Token} {t : Token} (hts : Closed ts)
    (h : consume? p ts = some (t, rest)) :
    consume? p (ts ++ tail) = some (t, rest ++ tail) ∧ Closed rest := by
  obtain ⟨rfl, ht⟩ := cons_of_consume? h
  exact ⟨by simp [consume?, Token.isPunct, ht], hts.tail⟩

theorem consume?_none {tail : List Token} (htail : Ended tail) {p : Punct} (hp : p ≠ .semicolon)
    {ts : List Token} (h : consume? p ts = none) : consume? p (ts ++ tail) = none := by
  cases ts with
  | nil =>
    obtain ⟨ht⟩ := htail
    simp [consume?, Token.isPunct, ht, Ne.symm hp]
  | cons t ts => simpa [consume?] using h

theorem expect_local (p : Punct) : Local tail (expect p) := by
  intro ts rest t hts h
  unfold expect at h ⊢
  split at h
  · rename_i hc
    cases h
    obtain ⟨hc', hrest⟩ := consume?_some tail hts hc
    rw [hc']
    exact ⟨rfl, hrest⟩
  · cases h

end Parse

namespace Production

open Parse

variable {tail : List Token}

theorem items_local (htail : Ended tail) {item : Production} (hitem : Local tail item.run)
    {close : Punct} (hclose : close ≠ .semicolon) (holes : Bool) :
    Local tail (item.items close holes) := by
  have hhole : ∀ {ts}, (if holes then consume? .comma ts else none) = none →
      (if holes then consume? .comma (ts ++ tail) else none) = none := by
    intro ts h
    cases holes with
    | false => rfl
    | true => exact consume?_none htail (by decide) h
  intro ts rest a hts h
  fun_induction item.items close holes ts generalizing a rest with
  | case1 ts last rest hc =>
    cases h
    obtain ⟨hc', hrest⟩ := consume?_some tail hts hc
    rw [items_eq, hc']
    exact ⟨rfl, hrest⟩
  | case2 ts hc hole after hh ih =>
    cases holes with
    | false => cases hh
    | true =>
      obtain ⟨hh', hafter⟩ := consume?_some tail hts hh
      rw [items_eq, consume?_none htail hclose hc, if_pos rfl, hh']
      exact ih hafter h
  | case3 => cases h
  | case4 => cases h
  | case5 ts hc hh expr after hi hcomma last rest he =>
    cases h
    obtain ⟨hi', hafter⟩ := hitem hts hi
    obtain ⟨he', hrest⟩ := expect_local tail close hafter he
    rw [items_eq, consume?_none htail hclose hc, hhole hh, hi']
    simp only [consume?_none htail (by decide) hcomma, he']
    exact ⟨trivial, hrest⟩
  | case6 => cases h
  | case7 ts hc hh expr after hi comma afterComma hcomma exprs last rest hr ih =>
    cases h
    obtain ⟨hi', hafter⟩ := hitem hts hi
    obtain ⟨hcomma', hafterComma⟩ := consume?_some tail hafter hcomma
    obtain ⟨hr', hrest⟩ := ih hafterComma hr
    rw [items_eq, consume?_none htail hclose hc, hhole hh, hi']
    simp only [hcomma', hr']
    exact ⟨trivial, hrest⟩

end Production

namespace Inner

open Parse

/-- The parsers one level further in read in the same way in front of `tail`. -/
structure Local (tail : List Token) (inner : Inner) : Prop where
  assignment : Parse.Local tail inner.assignment.run
  binary : ∀ floor, Parse.Local tail (inner.binary floor).run
  unary : Parse.Local tail inner.unary.run
  callee : Parse.Local tail inner.callee.run

variable {inner : Inner} {tail : List Token}

/-! ### Names and parameters -/

theorem propertyName_local (tail : List Token) : Parse.Local tail propertyName := by
  intro ts rest name hts h
  match ts with
  | [] => cases h
  | [t] =>
    rw [propertyName] at h
    split at h
    · rename_i ht
      cases h
      refine ⟨?_, trivial⟩
      cases tail <;> simp [propertyName, Token.isPunct, ht]
    · cases h
  | t :: u :: ts =>
    rw [propertyName] at h
    rw [List.cons_append, List.cons_append, propertyName]
    split at h
    · rename_i hh
      cases h
      rw [if_pos hh]
      exact ⟨rfl, hts.tail.tail⟩
    · rename_i hh
      rw [if_neg hh]
      split at h
      · rename_i ht
        cases h
        rw [if_pos ht]
        exact ⟨rfl, hts.tail⟩
      · cases h

theorem property_local (tail : List Token) (object : Expr) (isOptional : Bool) :
    Parse.Local tail (property object isOptional) := by
  intro ts rest e hts hread
  unfold property at hread ⊢
  split at hread
  · cases hread
  rename_i name rest hname
  cases hread
  obtain ⟨hname', hrest⟩ := propertyName_local tail hts hname
  simp only [hname']
  exact ⟨trivial, hrest⟩

/-- Whether a suffix begins is seen at its first token. -/
theorem suffix?_eq_none {e : Expr} {t : Token} {ts : List Token} (h : inner.suffix? e t ts = none)
    (f : Expr) (us : List Token) : inner.suffix? f t us = none := by
  unfold suffix? at h ⊢
  split at h
  · cases h
  · cases h
  · cases h
  · cases h
  · cases h
  · rfl

theorem properties_local (htail : Ended tail) (e : Expr) : Parse.Local tail (properties e) := by
  intro ts rest f hts hread
  fun_induction properties e ts with
  | case1 e ts hc =>
    cases hread
    rw [properties_eq, consume?_none htail (by decide) hc]
    exact ⟨rfl, hts⟩
  | case2 => cases hread
  | case3 e ts dot after hc f mid hp ih =>
    obtain ⟨hc', hafter⟩ := consume?_some tail hts hc
    obtain ⟨hp', hmid⟩ := property_local tail e false hafter hp
    rw [properties_eq, hc']
    simp only [hp']
    exact ih hmid hread

/-- The parameters of an arrow function are the same ones in front of a semicolon: the parenthesis
that closes them is not looked for behind it. -/
theorem parameters?_local (htail : Ended tail) {ts : List Token} (hts : Closed ts) :
    parameters? (ts ++ tail) = (parameters? ts).map (Prod.map id (· ++ tail)) := by
  have harrow : ∀ {us}, consume? .arrow (us ++ tail) =
      (consume? .arrow us).map (Prod.map id (· ++ tail)) := by
    intro us
    cases hc : consume? .arrow us with
    | none => exact consume?_none htail (by decide) hc
    | some r =>
      obtain ⟨t, rest⟩ := r
      obtain ⟨rfl, ht⟩ := cons_of_consume? hc
      simp [consume?, Token.isPunct, ht]
  cases ts with
  | nil =>
    obtain ⟨hs⟩ := htail
    simp [parameters?, Token.isPunct, hs]
  | cons t ts =>
    simp only [List.cons_append, parameters?, harrow]
    split
    · cases consume? .arrow ts <;> rfl
    split
    · rename_i hopen
      obtain ⟨⟨close, rest⟩, hclose⟩ := Option.isSome_iff_exists.1 (hts.1 hopen)
      simp only [hclose, closing_extend hclose, harrow]
      cases consume? .arrow rest <;> rfl
    · rfl

theorem closed_of_parameters? {ts rest : List Token} {s : Span} (hts : Closed ts)
    (h : parameters? ts = some (s, rest)) : Closed rest := by
  obtain ⟨used, mark, rfl, -, -⟩ := parameters?_spells h
  exact hts.behind.tail

theorem skipAsync_local (htail : Ended tail) (ts : List Token) :
    skipAsync (ts ++ tail) = skipAsync ts ++ tail := by
  obtain ⟨hs⟩ := htail
  match ts with
  | [] => unfold skipAsync; split <;> simp_all [Token.isWord]
  | [t] => simp [skipAsync, Token.isPunct, hs]
  | t :: u :: ts =>
    rw [skipAsync, List.cons_append, List.cons_append, skipAsync]
    split <;> rfl

theorem closed_skipAsync {ts : List Token} (hts : Closed ts) : Closed (skipAsync ts) := by
  unfold skipAsync
  split
  · split
    · exact hts.tail
    · exact hts
  · exact hts

/-! ### Primary expressions -/

section Productions

variable (htail : Ended tail) (h : inner.Local tail)

include htail h

theorem sequenceRest_local : Parse.Local tail inner.sequenceRest := by
  intro ts rest exprs hts hread
  fun_induction inner.sequenceRest ts generalizing rest exprs with
  | case1 ts hc =>
    cases hread
    rw [sequenceRest_eq, consume?_none htail (by decide) hc]
    exact ⟨rfl, hts⟩
  | case2 => cases hread
  | case3 => cases hread
  | case4 ts comma after hc expr mid he exprs rest hr ih =>
    cases hread
    obtain ⟨hc', hafter⟩ := consume?_some tail hts hc
    obtain ⟨he', hmid⟩ := h.assignment hafter he
    obtain ⟨hr', hrest⟩ := ih hmid hr
    rw [sequenceRest_eq, hc']
    simp only [he', hr']
    exact ⟨trivial, hrest⟩

theorem expression_local : Parse.Local tail inner.expression := by
  intro ts rest e hts hread
  unfold expression at hread ⊢
  split at hread
  · cases hread
  rename_i first mid hfirst
  obtain ⟨hfirst', hmid⟩ := h.assignment hts hfirst
  simp only [hfirst']
  split at hread
  · cases hread
  all_goals
    rename_i hseq
    cases hread
    obtain ⟨hseq', hrest⟩ := sequenceRest_local htail h hmid hseq
    simp only [hseq']
    exact ⟨trivial, hrest⟩

theorem element_local : Parse.Local tail inner.element := by
  intro ts rest e hts hread
  unfold element at hread ⊢
  split at hread
  · rename_i hc
    rw [consume?_none htail (by decide) hc]
    exact h.assignment hts hread
  · rename_i dots after hc
    obtain ⟨hc', hafter⟩ := consume?_some tail hts hc
    simp only [hc']
    split at hread
    · cases hread
    · rename_i argument rest hargument
      cases hread
      obtain ⟨hargument', hrest⟩ := h.assignment hafter hargument
      simp only [hargument']
      exact ⟨trivial, hrest⟩

theorem elements_local {close : Punct} (hclose : close ≠ .semicolon) (holes : Bool) :
    Parse.Local tail (inner.elements.items close holes) :=
  Production.items_local htail (element_local htail h) hclose holes

theorem propertyValue_local (key : Token) : Parse.Local tail (inner.propertyValue key) := by
  intro ts rest e hts hread
  unfold propertyValue at hread ⊢
  split at hread
  · rename_i colon after hc
    obtain ⟨hc', hafter⟩ := consume?_some tail hts hc
    simp only [hc']
    exact h.assignment hafter hread
  · rename_i hc
    simp only [consume?_none htail (by decide) hc]
    split at hread
    · rename_i hk
      cases hread
      rw [if_pos hk]
      exact ⟨rfl, hts⟩
    · cases hread

theorem entry_local : Parse.Local tail inner.entry := by
  intro ts rest e hts hread
  cases ts with
  | nil => cases hread
  | cons key after =>
    simp only [entry, List.cons_append] at hread ⊢
    split at hread
    · rename_i hdots
      rw [if_pos hdots]
      exact element_local htail h hts hread
    rename_i hdots
    rw [if_neg hdots]
    split at hread
    · rename_i hkey
      rw [if_pos hkey]
      exact propertyValue_local htail h key hts.tail hread
    rename_i hkey
    rw [if_neg hkey]
    split at hread
    · rename_i hbracket
      rw [if_pos hbracket]
      split at hread
      · cases hread
      rename_i name mid hname
      obtain ⟨hname', hmid⟩ := h.assignment hts.tail hname
      simp only [hname']
      split at hread
      · cases hread
      rename_i bracket mid' hclose
      obtain ⟨hclose', hmid'⟩ := expect_local tail .closeBracket hmid hclose
      simp only [hclose']
      exact propertyValue_local htail h key hmid' hread
    · cases hread

theorem entries_local {close : Punct} (hclose : close ≠ .semicolon) (holes : Bool) :
    Parse.Local tail (inner.entries.items close holes) :=
  Production.items_local htail (entry_local htail h) hclose holes

theorem construction_local (start : Nat) : Parse.Local tail (inner.construction start) := by
  intro ts rest e hts hread
  unfold construction at hread ⊢
  split at hread
  · cases hread
  rename_i callee mid hcallee
  obtain ⟨hcallee', hmid⟩ := h.callee hts hcallee
  simp only [hcallee']
  split at hread
  · rename_i hc
    cases hread
    simp only [consume?_none htail (by decide) hc]
    exact ⟨trivial, hmid⟩
  rename_i bracket after hc
  obtain ⟨hc', hafter⟩ := consume?_some tail hmid hc
  simp only [hc']
  split at hread
  · cases hread
  rename_i arguments close rest hitems
  cases hread
  obtain ⟨hitems', hrest⟩ := elements_local htail h (by decide) false hafter hitems
  simp only [hitems']
  exact ⟨trivial, hrest⟩

theorem primary_local : Parse.Local tail inner.primary := by
  intro ts rest e hts hread
  cases ts with
  | nil => cases hread
  | cons t after =>
    have hafter := hts.tail
    simp only [primary, List.cons_append] at hread ⊢
    split at hread
    · cases hread
      exact ⟨rfl, hafter⟩
    · cases hread
      exact ⟨rfl, hafter⟩
    · cases hread
      exact ⟨rfl, hafter⟩
    · split at hread
      · cases hread
      rename_i hreserved
      rw [if_neg hreserved]
      split at hread
      · rename_i hnew
        rw [if_pos hnew]
        exact construction_local htail h t.span.start hafter hread
      · rename_i hnew
        cases hread
        rw [if_neg hnew]
        exact ⟨rfl, hafter⟩
    · split at hread
      · cases hread
      rename_i e mid hexpr
      obtain ⟨hexpr', hmid⟩ := expression_local htail h hafter hexpr
      simp only [hexpr']
      split at hread
      · cases hread
      rename_i close rest hclose
      cases hread
      obtain ⟨hclose', hrest⟩ := expect_local tail .closeParen hmid hclose
      simp only [hclose']
      exact ⟨trivial, hrest⟩
    · split at hread
      · cases hread
      rename_i exprs close rest hitems
      cases hread
      obtain ⟨hitems', hrest⟩ := elements_local htail h (by decide) true hafter hitems
      simp only [hitems']
      exact ⟨trivial, hrest⟩
    · split at hread
      · cases hread
      rename_i exprs close rest hitems
      cases hread
      obtain ⟨hitems', hrest⟩ := entries_local htail h (by decide) false hafter hitems
      simp only [hitems']
      exact ⟨trivial, hrest⟩
    · cases hread

/-! ### Suffixes -/

theorem subscript_local (object : Expr) (isOptional : Bool) :
    Parse.Local tail (inner.subscript object isOptional) := by
  intro ts rest e hts hread
  unfold subscript at hread ⊢
  split at hread
  · cases hread
  rename_i index mid hindex
  obtain ⟨hindex', hmid⟩ := expression_local htail h hts hindex
  simp only [hindex']
  split at hread
  · cases hread
  rename_i close rest hclose
  cases hread
  obtain ⟨hclose', hrest⟩ := expect_local tail .closeBracket hmid hclose
  simp only [hclose']
  exact ⟨trivial, hrest⟩

theorem application_local (callee : Expr) (isOptional : Bool) :
    Parse.Local tail (inner.application callee isOptional) := by
  intro ts rest e hts hread
  unfold application at hread ⊢
  split at hread
  · cases hread
  rename_i arguments close rest hitems
  cases hread
  obtain ⟨hitems', hrest⟩ := elements_local htail h (by decide) false hts hitems
  simp only [hitems']
  exact ⟨trivial, hrest⟩

theorem optionalSuffix_local (e : Expr) : Parse.Local tail (inner.optionalSuffix e) := by
  intro ts rest f hts hread
  unfold optionalSuffix at hread ⊢
  split at hread
  · rename_i hc
    obtain ⟨hc', hafter⟩ := consume?_some tail hts hc
    simp only [hc']
    exact application_local htail h e true hafter hread
  rename_i hparen
  simp only [consume?_none htail (by decide) hparen]
  split at hread
  · rename_i hc
    obtain ⟨hc', hafter⟩ := consume?_some tail hts hc
    simp only [hc']
    exact subscript_local htail h e true hafter hread
  · rename_i hbracket
    simp only [consume?_none htail (by decide) hbracket]
    exact property_local tail e true hts hread

theorem suffix?_local {e f : Expr} {t : Token} {ts rest : List Token} (hts : Closed ts)
    (hread : inner.suffix? e t ts = some (.ok (f, rest))) :
    inner.suffix? e t (ts ++ tail) = some (.ok (f, rest ++ tail)) ∧ Closed rest := by
  unfold suffix? at hread ⊢
  split at hread
  · obtain ⟨hread', hrest⟩ := property_local tail e false hts (Option.some.inj hread)
    exact ⟨congrArg some hread', hrest⟩
  · obtain ⟨hread', hrest⟩ := optionalSuffix_local htail h e hts (Option.some.inj hread)
    exact ⟨congrArg some hread', hrest⟩
  · obtain ⟨hread', hrest⟩ := subscript_local htail h e false hts (Option.some.inj hread)
    exact ⟨congrArg some hread', hrest⟩
  · obtain ⟨hread', hrest⟩ := application_local htail h e false hts (Option.some.inj hread)
    exact ⟨congrArg some hread', hrest⟩
  · cases hread
    exact ⟨rfl, hts⟩
  · cases hread

theorem suffixes_local (e : Expr) : Parse.Local tail (inner.suffixes e) := by
  intro ts rest f hts hread
  fun_induction inner.suffixes e ts with
  | case1 e =>
    obtain ⟨hs⟩ := htail
    cases hread
    rw [List.nil_append, suffixes_eq]
    simp [suffix?, hs, hts]
  | case2 e t after hs =>
    cases hread
    rw [List.cons_append, suffixes_eq, suffix?_eq_none hs]
    exact ⟨rfl, hts⟩
  | case3 => cases hread
  | case4 e t after f mid hs ih =>
    obtain ⟨hs', hmid⟩ := suffix?_local htail h hts.tail hs
    rw [List.cons_append, suffixes_eq, hs']
    exact ih hmid hread

theorem postfixed_local : Parse.Local tail inner.postfixed := by
  intro ts rest e hts hread
  unfold postfixed at hread ⊢
  split at hread
  · cases hread
  rename_i e mid hprimary
  obtain ⟨hprimary', hmid⟩ := primary_local htail h hts hprimary
  simp only [hprimary']
  exact suffixes_local htail h e hmid hread

theorem calleeBody_local : Parse.Local tail inner.calleeBody := by
  intro ts rest e hts hread
  unfold calleeBody at hread ⊢
  split at hread
  · cases hread
  rename_i e mid hprimary
  obtain ⟨hprimary', hmid⟩ := primary_local htail h hts hprimary
  simp only [hprimary']
  exact properties_local htail e hmid hread

/-! ### Operators -/

theorem stepped_local : Parse.Local tail inner.stepped := by
  intro ts rest e hts hread
  unfold stepped at hread ⊢
  split at hread
  · cases hread
  · rename_i e hpostfixed
    cases hread
    obtain ⟨hpostfixed', -⟩ := postfixed_local htail h hts hpostfixed
    obtain ⟨hs⟩ := htail
    simp only [hpostfixed', List.nil_append, UpdateOp.ofToken?, hs]
    exact ⟨trivial, trivial⟩
  · rename_i e t mid hpostfixed
    obtain ⟨hpostfixed', hmid⟩ := postfixed_local htail h hts hpostfixed
    simp only [hpostfixed', List.cons_append]
    split at hread
    · cases hread
      exact ⟨rfl, hmid⟩
    · split at hread
      · rename_i hline
        cases hread
        rw [if_pos hline]
        exact ⟨rfl, hmid⟩
      · rename_i hline
        cases hread
        rw [if_neg hline]
        exact ⟨rfl, hmid.tail⟩

theorem unaryBody_local : Parse.Local tail inner.unaryBody := by
  intro ts rest e hts hread
  cases ts with
  | nil => cases hread
  | cons t after =>
    simp only [unaryBody, List.cons_append] at hread ⊢
    split at hread
    · split at hread
      · cases hread
      rename_i e rest hoperand
      cases hread
      obtain ⟨hoperand', hrest⟩ := h.unary hts.tail hoperand
      simp only [hoperand']
      exact ⟨trivial, hrest⟩
    · split at hread
      · split at hread
        · cases hread
        rename_i e rest hoperand
        cases hread
        obtain ⟨hoperand', hrest⟩ := h.unary hts.tail hoperand
        simp only [hoperand']
        exact ⟨trivial, hrest⟩
      · exact stepped_local htail h hts hread

theorem operators_local (floor : Nat) (left : Expr) :
    Parse.Local tail (inner.operators floor left) := by
  intro ts rest e hts hread
  fun_induction inner.operators floor left ts with
  | case1 left =>
    obtain ⟨hs⟩ := htail
    cases hread
    rw [List.nil_append, operators_eq]
    simp [BinaryOp.ofToken?, BinaryOp.ofPunct?, hs, hts]
  | case2 left t after hop =>
    cases hread
    rw [List.cons_append, operators_eq, hop]
    exact ⟨rfl, hts⟩
  | case3 left t after op hop hfloor =>
    cases hread
    rw [List.cons_append, operators_eq, hop]
    simp only [hfloor, if_true]
    exact ⟨trivial, hts⟩
  | case4 => cases hread
  | case5 left t after op hop hfloor right mid hr ih =>
    obtain ⟨hr', hmid⟩ := h.binary _ hts.tail hr
    rw [List.cons_append, operators_eq, hop]
    simp only [hfloor, if_false, hr']
    exact ih hmid hread

theorem binaryBody_local (floor : Nat) : Parse.Local tail (inner.binaryBody floor) := by
  intro ts rest e hts hread
  unfold binaryBody at hread ⊢
  split at hread
  · cases hread
  rename_i e mid hoperand
  obtain ⟨hoperand', hmid⟩ := unaryBody_local htail h hts hoperand
  simp only [hoperand']
  exact operators_local htail h floor e hmid hread

theorem conditional_local : Parse.Local tail inner.conditional := by
  intro ts rest e hts hread
  unfold conditional at hread ⊢
  split at hread
  · cases hread
  rename_i test mid htest
  obtain ⟨htest', hmid⟩ := h.binary 0 hts htest
  simp only [htest']
  split at hread
  · rename_i hc
    cases hread
    simp only [consume?_none htail (by decide) hc]
    exact ⟨trivial, hmid⟩
  rename_i mark afterMark hc
  obtain ⟨hc', hafterMark⟩ := consume?_some tail hmid hc
  simp only [hc']
  split at hread
  · cases hread
  rename_i consequent mid hconsequent
  obtain ⟨hconsequent', hmid⟩ := h.assignment hafterMark hconsequent
  simp only [hconsequent']
  split at hread
  · cases hread
  rename_i colon mid' hcolon
  obtain ⟨hcolon', hmid'⟩ := expect_local tail .colon hmid hcolon
  simp only [hcolon']
  split at hread
  · cases hread
  rename_i alternate rest halternate
  cases hread
  obtain ⟨halternate', hrest⟩ := h.assignment hmid' halternate
  simp only [halternate']
  exact ⟨trivial, hrest⟩

/-! ### Arrow functions and assignments -/

theorem arrowBody_local : Parse.Local tail inner.arrowBody := by
  intro ts rest s hts hread
  unfold arrowBody at hread ⊢
  split at hread
  · rename_i brace after hc
    obtain ⟨hc', hafter⟩ := consume?_some tail hts hc
    simp only [hc']
    split at hread
    · cases hread
    · rename_i close rest hclose
      cases hread
      obtain ⟨enclosed, rfl, -⟩ := closing_append hclose
      simp only [closing_extend hclose]
      exact ⟨trivial, hafter.behind.tail⟩
  · rename_i hc
    simp only [consume?_none htail (by decide) hc]
    split at hread
    · cases hread
    · rename_i e rest hbody
      cases hread
      obtain ⟨hbody', hrest⟩ := h.assignment hts hbody
      simp only [hbody']
      exact ⟨trivial, hrest⟩

theorem assigned_local : Parse.Local tail inner.assigned := by
  intro ts rest e hts hread
  unfold assigned at hread ⊢
  split at hread
  · cases hread
  · rename_i target htarget
    cases hread
    obtain ⟨htarget', -⟩ := conditional_local htail h hts htarget
    obtain ⟨hs⟩ := htail
    simp only [htarget', List.nil_append, AssignOp.ofToken?, hs]
    exact ⟨trivial, trivial⟩
  · rename_i target t mid htarget
    obtain ⟨htarget', hmid⟩ := conditional_local htail h hts htarget
    simp only [htarget', List.cons_append]
    split at hread
    · cases hread
      exact ⟨rfl, hmid⟩
    · split at hread
      · cases hread
      rename_i value rest hvalue
      cases hread
      obtain ⟨hvalue', hrest⟩ := h.assignment hmid.tail hvalue
      simp only [hvalue']
      exact ⟨trivial, hrest⟩

theorem assignmentBody_local : Parse.Local tail inner.assignmentBody := by
  intro ts rest e hts hread
  cases ts with
  | nil =>
    have hnone := inner.assignmentBody_consumes _ _ _ hread
    cases hnone
  | cons t after =>
    have hhead := parameters?_local htail (closed_skipAsync hts)
    rw [← skipAsync_local htail] at hhead
    simp only [assignmentBody, List.cons_append] at hread hhead ⊢
    rw [hhead]
    split at hread
    · rename_i hnone
      rw [hnone]
      exact assigned_local htail h hts hread
    · rename_i params afterArrow hparams
      rw [hparams]
      split at hread
      · cases hread
      rename_i body rest hbody
      cases hread
      have hafter := closed_of_parameters? (closed_skipAsync hts) hparams
      obtain ⟨hbody', hrest⟩ := arrowBody_local htail h hafter hbody
      simp only [Option.map_some, Prod.map, id, hbody']
      exact ⟨trivial, hrest⟩

end Productions

/-! ### The grammar -/

/-- However deep expressions may nest, they are read in the same way in front of a semicolon. -/
theorem local_ofDepth (htail : Ended tail) (depth : Nat) : (ofDepth depth).Local tail := by
  induction depth with
  | zero =>
    have hrefused : Parse.Local tail refused.run := fun _ h => nomatch h
    exact ⟨hrefused, fun _ => hrefused, hrefused, hrefused⟩
  | succ depth ih =>
    exact ⟨assignmentBody_local htail ih, binaryBody_local htail ih, unaryBody_local htail ih,
      calleeBody_local htail ih⟩

end Inner

end BindingToggle
