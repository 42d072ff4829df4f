import BindingToggle.Proofs.Spelling

/-!
# The tokens that errors blame

A production that fails reports the token in front of which it stands, or the end. It has come there
from the tokens that it was given, so the token that it blames is one of those.

* `ParseError.Blames ts` — an error names one of the tokens `ts`, the end of them, or the depth.
* `Parse.Blames` — this holds of every error of a parser. `ParseError.Blames.behind` hands it on
  from the tokens that another parser has left, which are some of those that it was given.
* `Inner.Accountable` — this holds of the parsers one level further in. It is handed on by every
  production, so it holds at every depth (`accountable_ofDepth`).
* `statements_blames` — the statement for programs.
-/

namespace BindingToggle

/-- The error names a token of the list by its text and its place, or it names none. -/
def ParseError.Blames (ts : List Token) : ParseError → Prop
  | unexpectedToken text offset => ∃ t ∈ ts, t.text = text ∧ t.span.start = offset
  | unexpectedEnd | tooDeep _ => True
  | unterminatedString _ | unterminatedTemplate _ | unterminatedComment _ => False
  | unexpectedChar .. => False

namespace Parse

/-- Whatever error the parser gives blames one of the tokens. -/
def Blames {α : Type} (ts : List Token) (p : Parse α) : Prop := ∀ e, p = .error e → e.Blames ts

end Parse

namespace ParseError.Blames

open Parse

variable {e : ParseError} {ts us rest : List Token}

theorem mono (h : e.Blames us) (hsuffix : us <:+ ts) : e.Blames ts := by
  cases e with
  | unexpectedToken text offset =>
    obtain ⟨t, ht, hnamed⟩ := h
    exact ⟨t, hsuffix.subset ht, hnamed⟩
  | _ => exact h

theorem tail {t : Token} (h : e.Blames ts) : e.Blames (t :: ts) :=
  h.mono (List.suffix_cons t ts)

/-- What is blamed behind something that has been read is one of all tokens. -/
theorem behind (h : e.Blames rest) {α : Type} {a : α} {spells : List Token → α → Prop}
    {p : Parse α} (hreads : Reads spells ts p) (hp : p = .ok (a, rest)) : e.Blames ts := by
  obtain ⟨used, rfl, -⟩ := hreads a rest hp
  exact h.mono (List.suffix_append used rest)

theorem consumed (h : e.Blames rest) {p : Punct} {t : Token}
    (hc : consume? p ts = some (t, rest)) : e.Blames ts := by
  obtain ⟨rfl, -⟩ := cons_of_consume? hc
  exact h.tail

theorem expected (h : e.Blames rest) {p : Punct} {t : Token}
    (hp : expect p ts = .ok (t, rest)) : e.Blames ts := by
  obtain ⟨rfl, -⟩ := cons_of_expect hp
  exact h.tail

end ParseError.Blames

/-! ## Tokens and lists -/

namespace Parse

theorem blames_unexpected (ts : List Token) : (unexpected ts).Blames ts := by
  cases ts with
  | nil => trivial
  | cons t ts => exact ⟨t, List.mem_cons_self, rfl, rfl⟩

theorem expect_blames (p : Punct) (ts : List Token) : Blames ts (expect p ts) := by
  intro e h
  unfold expect at h
  split at h
  · cases h
  · cases h
    exact blames_unexpected ts

end Parse

open Parse

theorem Production.items_blames {item : Production} (hitem : ∀ ts, Blames ts (item.run ts))
    (hreads : ∀ ts, ReadsItem ts (item.run ts)) (close : Punct) (holes : Bool) (ts : List Token) :
    Blames ts (item.items close holes ts) := by
  intro e h
  fun_induction item.items close holes ts with
  | case1 => cases h
  | case2 ts hc hole after hh ih =>
    cases holes with
    | false => cases hh
    | true => exact (ih h).consumed hh
  | case3 ts hc hh e' hi =>
    cases h
    exact hitem ts _ hi
  | case4 ts hc hh expr after hi hcomma e' he =>
    cases h
    exact (expect_blames close after _ he).behind (hreads ts) hi
  | case5 => cases h
  | case6 ts hc hh expr after hi comma afterComma hcomma e' hr ih =>
    cases h
    exact ((ih hr).consumed hcomma).behind (hreads ts) hi
  | case7 => cases h

namespace Inner

theorem propertyName_blames (ts : List Token) : Blames ts (propertyName ts) := by
  intro e h
  unfold propertyName at h
  split at h
  · cases h
    trivial
  · split at h
    · cases h
    · cases h
      exact blames_unexpected _
  · split at h
    · cases h
    · split at h
      · cases h
      · cases h
        exact blames_unexpected _

/-- The errors of the parsers one level further in blame tokens that these were given, and what they
leave are the last of those. -/
structure Accountable (inner : Inner) : Prop where
  spelled : inner.Spelled
  assignment : ∀ ts, Blames ts (inner.assignment.run ts)
  binary : ∀ floor ts, Blames ts ((inner.binary floor).run ts)
  unary : ∀ ts, Blames ts (inner.unary.run ts)
  callee : ∀ ts, Blames ts (inner.callee.run ts)

variable {inner : Inner} (h : inner.Accountable)

include h

theorem sequenceRest_blames (ts : List Token) : Blames ts (inner.sequenceRest ts) := by
  intro e hp
  fun_induction inner.sequenceRest ts with
  | case1 => cases hp
  | case2 ts comma after hc e' ha =>
    cases hp
    exact (h.assignment after _ ha).consumed hc
  | case3 ts comma after hc expr rest ha e' hr ih =>
    cases hp
    exact ((ih hr).behind (h.spelled.assignment after) ha).consumed hc
  | case4 => cases hp

theorem expression_blames (ts : List Token) : Blames ts (inner.expression ts) := by
  intro e hp
  unfold expression at hp
  split at hp
  · rename_i ha
    cases hp
    exact h.assignment ts _ ha
  · rename_i first mid hf
    split at hp
    · rename_i hs
      cases hp
      exact (sequenceRest_blames h mid _ hs).behind (h.spelled.assignment ts) hf
    · cases hp
    · cases hp

theorem element_blames (ts : List Token) : Blames ts (inner.element ts) := by
  intro e hp
  unfold element at hp
  split at hp
  · exact h.assignment ts _ hp
  · rename_i dots after hc
    split at hp
    · rename_i ha
      cases hp
      exact (h.assignment after _ ha).consumed hc
    · cases hp

theorem propertyValue_blames (key : Token) (ts : List Token) :
    Blames ts (inner.propertyValue key ts) := by
  intro e hp
  unfold propertyValue at hp
  split at hp
  · rename_i colon after hc
    exact (h.assignment after _ hp).consumed hc
  · split at hp
    · cases hp
    · cases hp
      exact blames_unexpected ts

theorem entry_blames (ts : List Token) : Blames ts (inner.entry ts) := by
  intro e hp
  unfold entry at hp
  split at hp
  · cases hp
    trivial
  · rename_i key after
    split at hp
    · exact element_blames h _ _ hp
    split at hp
    · exact (propertyValue_blames h key after _ hp).tail
    split at hp
    · split at hp
      · rename_i ha
        cases hp
        exact (h.assignment after _ ha).tail
      · rename_i name mid hn
        split at hp
        · rename_i hb
          cases hp
          exact ((expect_blames .closeBracket mid _ hb).behind (h.spelled.assignment after) hn).tail
        · rename_i bracket rest hb
          have hvalue := propertyValue_blames h key rest _ hp
          exact ((hvalue.expected hb).behind (h.spelled.assignment after) hn).tail
    · cases hp
      exact blames_unexpected _

theorem elements_blames (close : Punct) (holes : Bool) (ts : List Token) :
    Blames ts (inner.elements.items close holes ts) :=
  Production.items_blames (element_blames h)
    (fun ts => ReadsExpr.item (element_spells h.spelled ts)) close holes ts

theorem entries_blames (close : Punct) (holes : Bool) (ts : List Token) :
    Blames ts (inner.entries.items close holes ts) :=
  Production.items_blames (entry_blames h) (entry_spells h.spelled) close holes ts

/-! ## Primary expressions -/

theorem construction_blames (start : Nat) (ts : List Token) :
    Blames ts (inner.construction start ts) := by
  intro e hp
  unfold construction at hp
  split at hp
  · rename_i hcallee
    cases hp
    exact h.callee ts _ hcallee
  · rename_i callee rest hcallee
    split at hp
    · cases hp
    · rename_i first after hopen
      split at hp
      · rename_i hi
        cases hp
        have harguments := elements_blames h .closeParen false after _ hi
        exact (harguments.consumed hopen).behind (h.spelled.callee ts) hcallee
      · cases hp

theorem primary_blames (ts : List Token) : Blames ts (inner.primary ts) := by
  intro e hp
  unfold primary at hp
  split at hp
  · cases hp
    trivial
  · rename_i t after
    split at hp
    · cases hp
    · cases hp
    · cases hp
    · split at hp
      · cases hp
        exact blames_unexpected _
      · split at hp
        · exact (construction_blames h _ after _ hp).tail
        · cases hp
    · split at hp
      · rename_i hi
        cases hp
        exact (expression_blames h after _ hi).tail
      · rename_i inside rest hi
        split at hp
        · rename_i hl
          cases hp
          have hclose := expect_blames .closeParen rest _ hl
          exact (hclose.behind (expression_spells_of h.spelled after) hi).tail
        · cases hp
    · split at hp
      · rename_i hi
        cases hp
        exact (elements_blames h .closeBracket true after _ hi).tail
      · cases hp
    · split at hp
      · rename_i hi
        cases hp
        exact (entries_blames h .closeBrace false after _ hi).tail
      · cases hp
    · cases hp
      exact blames_unexpected _

/-! ## Suffixes -/

omit h in
theorem property_blames (f : Expr) (isOptional : Bool) (ts : List Token) :
    Blames ts (property f isOptional ts) := by
  intro e hp
  unfold property at hp
  split at hp
  · rename_i hn
    cases hp
    exact propertyName_blames ts _ hn
  · cases hp

theorem subscript_blames (f : Expr) (isOptional : Bool) (ts : List Token) :
    Blames ts (inner.subscript f isOptional ts) := by
  intro e hp
  unfold subscript at hp
  split at hp
  · rename_i hi
    cases hp
    exact expression_blames h ts _ hi
  · rename_i index rest hi
    split at hp
    · rename_i hl
      cases hp
      exact (expect_blames .closeBracket rest _ hl).behind (expression_spells_of h.spelled ts) hi
    · cases hp

theorem application_blames (f : Expr) (isOptional : Bool) (ts : List Token) :
    Blames ts (inner.application f isOptional ts) := by
  intro e hp
  unfold application at hp
  split at hp
  · rename_i hi
    cases hp
    exact elements_blames h .closeParen false ts _ hi
  · cases hp

theorem optionalSuffix_blames (f : Expr) (ts : List Token) :
    Blames ts (inner.optionalSuffix f ts) := by
  intro e hp
  unfold optionalSuffix at hp
  split at hp
  · rename_i first after hc
    exact (application_blames h f true after _ hp).consumed hc
  · split at hp
    · rename_i first after hc
      exact (subscript_blames h f true after _ hp).consumed hc
    · exact property_blames f true ts _ hp

theorem suffix?_blames {f : Expr} {t : Token} {ts : List Token} {e : ParseError}
    (hp : inner.suffix? f t ts = some (.error e)) : e.Blames ts := by
  unfold suffix? at hp
  split at hp
  · exact property_blames f false ts _ (Option.some.inj hp)
  · exact optionalSuffix_blames h f ts _ (Option.some.inj hp)
  · exact subscript_blames h f false ts _ (Option.some.inj hp)
  · exact application_blames h f false ts _ (Option.some.inj hp)
  · cases hp
  · cases hp

theorem suffixes_blames (f : Expr) (ts : List Token) : Blames ts (inner.suffixes f ts) := by
  intro e hp
  fun_induction inner.suffixes f ts with
  | case1 => cases hp
  | case2 => cases hp
  | case3 f t after e' hs =>
    cases hp
    exact (suffix?_blames h hs).tail
  | case4 f t after g rest hs ih =>
    obtain ⟨used, hused, -⟩ := suffix?_spells h.spelled hs
    exact (ih hp).mono ⟨used, hused.symm⟩

omit h in
theorem properties_blames (f : Expr) (ts : List Token) : Blames ts (properties f ts) := by
  intro e hp
  fun_induction properties f ts with
  | case1 => cases hp
  | case2 f ts dot after hc e' hproperty =>
    cases hp
    exact (property_blames f false after _ hproperty).consumed hc
  | case3 f ts dot after hc g rest hproperty ih =>
    exact ((ih hp).behind (property_spells f false after) hproperty).consumed hc

theorem postfixed_blames (ts : List Token) : Blames ts (inner.postfixed ts) := by
  intro e hp
  unfold postfixed at hp
  split at hp
  · rename_i hprimary
    cases hp
    exact primary_blames h ts _ hprimary
  · rename_i f rest hprimary
    exact (suffixes_blames h f rest _ hp).behind (primary_spells h.spelled ts) hprimary

theorem calleeBody_blames (ts : List Token) : Blames ts (inner.calleeBody ts) := by
  intro e hp
  unfold calleeBody at hp
  split at hp
  · rename_i hprimary
    cases hp
    exact primary_blames h ts _ hprimary
  · rename_i f rest hprimary
    exact (properties_blames f rest _ hp).behind (primary_spells h.spelled ts) hprimary

/-! ## Operators -/

theorem stepped_blames (ts : List Token) : Blames ts (inner.stepped ts) := by
  intro e hp
  unfold stepped at hp
  split at hp
  · rename_i hpost
    cases hp
    exact postfixed_blames h ts _ hpost
  · cases hp
  · split at hp
    · cases hp
    · split at hp <;> cases hp

theorem unaryBody_blames (ts : List Token) : Blames ts (inner.unaryBody ts) := by
  intro e hp
  unfold unaryBody at hp
  split at hp
  · cases hp
    trivial
  · rename_i t after
    split at hp
    · split at hp
      · rename_i hu
        cases hp
        exact (h.unary after _ hu).tail
      · cases hp
    · split at hp
      · split at hp
        · rename_i hu
          cases hp
          exact (h.unary after _ hu).tail
        · cases hp
      · exact stepped_blames h _ _ hp

theorem operators_blames (floor : Nat) (left : Expr) (ts : List Token) :
    Blames ts (inner.operators floor left ts) := by
  intro e hp
  fun_induction inner.operators floor left ts with
  | case1 => cases hp
  | case2 => cases hp
  | case3 => cases hp
  | case4 left t after op hop hf e' hr =>
    cases hp
    exact (h.binary op.rightFloor after _ hr).tail
  | case5 left t after op hop hf right rest hr ih =>
    exact ((ih hp).behind (h.spelled.binary op.rightFloor after) hr).tail

theorem binaryBody_blames (floor : Nat) (ts : List Token) :
    Blames ts (inner.binaryBody floor ts) := by
  intro e hp
  unfold binaryBody at hp
  split at hp
  · rename_i hu
    cases hp
    exact unaryBody_blames h ts _ hu
  · rename_i f rest hu
    exact (operators_blames h floor f rest _ hp).behind (unaryBody_spells h.spelled ts) hu

theorem conditional_blames (ts : List Token) : Blames ts (inner.conditional ts) := by
  intro e hp
  unfold conditional at hp
  split at hp
  · rename_i ht
    cases hp
    exact h.binary 0 ts _ ht
  · rename_i test afterTest ht
    split at hp
    · cases hp
    · rename_i question afterMark hq
      -- what is blamed behind the question mark is one of all tokens
      have hmark : ∀ {e : ParseError}, e.Blames afterMark → e.Blames ts :=
        fun hblames => (hblames.consumed hq).behind (h.spelled.binary 0 ts) ht
      split at hp
      · rename_i hy
        cases hp
        exact hmark (h.assignment afterMark _ hy)
      · rename_i yes afterYes hy
        split at hp
        · rename_i hc
          cases hp
          apply hmark
          exact (expect_blames .colon afterYes _ hc).behind (h.spelled.assignment afterMark) hy
        · rename_i colon afterColon hc
          split at hp
          · rename_i hn
            cases hp
            apply hmark
            have hno := h.assignment afterColon _ hn
            exact (hno.expected hc).behind (h.spelled.assignment afterMark) hy
          · cases hp

theorem assigned_blames (ts : List Token) : Blames ts (inner.assigned ts) := by
  intro e hp
  unfold assigned at hp
  split at hp
  · rename_i hc
    cases hp
    exact conditional_blames h ts _ hc
  · cases hp
  · rename_i target t after hc
    split at hp
    · cases hp
    · split at hp
      · rename_i hv
        cases hp
        exact (h.assignment after _ hv).tail.behind (conditional_spells h.spelled ts) hc
      · cases hp

/-! ## Arrow functions -/

theorem arrowBody_blames (ts : List Token) : Blames ts (inner.arrowBody ts) := by
  intro e hp
  unfold arrowBody at hp
  split at hp
  · split at hp
    · cases hp
      trivial
    · cases hp
  · split at hp
    · rename_i ha
      cases hp
      exact h.assignment ts _ ha
    · cases hp

theorem assignmentBody_blames (ts : List Token) : Blames ts (inner.assignmentBody ts) := by
  intro e hp
  unfold assignmentBody at hp
  split at hp
  · exact assigned_blames h _ _ hp
  · rename_i t us
    split at hp
    · exact assigned_blames h _ _ hp
    · rename_i params after hparams
      split at hp
      · rename_i hb
        cases hp
        obtain ⟨head, mark, hhead, -, -⟩ := head_spells hparams
        rw [hhead]
        exact (arrowBody_blames h after _ hb).tail.mono (List.suffix_append head _)
      · cases hp

omit h in
/-- The parsers of every depth are accountable. -/
theorem accountable_ofDepth (depth : Nat) : (ofDepth depth).Accountable := by
  induction depth with
  | zero =>
    -- at depth zero every parser blames the depth
    have hrefused : ∀ ts, Blames ts (refused.run ts) := by
      intro ts e hp
      cases hp
      trivial
    exact ⟨spelled_ofDepth 0, hrefused, fun _ => hrefused, hrefused, hrefused⟩
  | succ depth ih =>
    exact ⟨spelled_ofDepth (depth + 1), assignmentBody_blames ih, binaryBody_blames ih,
      unaryBody_blames ih, calleeBody_blames ih⟩

end Inner

/-! ## Programs -/

theorem error_of_map {α β : Type} {r : Except ParseError α} {f : α → β} {e : ParseError}
    (h : r.map f = .error e) : r = .error e := by
  cases r with
  | error e' =>
    cases h
    rfl
  | ok a => cases h

/-- **The errors of a program blame its tokens.** -/
theorem statements_blames {ts : List Token} {e : ParseError} (h : statements ts = .error e) :
    e.Blames ts := by
  have haccountable := Inner.accountable_ofDepth maxDepth
  fun_induction statements ts with
  | case1 => cases h
  | case2 first others hs ih => exact (ih (error_of_map h)).tail
  | case3 first others hs e' he =>
    cases h
    exact Inner.expression_blames haccountable _ _ he
  | case4 => cases h
  | case5 first others hs expr t rest he ht ih =>
    have hrest := ih (error_of_map h)
    exact hrest.tail.behind (Inner.expression_spells _) he
  | case6 first others hs expr t rest he ht hline ih =>
    have hrest := ih (error_of_map h)
    exact hrest.behind (Inner.expression_spells _) he
  | case7 first others hs expr t rest he ht hline =>
    cases h
    exact (blames_unexpected _).behind (Inner.expression_spells _) he

end BindingToggle
