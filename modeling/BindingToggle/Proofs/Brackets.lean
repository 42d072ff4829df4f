import BindingToggle.Proofs.ExpressionSpans

/-!
# Brackets

Brackets are read by many productions, and an arrow function jumps over its parameters and its block
without reading them: there only the number of open brackets is counted. What is left of the
brackets of a program is said by `Bracketed pairs`, where `pairs` says which closing bracket may
stand against which opening one.

* `Bracketed.append`, `Spells.bracketed` — tokens that make up a phrase are bracketed. As long as
  there is no arrow, each bracket stands against its own kind.
* `bracketed_of_closing`, `closing_bracketed` — the scan for a closing bracket passes over exactly
  the tokens that are bracketed, whatever the kinds of the brackets are.
* `parseProgram_bracketed` — the brackets of a program are balanced.
-/

namespace BindingToggle

/-! ## Balanced tokens -/

namespace Punct

/-- The bracket of the same kind that closes an opening one. -/
def closer? : Punct → Option Punct
  | openParen => some closeParen
  | openBracket => some closeBracket
  | openBrace => some closeBrace
  | _ => none

/-- The second bracket closes the first, which is of the same kind. -/
def OwnPair (p q : Punct) : Prop := p.closer? = some q

/-- The second bracket closes the first, whatever their kinds are. -/
def AnyPair (p q : Punct) : Prop := p.isOpening = true ∧ q.isClosing = true

theorem OwnPair.anyPair {p q : Punct} (h : p.OwnPair q) : p.AnyPair q := by
  cases p <;> cases h <;> exact ⟨rfl, rfl⟩

theorem isOpening_eq_false {p : Punct} (h : p.isClosing = true) : p.isOpening = false := by
  revert h
  cases p <;> decide

end Punct

/-- Whether a token is a bracket. -/
def Token.isBracket (t : Token) : Bool :=
  match t.kind with
  | .punct p => p.isOpening || p.isClosing
  | _ => false

/-- The brackets among the tokens are balanced, and those that stand against each other are
`pairs`. -/
inductive Bracketed (pairs : Punct → Punct → Prop) : List Token → Prop
  | nil : Bracketed pairs []
  | other {t : Token} {ts : List Token} (ht : t.isBracket = false) (hts : Bracketed pairs ts) :
      Bracketed pairs (t :: ts)
  | pair {first last : Token} {p q : Punct} {inner rest : List Token}
      (hf : first.kind = .punct p) (hl : last.kind = .punct q) (hpq : pairs p q)
      (hinner : Bracketed pairs inner) (hrest : Bracketed pairs rest) :
      Bracketed pairs (first :: (inner ++ last :: rest))

namespace Bracketed

variable {pairs : Punct → Punct → Prop} {ts us : List Token}

theorem append (hs : Bracketed pairs ts) (hu : Bracketed pairs us) :
    Bracketed pairs (ts ++ us) := by
  induction hs with
  | nil => exact hu
  | other ht _ ih => exact .other ht ih
  | pair hf hl hpq hinner _ _ ih =>
    rw [List.cons_append, List.append_assoc, List.cons_append]
    exact .pair hf hl hpq hinner ih

theorem single {t : Token} (ht : t.isBracket = false) : Bracketed pairs [t] := .other ht .nil

theorem enclose {first last : Token} {p q : Punct} (hf : first.kind = .punct p)
    (hl : last.kind = .punct q) (hpq : pairs p q) (hs : Bracketed pairs ts) :
    Bracketed pairs (first :: (ts ++ [last])) := .pair hf hl hpq hs .nil

/-- A token that is no bracket, between tokens that are bracketed. -/
theorem between {t : Token} (hs : Bracketed pairs ts) (ht : t.isBracket = false)
    (hu : Bracketed pairs us) : Bracketed pairs (ts ++ t :: us) := hs.append (.other ht hu)

theorem mono {pairs' : Punct → Punct → Prop} (hpairs : ∀ p q, pairs p q → pairs' p q)
    (hs : Bracketed pairs ts) : Bracketed pairs' ts := by
  induction hs with
  | nil => exact .nil
  | other ht _ ih => exact .other ht ih
  | pair hf hl hpq _ _ ihinner ihrest => exact .pair hf hl (hpairs _ _ hpq) ihinner ihrest

end Bracketed

/-! ## Tokens that are no brackets -/

section Tokens

variable {t : Token}

theorem isBracket_of_punct {p : Punct} (ht : t.kind = .punct p) (ho : p.isOpening = false)
    (hc : p.isClosing = false) : t.isBracket = false := by
  simp [Token.isBracket, ht, ho, hc]

theorem isBracket_of_ident (ht : t.kind = .ident) : t.isBracket = false := by
  simp [Token.isBracket, ht]

theorem isBracket_of_isWord {word : String} (ht : t.isWord word = true) : t.isBracket = false := by
  simp only [Token.isWord, Bool.and_eq_true, beq_iff_eq] at ht
  exact isBracket_of_ident ht.1

theorem isBracket_of_isKey (ht : Inner.isKey t = true) : t.isBracket = false := by
  cases hk : t.kind with
  | punct p => simp [Inner.isKey, hk] at ht
  | _ => simp [Token.isBracket, hk]

theorem exists_of_isBracket (ht : t.isBracket = true) :
    ∃ p, t.kind = .punct p ∧ (p.isOpening = true ∨ p.isClosing = true) := by
  cases hk : t.kind with
  | punct p =>
    refine ⟨p, rfl, ?_⟩
    simpa [Token.isBracket, hk] using ht
  | _ => simp [Token.isBracket, hk] at ht

/-- No operator is written as a bracket. -/
theorem isBracket_of_operator
    (ht : (UnaryOp.ofToken? t).isSome ∨ (UpdateOp.ofToken? t).isSome ∨
      (BinaryOp.ofToken? t).isSome ∨ (AssignOp.ofToken? t).isSome) : t.isBracket = false := by
  rw [Bool.eq_false_iff]
  intro hbracket
  obtain ⟨p, hk, hp⟩ := exists_of_isBracket hbracket
  have hcases : p = .openParen ∨ p = .openBracket ∨ p = .openBrace ∨ p = .closeParen ∨
      p = .closeBracket ∨ p = .closeBrace := by
    revert hp
    cases p <;> decide
  rcases hcases with rfl | rfl | rfl | rfl | rfl | rfl <;>
    simp [UnaryOp.ofToken?, UpdateOp.ofToken?, BinaryOp.ofToken?, BinaryOp.ofPunct?,
      AssignOp.ofToken?, hk] at ht

end Tokens

/-! ## The scan for a closing bracket -/

namespace Inner

variable {t : Token} {ts : List Token} {p : Punct}

theorem closing_other (ht : t.isBracket = false) (depth : Nat) :
    closing depth (t :: ts) = closing depth ts := by
  cases hk : t.kind with
  | punct p =>
    simp only [Token.isBracket, hk, Bool.or_eq_false_iff] at ht
    simp [closing, hk, ht]
  | _ => simp [closing, hk]

theorem closing_open (ht : t.kind = .punct p) (hp : p.isOpening = true) (depth : Nat) :
    closing depth (t :: ts) = closing (depth + 1) ts := by
  simp [closing, ht, hp]

theorem closing_last (ht : t.kind = .punct p) (hp : p.isClosing = true) :
    closing 0 (t :: ts) = some (t, ts) := by
  simp [closing, ht, hp, Punct.isOpening_eq_false hp]

theorem closing_close (ht : t.kind = .punct p) (hp : p.isClosing = true) (depth : Nat) :
    closing (depth + 1) (t :: ts) = closing depth ts := by
  simp [closing, ht, hp, Punct.isOpening_eq_false hp]

/-- Tokens that are bracketed are passed over. -/
theorem closing_bracketed (h : Bracketed Punct.AnyPair ts) (depth : Nat) (rest : List Token) :
    closing depth (ts ++ rest) = closing depth rest := by
  induction h generalizing depth rest with
  | nil => rfl
  | other ht _ ih => rw [List.cons_append, closing_other ht, ih]
  | pair hf hl hpq _ _ ihinner ihrest =>
    rw [List.cons_append, List.append_assoc, List.cons_append, closing_open hf hpq.1, ihinner,
      closing_close hl hpq.2, ihrest]

/-- The scan finds a closing bracket behind tokens that are bracketed. From there it goes on one
bracket less deep, or has come to its end. -/
theorem bracketed_of_closing {depth : Nat} {close : Token} {rest : List Token}
    (h : closing depth ts = some (close, rest)) :
    ∃ inner last behind q, ts = inner ++ last :: behind ∧ Bracketed Punct.AnyPair inner ∧
      last.kind = .punct q ∧ q.isClosing = true ∧
      closing depth (last :: behind) = some (close, rest) := by
  induction hn : ts.length using Nat.strongRecOn generalizing depth ts with
  | ind n ih =>
    subst hn
    cases ts with
    | nil => cases h
    | cons t ts =>
      cases ht : t.isBracket with
      | false =>
        rw [closing_other ht] at h
        obtain ⟨inner, last, behind, q, rfl, hinner, hlast, hq, hgo⟩ := ih _ (by simp) h rfl
        exact ⟨t :: inner, last, behind, q, rfl, .other ht hinner, hlast, hq, hgo⟩
      | true =>
        obtain ⟨p, hp, hopen | hclose⟩ := exists_of_isBracket ht
        · -- the first closing bracket belongs to this one, and the search goes on behind it
          rw [closing_open hp hopen] at h
          obtain ⟨inner, last, behind, q, rfl, hinner, hlast, hq, hgo⟩ := ih _ (by simp) h rfl
          rw [closing_close hlast hq] at hgo
          obtain ⟨inner', last', behind', q', rfl, hinner', hlast', hq', hgo'⟩ :=
            ih _ (by simp; omega) hgo rfl
          refine ⟨t :: (inner ++ last :: inner'), last', behind', q', by simp, ?_, hlast', hq',
            hgo'⟩
          exact .pair hp hlast ⟨hopen, hq⟩ hinner hinner'
        · exact ⟨[], t, ts, p, rfl, .nil, hp, hclose, h⟩

end Inner

/-- What an opening bracket and the one that closes it enclose is bracketed, whatever stands
between them. -/
theorem Enclosed.bracketed {p : Punct} {used : List Token} {s : Span} (h : Enclosed p used s)
    (hp : p.isOpening = true) : Bracketed Punct.AnyPair used := by
  cases h with
  | @intro first last inner hf hl =>
    obtain ⟨inner', last', behind, q, heq, hinner, hlast, hq, hgo⟩ := Inner.bracketed_of_closing hl
    rw [Inner.closing_last hlast hq] at hgo
    cases hgo
    obtain ⟨rfl, -⟩ := List.append_inj' heq rfl
    exact .enclose hf hlast ⟨hp, hq⟩ hinner

/-! ## The brackets of a phrase -/

/-- Where there is an arrow, brackets may stand against those of other kinds. -/
def Lenient (pairs : Punct → Punct → Prop) (ts : List Token) : Prop :=
  ∀ t ∈ ts, t.kind = .punct .arrow → ∀ p q, Punct.AnyPair p q → pairs p q

section Phrases

variable {pairs : Punct → Punct → Prop} {used : List Token}

theorem SpellsName.bracketed {n : Name} (h : SpellsName used n) : Bracketed pairs used := by
  cases h with
  | word ht => exact .single (isBracket_of_ident ht)
  | hash hh ht => exact .other (isBracket_of_punct hh rfl rfl) (.single (isBracket_of_ident ht))

theorem SpellsMark.bracketed {isOptional : Bool} (h : SpellsMark isOptional used) :
    Bracketed pairs used := by
  cases h with
  | none => exact .nil
  | some ht => exact .single (isBracket_of_punct ht rfl rfl)

theorem SpellsHead.bracketed {start : Nat} {s : Span} (h : SpellsHead used start s) :
    Bracketed Punct.AnyPair used := by
  have hparams : ∀ {used s}, SpellsParams used s → Bracketed Punct.AnyPair used := by
    intro used s h
    cases h with
    | word ht => exact .single (isBracket_of_ident ht)
    | list h => exact h.bracketed rfl
  cases h with
  | plain h => exact hparams h
  | async ht h => exact .other (isBracket_of_isWord ht) (hparams h)

theorem isBracket_of_propertyMark {t : Token} {isOptional : Bool}
    (ht : t.kind = .punct (propertyMark isOptional)) : t.isBracket = false := by
  cases isOptional <;> exact isBracket_of_punct ht rfl rfl

/-- **The tokens of a phrase are bracketed**, each bracket against its own kind, unless there is an
arrow among them. -/
theorem Spells.bracketed {phrase : Phrase} (h : Spells used phrase)
    (hown : ∀ p q, Punct.OwnPair p q → pairs p q) (harrow : Lenient pairs used) :
    Bracketed pairs used := by
  induction h
  all_goals simp only [Lenient, List.forall_mem_append, List.forall_mem_cons] at harrow
  case string ht | number ht | template ht => exact .single (by simp [Token.isBracket, ht])
  case identifier ht | keyword ht => exact .single (isBracket_of_ident ht)
  case paren hf _ hl ih | array hf _ hl ih | object hf _ hl ih =>
    exact .enclose hf hl (hown _ _ rfl) (ih harrow.2.1)
  case new ht _ ih => exact .other (isBracket_of_isWord ht) (ih harrow.2)
  case newWith ht _ hf _ hl ihe ihes =>
    have hlist := Bracketed.enclose hf hl (hown _ _ rfl) (ihes harrow.2.2.2.1)
    exact .other (isBracket_of_isWord ht) ((ihe harrow.2.1).append hlist)
  case member _ hm hn ih => exact (ih harrow.1).between (isBracket_of_propertyMark hm) hn.bracketed
  case index _ hm hf _ hl ihe ihi =>
    have hlist := Bracketed.enclose hf hl (hown _ _ rfl) (ihi harrow.2.2.2.1)
    exact (ihe harrow.1).append (hm.bracketed.append hlist)
  case call _ hm hf _ hl ihe ihes =>
    have hlist := Bracketed.enclose hf hl (hown _ _ rfl) (ihes harrow.2.2.2.1)
    exact (ihe harrow.1).append (hm.bracketed.append hlist)
  case taggedTemplate _ ht ih =>
    exact (ih harrow.1).append (.single (by simp [Token.isBracket, ht]))
  case unary ht _ ih | stepBefore ht _ ih =>
    exact .other (isBracket_of_operator (by simp [ht])) (ih harrow.2)
  case stepAfter _ ht ih =>
    exact (ih harrow.1).append (.single (isBracket_of_operator (by simp [ht])))
  case binary _ ht _ ihe ihf | assign _ ht _ ihe ihf =>
    exact (ihe harrow.1).between (isBracket_of_operator (by simp [ht])) (ihf harrow.2.2)
  case conditional _ hq _ hc _ ihe ihf ihg =>
    have hbranches := (ihf harrow.2.2.1).between (isBracket_of_punct hc rfl rfl)
      (ihg harrow.2.2.2.2)
    exact (ihe harrow.1).between (isBracket_of_punct hq rfl rfl) hbranches
  case sequence _ _ ihe ihfs => exact (ihe harrow.1).append (ihfs harrow.2)
  case spread hd _ ih => exact .other (isBracket_of_punct hd rfl rfl) (ih harrow.2)
  case arrow hh hm _ ih =>
    have hhead := hh.bracketed.mono (harrow.2.1 hm)
    exact hhead.between (isBracket_of_punct hm rfl rfl) (ih harrow.2.2)
  case arrowBlock hh hm hb =>
    have hhead := hh.bracketed.mono (harrow.2.1 hm)
    have hblock := (hb.bracketed rfl).mono (harrow.2.1 hm)
    exact hhead.between (isBracket_of_punct hm rfl rfl) hblock
  case moreNil | itemsNil => exact .nil
  case moreCons hc _ _ ihe ihes =>
    exact .other (isBracket_of_punct hc rfl rfl) ((ihe harrow.2.1).append (ihes harrow.2.2))
  case item _ ih | itemsLast _ ih => exact ih harrow
  case keyed hk hc _ ih =>
    exact .other (isBracket_of_isKey hk) (.other (isBracket_of_punct hc rfl rfl) (ih harrow.2.2))
  case computed hf _ hl hc _ ihk ihe =>
    exact .pair hf hl (hown _ _ rfl) (ihk harrow.2.1)
      (.other (isBracket_of_punct hc rfl rfl) (ihe harrow.2.2.2.2))
  case hole hc _ ih => exact .other (isBracket_of_punct hc rfl rfl) (ih harrow.2)
  case itemsCons _ hc _ ihe ihes =>
    exact (ihe harrow.1).between (isBracket_of_punct hc rfl rfl) (ihes harrow.2.2)

/-- The tokens of a program are bracketed as those of its expressions are. -/
theorem SpellsProgram.bracketed {ss : List Statement} (h : SpellsProgram used ss)
    (hown : ∀ p q, Punct.OwnPair p q → pairs p q) (harrow : Lenient pairs used) :
    Bracketed pairs used := by
  induction h with
  | nil => exact .nil
  | empty ht _ ih =>
    have hrest := (List.forall_mem_cons.1 harrow).2
    exact .other (isBracket_of_punct ht rfl rfl) (ih hrest)
  | last he => exact he.bracketed hown harrow
  | @ended first t used ts e ss he ht _ ih =>
    have hsplit : Lenient pairs (first :: used ++ t :: ts) := harrow
    obtain ⟨hexpr, hrest⟩ := List.forall_mem_append.1 hsplit
    have hbehind := (List.forall_mem_cons.1 hrest).2
    exact (he.bracketed hown hexpr).between (isBracket_of_punct ht rfl rfl) (ih hbehind)
  | @broken first t used ts e ss he _ _ ih =>
    have hsplit : Lenient pairs (first :: used ++ t :: ts) := harrow
    obtain ⟨hexpr, hrest⟩ := List.forall_mem_append.1 hsplit
    exact (he.bracketed hown hexpr).append (ih hrest)

end Phrases

/-- **The brackets of a program are balanced**, and where there is no arrow, every opening bracket
is closed by the one of its own kind. -/
theorem parseProgram_bracketed {source : Text} {ss : List Statement}
    (h : parseProgram source = .ok ss) :
    ∃ stream, lex source = .ok stream ∧ Bracketed Punct.AnyPair stream.tokens ∧
      ((∀ t ∈ stream.tokens, t.kind ≠ .punct .arrow) →
        Bracketed Punct.OwnPair stream.tokens) := by
  obtain ⟨stream, hlex, -, hspells⟩ := tiles_of_parseProgram h
  refine ⟨stream, hlex, ?_, ?_⟩
  · exact hspells.bracketed (fun _ _ hpair => hpair.anyPair) fun _ _ _ _ _ hpair => hpair
  · intro hnone
    exact hspells.bracketed (fun _ _ hpair => hpair) fun t ht harrow => absurd harrow (hnone t ht)

/-- Brackets of all three kinds inside of each other, and no arrow. -/
theorem parseProgram_bracketed_nested :
    ∃ ss stream, parseProgram "f(a[b], \x7bc: (d)\x7d)".toList = .ok ss ∧
      lex "f(a[b], \x7bc: (d)\x7d)".toList = .ok stream ∧
      (∀ t ∈ stream.tokens, t.kind ≠ .punct .arrow) ∧ Bracketed Punct.OwnPair stream.tokens := by
  have hread : (parseProgram "f(a[b], \x7bc: (d)\x7d)".toList).toOption.isSome = true := by
    decide +kernel
  have hkinds : (lex "f(a[b], \x7bc: (d)\x7d)".toList).toOption.map
      (·.tokens.all fun t => t.kind != .punct .arrow) = some true := by
    decide +kernel
  cases hparse : parseProgram "f(a[b], \x7bc: (d)\x7d)".toList with
  | error e =>
    rw [hparse] at hread
    cases hread
  | ok ss =>
    obtain ⟨stream, hlex, -, hown⟩ := parseProgram_bracketed hparse
    rw [hlex] at hkinds
    have hnone : ∀ t ∈ stream.tokens, t.kind ≠ .punct .arrow := by
      simpa using Option.some.inj hkinds
    exact ⟨ss, stream, rfl, hlex, hnone, hown hnone⟩

end BindingToggle
