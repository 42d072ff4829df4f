import BindingToggle.Proofs.Layout
import BindingToggle.Proofs.Precedence
import BindingToggle.Proofs.Seams

/-!
# Long sources that do not nest

A source can be long without any expression standing inside of another: names with an operator, a
point, a comma or a semicolon between each two of them, an array of names, a name that is called
again and again. All of these are read, however long they are.

* `Chain.text` — the source of a given length.
* `Lexer.Reads` — a text is split into tokens of a given form, wherever it stands. Words and
  punctuators are put in front of such a text one by one (`Reads.name`, `Reads.mark`,
  `Reads.joint`), so chains of any length are split into pairs of tokens (`reads_joined`,
  `reads_calls`).
* `Links` — tokens that come in pairs. The loops of the parsers take in one pair after the other
  (`operators_links`, `suffixes_points`, `suffixes_calls`, `sequenceRest_links`, `items_links`), and
  what they read inside of a pair needs four levels at most.
* `parseProgram_chain` — so a chain of any length is read.
-/

namespace BindingToggle

open Text

/-! ## Long sources -/

/-- What can stand between two names. -/
inductive Joint where
  /-- An operator, with blanks on both sides. -/
  | operator (op : BinaryOp) (blanks : Text)
  | point
  | comma
  | semicolon

namespace Joint

def text : Joint → Text
  | operator op blanks => blanks ++ (op.symbol.toList ++ blanks)
  | point => ['.']
  | comma => [',']
  | semicolon => [';']

/-- Operators group to the left, and those that are words are kept apart from names. -/
def Fits : Joint → Prop
  | operator op blanks =>
    op ≠ .pow ∧ (∀ c ∈ blanks, Lexer.isSpace c = true) ∧
      (op = .isIn ∨ op = .instanceOf → blanks ≠ [])
  | _ => True

/-- The token is the one between two names. -/
def Marks : Joint → Token → Prop
  | operator op _, t => BinaryOp.ofToken? t = some op
  | point, t => t.kind = .punct .dot
  | comma, t => t.kind = .punct .comma
  | semicolon, t => t.kind = .punct .semicolon

end Joint

/-- The ways to write the name `a` many times, with no expression inside of another one for each. -/
inductive Chain where
  /-- Names with a joint between each two of them. -/
  | joined (joint : Joint)
  /-- An array of names. -/
  | array
  /-- A name that is called many times. -/
  | calls

namespace Chain

/-- The chain with `n` names, or with `n` calls. -/
def text : Chain → Nat → Text
  | joined joint, n => joint.text.intercalate (List.replicate n ['a'])
  | array, n => '[' :: ([','].intercalate (List.replicate n ['a']) ++ [']'])
  | calls, n => 'a' :: (List.replicate n ['(', ')']).flatten

def Fits : Chain → Prop
  | joined joint => joint.Fits
  | _ => True

end Chain

/-- The token is the name `a`. -/
def Token.IsName (t : Token) : Prop := t.kind = .ident ∧ t.text = ['a']

/-- The first token is as `first` says, and the others as `holds` does. -/
inductive Leads (first : Token → Prop) (holds : List Token → Prop) : List Token → Prop
  | intro {t : Token} {ts : List Token} (ht : first t) (hts : holds ts) :
      Leads first holds (t :: ts)

theorem Leads.mono {first first' : Token → Prop} {holds : List Token → Prop} {ts : List Token}
    (h : Leads first holds ts) (himp : ∀ t, first t → first' t) : Leads first' holds ts := by
  obtain ⟨ht, hts⟩ := h
  exact .intro (himp _ ht) hts

/-- Tokens in pairs, and behind them tokens of which `ends` holds. -/
inductive Links (first second : Token → Prop) (ends : List Token → Prop) : List Token → Prop
  | done {ts : List Token} (h : ends ts) : Links first second ends ts
  | link {s t : Token} {ts : List Token} (hs : first s) (ht : second t)
      (h : Links first second ends ts) : Links first second ends (s :: t :: ts)

theorem Links.of_leads {first second : Token → Prop} {ends : List Token → Prop} {ts : List Token}
    (h : Leads first (Leads second (Links first second ends)) ts) :
    Links first second ends ts := by
  obtain ⟨hs, ht, hts⟩ := h
  exact .link hs ht hts

/-! ## Their tokens -/

/-- What is checked of the list of all punctuators holds of each. -/
theorem Punct.of_all {f : Punct → Bool} (h : Punct.all.all f = true) (p : Punct) : f p = true := by
  have hmem : p ∈ Punct.all := by cases p <;> decide
  exact List.all_eq_true.1 h p hmem

namespace Lexer

/-- Wherever it stands, the text is split into tokens of which `holds` is true. -/
def Reads (holds : List Token → Prop) (t : Text) : Prop :=
  ∀ offset, ∃ stream, lexFrom offset t = .ok stream ∧ holds stream.tokens

theorem reads_nil : Reads (· = []) [] := by
  intro offset
  exact ⟨_, lexFrom_end (gap_last .nil offset), rfl⟩

namespace Reads

variable {holds : List Token → Prop} {trivia rest : Text}

theorem mono {holds' : List Token → Prop} {t : Text} (h : Reads holds t)
    (himp : ∀ ts, holds ts → holds' ts) : Reads holds' t := by
  intro offset
  obtain ⟨stream, hstream, htokens⟩ := h offset
  exact ⟨stream, hstream, himp _ htokens⟩

/-- A word behind a gap is the first token. -/
theorem word {u : Text} {c : Char} {w : Word} (hgap : IsGap false trivia)
    (hstart : startsGap (c :: u) = false) (hw : ∀ offset, word offset c u = .ok w)
    (hrest : Reads holds w.rest) :
    Reads (Leads (fun t => t.kind = w.kind ∧ t.text = w.text) holds) (trivia ++ c :: u) := by
  intro offset
  obtain ⟨stream, hstream, htail⟩ := hrest (w.toToken offset trivia).span.stop
  rw [lexFrom_token (gap_before hgap hstart offset) (hw _), hstream]
  exact ⟨_, rfl, .intro ⟨rfl, rfl⟩ htail⟩

end Reads

theorem isGap_of_spaces {blanks : Text} (h : ∀ c ∈ blanks, isSpace c = true) :
    IsGap false blanks := by
  induction blanks with
  | nil => exact .nil
  | cons c blanks ih =>
    obtain ⟨hc, hblanks⟩ := List.forall_mem_cons.1 h
    exact .space hc (ih hblanks)

theorem startsGap_eq_false {c : Char} (hspace : isSpace c = false) (hslash : c ≠ '/') (t : Text) :
    startsGap (c :: t) = false := by
  simp [startsGap, hspace, hslash]

/-! ### Names -/

/-- A name behind a gap. -/
theorem Reads.ident {holds : List Token → Prop} {trivia s rest : Text} {c : Char}
    (hgap : IsGap false trivia) (hc : isNameStart c = true) (hspace : isSpace c = false)
    (hslash : c ≠ '/') (hs : ∀ d ∈ s, isNamePart d = true) (hstops : Stops isNamePart rest)
    (hrest : Reads holds rest) :
    Reads (Leads (fun t => t.kind = .ident ∧ t.text = c :: s) holds)
      (trivia ++ c :: (s ++ rest)) := by
  have hw : ∀ offset, Lexer.word offset c (s ++ rest) = .ok ⟨.ident, c :: s, rest⟩ := by
    intro offset
    rw [Lexer.word, if_pos hc, takeWhile_run hs hstops, dropWhile_run hs hstops]
  exact .word hgap (startsGap_eq_false hspace hslash _) hw hrest

theorem Reads.name {holds : List Token → Prop} {trivia rest : Text} (hgap : IsGap false trivia)
    (hstops : Stops isNamePart rest) (hrest : Reads holds rest) :
    Reads (Leads Token.IsName holds) (trivia ++ 'a' :: rest) :=
  @Reads.ident holds trivia [] rest 'a' hgap (by decide) (by decide) (by decide) (by simp) hstops
    hrest

/-! ### Punctuators -/

/-- Punctuators begin with characters that begin nothing else, and hold no digits. -/
theorem head_of_symbol (p : Punct) :
    ∃ c s, p.symbol.toList = c :: s ∧ isNamePart c = false ∧ isNameStart c = false ∧
      (c == '"' || c == '\'' || c == '`') = false ∧ startsGap (c :: s) = false ∧
      (c :: s).all (!·.isDigit) = true := by
  have hall : Punct.all.all (fun p => !p.symbol.toList.head?.any isNamePart &&
      !p.symbol.toList.head?.any isNameStart &&
      !p.symbol.toList.head?.any (fun c => c == '"' || c == '\'' || c == '`') &&
      !startsGap p.symbol.toList && p.symbol.toList.all (!·.isDigit)) = true := by
    decide +kernel
  obtain ⟨c, s, hsymbol⟩ := List.exists_cons_of_ne_nil p.symbol_ne_nil
  have hhead := Punct.of_all hall p
  simp only [hsymbol, List.head?_cons, Option.any_some, Bool.and_eq_true,
    Bool.not_eq_true'] at hhead
  obtain ⟨⟨⟨⟨hpart, hname⟩, hquote⟩, hstart⟩, hdigits⟩ := hhead
  exact ⟨c, s, hsymbol, hpart, hname, hquote, hstart, hdigits⟩

/-- A punctuator behind a gap. Only a point could begin a number. -/
theorem Reads.punct {holds : List Token → Prop} {p : Punct} {trivia rest : Text}
    (hgap : IsGap false trivia) (hstart : startsGap (p.symbol.toList ++ rest) = false)
    (htext : Punct.ofText? (p.symbol.toList ++ rest) = some p)
    (hdigit : p.symbol = "." → startsWithDigit rest = false) (hrest : Reads holds rest) :
    Reads (Leads (·.kind = .punct p) holds) (trivia ++ (p.symbol.toList ++ rest)) := by
  obtain ⟨c, s, hsymbol, -, hname, hquote, -, hdigits⟩ := head_of_symbol p
  have hnumber : (c.isDigit || (c == '.' && startsWithDigit (s ++ rest))) = false := by
    simp only [List.all_cons, Bool.and_eq_true, Bool.not_eq_true'] at hdigits
    rw [hdigits.1, Bool.false_or, Bool.and_eq_false_imp, beq_iff_eq]
    rintro rfl
    cases s with
    | nil => exact hdigit (String.toList_injective hsymbol)
    | cons b s => simpa [startsWithDigit] using (List.all_eq_true.1 hdigits.2) b (by simp)
  have hw : ∀ offset, Lexer.word offset c (s ++ rest) = .ok ⟨.punct p, p.symbol.toList, rest⟩ := by
    intro offset
    have hdrop : (c :: (s ++ rest)).drop p.symbol.toList.length = rest := by
      rw [hsymbol, ← List.cons_append]
      exact List.drop_left
    rw [hsymbol, List.cons_append] at htext
    simp only [Bool.or_eq_false_iff] at hquote
    rw [Lexer.word, hname, hnumber, hquote.1.1, hquote.1.2, hquote.2, htext]
    simp only [Bool.false_eq_true, if_false, Bool.or_self, hdrop]
  rw [hsymbol, List.cons_append] at hstart ⊢
  exact (Reads.word hgap hstart hw hrest).mono fun _ h => h.mono fun _ ht => ht.1

/-- No punctuator goes on with the character, and no number begins with it. -/
structure Unmarked (c : Char) : Prop where
  digit : c.isDigit = false
  mark : ∀ p : Punct, c ∉ p.symbol.toList

theorem unmarked_name : Unmarked 'a' := by
  have hall : Punct.all.all (fun p => !p.symbol.toList.contains 'a') = true := by decide +kernel
  refine ⟨by decide, fun p => ?_⟩
  simpa using Punct.of_all hall p

theorem Separates.unmarked {c : Char} (h : Separates c) : Unmarked c :=
  ⟨h.isDigit_eq_false, h.mark⟩

/-- A punctuator in front of a character that goes on with none. -/
theorem Reads.mark {holds : List Token → Prop} {p : Punct} {trivia rest : Text} {d : Char}
    (hgap : IsGap false trivia) (hd : Unmarked d) (hrest : Reads holds (d :: rest)) :
    Reads (Leads (·.kind = .punct p) holds) (trivia ++ (p.symbol.toList ++ d :: rest)) := by
  have hall : Punct.all.all (fun p => Punct.ofText? p.symbol.toList == some p) = true := by
    decide +kernel
  have hstart : startsGap (p.symbol.toList ++ d :: rest) = false := by
    obtain ⟨c, s, hsymbol, -, -, -, hstart, -⟩ := head_of_symbol p
    have hslash : d ≠ '/' := by
      rintro rfl
      exact hd.mark .slash (by decide)
    have hstar : d ≠ '*' := by
      rintro rfl
      exact hd.mark .star (by decide)
    rw [hsymbol]
    exact startsGap_seam hslash hstar hstart rest
  have htext : Punct.ofText? (p.symbol.toList ++ d :: rest) = some p := by
    rw [ofText?_seam hd.digit hd.mark]
    exact beq_iff_eq.1 (Punct.of_all hall p)
  exact .punct hgap hstart htext (fun _ => hd.digit) hrest

/-! ### Joints -/

theorem head_spaces {blanks : Text} (h : ∀ c ∈ blanks, isSpace c = true) (rest : Text) :
    ∃ d t, blanks ++ 'a' :: rest = d :: t ∧ Unmarked d := by
  cases blanks with
  | nil => exact ⟨'a', rest, rfl, unmarked_name⟩
  | cons c blanks =>
    exact ⟨c, blanks ++ 'a' :: rest, rfl, (separates_of_isSpace (h c (by simp))).unmarked⟩

/-- The operators that are no words are punctuators. -/
theorem exists_punct {op : BinaryOp} (hword : ¬ (op = .isIn ∨ op = .instanceOf)) :
    ∃ p : Punct, BinaryOp.ofPunct? p = some op := by
  have hany : Punct.all.any (fun p => BinaryOp.ofPunct? p == some op) = true := by
    cases op with
    | isIn => exact absurd (.inl rfl) hword
    | instanceOf => exact absurd (.inr rfl) hword
    | _ => rfl
  obtain ⟨p, -, hp⟩ := List.any_eq_true.1 hany
  exact ⟨p, beq_iff_eq.1 hp⟩

theorem Reads.operator {holds : List Token → Prop} {op : BinaryOp} {blanks rest : Text}
    (hblanks : ∀ c ∈ blanks, isSpace c = true)
    (hword : op = .isIn ∨ op = .instanceOf → blanks ≠ [])
    (hrest : Reads holds (blanks ++ 'a' :: rest)) :
    Reads (Leads (BinaryOp.ofToken? · = some op) holds)
      (blanks ++ (op.symbol.toList ++ (blanks ++ 'a' :: rest))) := by
  have hgap := isGap_of_spaces hblanks
  by_cases hop : op = .isIn ∨ op = .instanceOf
  · have hstops : Stops isNamePart (blanks ++ 'a' :: rest) := by
      obtain ⟨c, behind, rfl⟩ := List.exists_cons_of_ne_nil (hword hop)
      exact stops_cons.2 (separates_of_isSpace (hblanks c (by simp))).name
    have hread : ∀ s : Text, s.all isNamePart = true → op.symbol.toList = 'i' :: s →
        Reads (Leads (fun t => t.kind = .ident ∧ t.text = op.symbol.toList) holds)
          (blanks ++ (op.symbol.toList ++ (blanks ++ 'a' :: rest))) := by
      intro s hs hsymbol
      rw [hsymbol]
      exact .ident hgap (by decide) (by decide) (by decide) (List.all_eq_true.1 hs) hstops hrest
    rcases hop with rfl | rfl
    · refine (hread ['n'] (by decide) rfl).mono fun _ h => h.mono fun t ht => ?_
      simp only [BinaryOp.ofToken?, ht]
      rfl
    · refine (hread "nstanceof".toList (by decide) rfl).mono fun _ h => h.mono fun t ht => ?_
      simp only [BinaryOp.ofToken?, ht]
      rfl
  · obtain ⟨p, hp⟩ := exists_punct hop
    obtain ⟨d, t, hd, hunmarked⟩ := head_spaces hblanks rest
    rw [hd] at hrest ⊢
    rw [← BinaryOp.symbol_of_ofPunct? hp]
    refine (Reads.mark hgap hunmarked hrest).mono fun _ h => h.mono fun t ht => ?_
    simp only [BinaryOp.ofToken?, ht, hp]

/-- A joint and a name are two tokens. -/
theorem Reads.joint {joint : Joint} (hfits : joint.Fits) {ends : List Token → Prop} {rest : Text}
    (hstops : Stops isNamePart rest)
    (hrest : Reads (Links joint.Marks Token.IsName ends) rest) :
    Reads (Links joint.Marks Token.IsName ends) (joint.text ++ 'a' :: rest) := by
  have hmark : ∀ {p : Punct}, (∀ t : Token, t.kind = .punct p → joint.Marks t) →
      Reads (Links joint.Marks Token.IsName ends) (p.symbol.toList ++ 'a' :: rest) := by
    intro p hp
    have hname := Reads.name .nil hstops hrest
    have hpair := @Reads.mark _ p [] rest 'a' .nil unmarked_name hname
    exact hpair.mono fun _ h => .of_leads (h.mono hp)
  cases joint with
  | operator op blanks =>
    obtain ⟨-, hblanks, hword⟩ := hfits
    have htext : (Joint.operator op blanks).text ++ 'a' :: rest =
        blanks ++ (op.symbol.toList ++ (blanks ++ 'a' :: rest)) := by
      simp [Joint.text]
    rw [htext]
    have hname := Reads.name (isGap_of_spaces hblanks) hstops hrest
    exact (Reads.operator hblanks hword hname).mono fun _ h => .of_leads h
  | point => exact hmark fun _ hk => hk
  | comma => exact hmark fun _ hk => hk
  | semicolon => exact hmark fun _ hk => hk

theorem stops_joint {joint : Joint} (hfits : joint.Fits) (rest : Text) :
    Stops isNamePart (joint.text ++ rest) := by
  cases joint with
  | operator op blanks =>
    obtain ⟨-, hblanks, hword⟩ := hfits
    cases blanks with
    | cons c blanks => exact stops_cons.2 (separates_of_isSpace (hblanks c (by simp))).name
    | nil =>
      obtain ⟨p, hp⟩ := exists_punct fun hop => hword hop rfl
      obtain ⟨c, s, hsymbol, hc, -⟩ := head_of_symbol p
      rw [Joint.text, ← BinaryOp.symbol_of_ofPunct? hp, hsymbol]
      exact stops_cons.2 hc
  | point => exact stops_cons.2 (by decide)
  | comma => exact stops_cons.2 (by decide)
  | semicolon => exact stops_cons.2 (by decide)

/-! ### Chains -/

/-- Behind the first of many names with joints between them come pairs of a joint and a name. -/
theorem exists_links {joint : Joint} (hfits : joint.Fits) {ends : List Token → Prop} {rest : Text}
    (hstops : Stops isNamePart rest) (hrest : Reads ends rest) (n : Nat) :
    ∃ tail, joint.text.intercalate (List.replicate (n + 1) ['a']) ++ rest = 'a' :: tail ∧
      Stops isNamePart tail ∧ Reads (Links joint.Marks Token.IsName ends) tail := by
  induction n with
  | zero => exact ⟨rest, rfl, hstops, hrest.mono fun _ h => .done h⟩
  | succ n ih =>
    obtain ⟨tail, htail, hstops', hlinks⟩ := ih
    refine ⟨joint.text ++ 'a' :: tail, ?_, stops_joint hfits _, .joint hfits hstops' hlinks⟩
    rw [List.replicate_succ, List.replicate_succ, List.intercalate_cons_cons, ← List.replicate_succ,
      List.append_assoc, List.append_assoc, htail]
    rfl

/-- Many names with joints between them. -/
theorem reads_joined {joint : Joint} (hfits : joint.Fits) {ends : List Token → Prop} {rest : Text}
    (hstops : Stops isNamePart rest) (hrest : Reads ends rest) {n : Nat} (hn : 1 ≤ n) :
    Reads (Leads Token.IsName (Links joint.Marks Token.IsName ends))
      (joint.text.intercalate (List.replicate n ['a']) ++ rest) := by
  obtain ⟨n, rfl⟩ := Nat.exists_eq_add_of_le' hn
  obtain ⟨tail, htail, hstops', hlinks⟩ := exists_links hfits hstops hrest n
  rw [htail]
  exact .name .nil hstops' hlinks

/-- Many pairs of parentheses. -/
theorem reads_calls (n : Nat) :
    Reads (Links (·.kind = .punct .openParen) (·.kind = .punct .closeParen) (· = []))
      (List.replicate n ['(', ')']).flatten := by
  induction n with
  | zero => exact reads_nil.mono fun _ h => .done h
  | succ n ih =>
    have hclose := @Reads.punct _ .closeParen [] _ .nil
      (startsGap_eq_false (by decide) (by decide) _) rfl (fun h => absurd h (by decide)) ih
    have hopen := @Reads.punct _ .openParen [] _ .nil
      (startsGap_eq_false (by decide) (by decide) _) rfl (fun h => absurd h (by decide)) hclose
    exact hopen.mono fun _ h => .of_leads h

end Lexer

/-! ## How they are read -/

namespace Inner

open Parse

variable {inner : Inner} {depth : Nat} {t : Token} {ts rest : List Token} {e : Expr}

/-- No expression goes on with the tokens. -/
def AtBreak : List Token → Prop
  | [] => True
  | t :: _ => t.kind = .punct .comma ∨ t.kind = .punct .semicolon ∨ t.kind = .punct .closeBracket

theorem atBreak_nil : AtBreak [] := trivial

theorem primary_name (ht : t.IsName) : inner.primary (t :: ts) = .ok (wordExpr t, ts) := by
  have hreserved : reservedWords.contains ['a'] = false := by decide
  have hnew : ['a'] ≠ "new".toList := by decide
  simp only [primary, ht.1, ht.2, hreserved, hnew, Bool.false_eq_true, if_false]

/-- A primary expression with its suffixes is an operand. -/
theorem unaryBody_of_primary {f : Expr} {mid : List Token} (hunary : UnaryOp.ofToken? t = none)
    (hupdate : UpdateOp.ofToken? t = none) (hprimary : inner.primary (t :: ts) = .ok (f, mid))
    (hsuffixes : inner.suffixes f mid = .ok (e, rest))
    (hrest : ∀ u ∈ rest.head?, UpdateOp.ofToken? u = none) :
    inner.unaryBody (t :: ts) = .ok (e, rest) := by
  have hpostfixed : inner.postfixed (t :: ts) = .ok (e, rest) := by
    rw [postfixed, hprimary]
    exact hsuffixes
  simp only [unaryBody, hunary, hupdate, stepped, hpostfixed]
  cases rest with
  | nil => rfl
  | cons u rest => simp [hrest u rfl]

theorem unaryBody_name (ht : t.IsName) (h : inner.suffixes (wordExpr t) ts = .ok (e, rest))
    (hrest : ∀ u ∈ rest.head?, UpdateOp.ofToken? u = none) :
    inner.unaryBody (t :: ts) = .ok (e, rest) := by
  have hunary : UnaryOp.ofToken? t = none := by simp [UnaryOp.ofToken?, ht.1, ht.2]
  have hupdate : UpdateOp.ofToken? t = none := by simp [UpdateOp.ofToken?, ht.1]
  exact unaryBody_of_primary hunary hupdate (primary_name ht) h hrest

theorem operators_stop {floor : Nat} (h : NextOperator (·.precedence ≤ floor) ts) :
    inner.operators floor e ts = .ok (e, ts) := by
  cases ts with
  | nil => rw [operators]
  | cons t ts =>
    rw [operators_eq]
    cases hop : BinaryOp.ofToken? t with
    | none => rfl
    | some op =>
      have hfloor : op.precedence ≤ floor := h t rfl op hop
      simp [hfloor]

/-- No operand goes on with the tokens: no expression does, or an operator comes first. -/
inductive AfterOperand : List Token → Prop
  | ends {ts : List Token} (h : AtBreak ts) : AfterOperand ts
  | operator {t : Token} {ts : List Token} {op : BinaryOp} (ht : BinaryOp.ofToken? t = some op) :
      AfterOperand (t :: ts)

theorem kind_ne_of_operator {op : BinaryOp} (h : BinaryOp.ofToken? t = some op) {p : Punct}
    (hp : BinaryOp.ofPunct? p = none) : t.kind ≠ .punct p := by
  intro hk
  simp only [BinaryOp.ofToken?, hk, hp] at h
  cases h

theorem AfterOperand.suffixes_eq (h : AfterOperand ts) (e : Expr) :
    inner.suffixes e ts = .ok (e, ts) := by
  cases ts with
  | nil => rw [suffixes]
  | cons t ts =>
    have hnone : inner.suffix? e t ts = none := by
      cases h with
      | ends h => rcases h with ht | ht | ht <;> simp [suffix?, ht]
      | operator hop =>
        -- none of the tokens that begin a suffix is an operator
        unfold suffix?
        split
        · rename_i hk
          exact absurd hk (kind_ne_of_operator hop rfl)
        · rename_i hk
          exact absurd hk (kind_ne_of_operator hop rfl)
        · rename_i hk
          exact absurd hk (kind_ne_of_operator hop rfl)
        · rename_i hk
          exact absurd hk (kind_ne_of_operator hop rfl)
        · rename_i hk
          simp only [BinaryOp.ofToken?, hk] at hop
          cases hop
        · rfl
    rw [Inner.suffixes_eq, hnone]

theorem AfterOperand.update_eq_none (h : AfterOperand ts) :
    ∀ u ∈ ts.head?, UpdateOp.ofToken? u = none := by
  rintro u hu
  obtain ⟨ts, rfl⟩ := List.head?_eq_some_iff.1 hu
  cases h with
  | ends h => rcases h with ht | ht | ht <;> simp [UpdateOp.ofToken?, ht]
  | operator hop =>
    unfold UpdateOp.ofToken?
    split
    · rename_i hk
      exact absurd hk (kind_ne_of_operator hop rfl)
    · rename_i hk
      exact absurd hk (kind_ne_of_operator hop rfl)
    · rfl

/-- A name alone, up to an operator that binds no tighter than the floor. -/
theorem binaryBody_name (ht : t.IsName) (hts : AfterOperand ts) {floor : Nat}
    (hfloor : NextOperator (·.precedence ≤ floor) ts) :
    inner.binaryBody floor (t :: ts) = .ok (wordExpr t, ts) := by
  rw [binaryBody, unaryBody_name ht (hts.suffixes_eq _) hts.update_eq_none]
  exact operators_stop hfloor

/-- An assignment that ends behind its operators, and does not begin as an arrow function does. -/
theorem assignmentBody_of_binary (hhead : parameters? (skipAsync (t :: ts)) = none)
    (h : (inner.binary 0).run (t :: ts) = .ok (e, rest)) (hrest : AtBreak rest) :
    inner.assignmentBody (t :: ts) = .ok (e, rest) := by
  have hconditional : inner.conditional (t :: ts) = .ok (e, rest) := by
    rw [conditional, h]
    cases rest with
    | nil => rfl
    | cons u rest => rcases hrest with hu | hu | hu <;> simp [consume?, Token.isPunct, hu]
  have hassigned : inner.assigned (t :: ts) = .ok (e, rest) := by
    rw [assigned, hconditional]
    cases rest with
    | nil => rfl
    | cons u rest => rcases hrest with hu | hu | hu <;> simp [AssignOp.ofToken?, hu]
  simp only [assignmentBody, hhead, hassigned]

theorem parameters?_name (ht : t.IsName) (harrow : consume? .arrow ts = none) :
    parameters? (skipAsync (t :: ts)) = none := by
  have hskip : skipAsync (t :: ts) = t :: ts := by
    cases ts with
    | nil => rfl
    | cons u ts => simp [skipAsync, Token.isWord, ht.2]
  simp [hskip, parameters?, ht.1, harrow]

theorem AtBreak.consume?_eq_none {p : Punct} (h : AtBreak ts) (hcomma : p ≠ .comma)
    (hsemicolon : p ≠ .semicolon) (hbracket : p ≠ .closeBracket) : consume? p ts = none := by
  cases ts with
  | nil => rfl
  | cons t ts =>
    rcases h with ht | ht | ht
    · simp [consume?, Token.isPunct, ht, Ne.symm hcomma]
    · simp [consume?, Token.isPunct, ht, Ne.symm hsemicolon]
    · simp [consume?, Token.isPunct, ht, Ne.symm hbracket]

theorem AtBreak.nextOperator {allowed : BinaryOp → Prop} (h : AtBreak ts) :
    NextOperator allowed ts := by
  intro t ht op hop
  obtain ⟨ts, rfl⟩ := List.head?_eq_some_iff.1 ht
  rcases h with hk | hk | hk <;> simp [BinaryOp.ofToken?, BinaryOp.ofPunct?, hk] at hop

/-- A name alone, where an expression ends. -/
theorem assignment_name (ht : t.IsName) (hts : AtBreak ts) (depth : Nat) :
    (ofDepth (depth + 2)).assignment.run (t :: ts) = .ok (wordExpr t, ts) := by
  have harrow : consume? .arrow ts = none :=
    hts.consume?_eq_none (by decide) (by decide) (by decide)
  exact assignmentBody_of_binary (parameters?_name ht harrow)
    (binaryBody_name ht (.ends hts) hts.nextOperator) hts

/-! ### Loops -/

/-- The loop over operators takes in all of a chain, since each right operand is one name. -/
theorem operators_links {op : BinaryOp} (hop : op ≠ .pow) (depth : Nat)
    (h : Links (BinaryOp.ofToken? · = some op) Token.IsName (· = []) ts) (left : Expr) :
    ∃ e, (ofDepth (depth + 1)).operators 0 left ts = .ok (e, []) := by
  have hright : op.rightFloor = op.precedence := by
    cases op <;> first | rfl | exact absurd rfl hop
  induction h generalizing left with
  | done h =>
    subst h
    exact ⟨left, by rw [operators]⟩
  | @link s t ts hs ht h ih =>
    have hoperand : ((ofDepth (depth + 1)).binary op.rightFloor).run (t :: ts) =
        .ok (wordExpr t, ts) := by
      cases h with
      | done h =>
        subst h
        exact binaryBody_name ht (.ends atBreak_nil) atBreak_nil.nextOperator
      | link hs' _ _ =>
        refine binaryBody_name ht (.operator hs') ?_
        intro u hu op' hop'
        cases hu
        cases hs'.symm.trans hop'
        exact Nat.le_of_eq hright.symm
    obtain ⟨e, he⟩ := ih (.binary op left (wordExpr t) ⟨left.span.start, (wordExpr t).span.stop⟩)
    refine ⟨e, ?_⟩
    have hfloor : ¬ op.precedence ≤ 0 := Nat.not_le.2 op.precedence_pos
    rw [operators_eq, hs]
    simp only [hfloor, if_false, hoperand, he]

theorem propertyName_name (ht : t.IsName) :
    propertyName (t :: ts) = .ok (⟨t.text, t.span⟩, ts) := by
  cases ts with
  | nil => simp [propertyName, ht.1]
  | cons u ts => simp [propertyName, Token.isPunct, ht.1]

theorem suffixes_points (h : Links (·.kind = .punct .dot) Token.IsName (· = []) ts) (e : Expr) :
    ∃ f, inner.suffixes e ts = .ok (f, []) := by
  induction h generalizing e with
  | done h =>
    subst h
    exact ⟨e, by rw [suffixes]⟩
  | @link s t ts hs ht _ ih =>
    obtain ⟨f, hf⟩ := ih (.member e ⟨t.text, t.span⟩ false ⟨e.span.start, t.span.stop⟩)
    refine ⟨f, ?_⟩
    rw [Inner.suffixes_eq]
    simp only [suffix?, hs, property, propertyName_name ht, hf]

theorem suffixes_calls
    (h : Links (·.kind = .punct .openParen) (·.kind = .punct .closeParen) (· = []) ts) (e : Expr) :
    ∃ f, inner.suffixes e ts = .ok (f, []) := by
  induction h generalizing e with
  | done h =>
    subst h
    exact ⟨e, by rw [suffixes]⟩
  | @link s t ts hs ht _ ih =>
    have hitems : inner.elements.items .closeParen false (t :: ts) = .ok (([], t), ts) := by
      rw [Production.items_eq]
      simp [consume?, Token.isPunct, ht]
    obtain ⟨f, hf⟩ := ih (.call e [] false ⟨e.span.start, t.span.stop⟩)
    refine ⟨f, ?_⟩
    rw [Inner.suffixes_eq]
    simp only [suffix?, hs, application, hitems, hf]

theorem atBreak_of_links {second : Token → Prop} {ends : List Token → Prop}
    (h : Links (·.kind = .punct .comma) second ends ts) (hends : ∀ ts, ends ts → AtBreak ts) :
    AtBreak ts := by
  cases h with
  | done h => exact hends ts h
  | link hs _ _ => exact .inl hs

theorem sequenceRest_links (depth : Nat)
    (h : Links (·.kind = .punct .comma) Token.IsName (· = []) ts) :
    ∃ es, (ofDepth (depth + 2)).sequenceRest ts = .ok (es, []) := by
  induction h with
  | done h =>
    subst h
    exact ⟨[], by rw [sequenceRest_eq]; rfl⟩
  | @link s t ts hs ht h ih =>
    obtain ⟨es, hes⟩ := ih
    have hbreak : AtBreak ts := atBreak_of_links h (by rintro _ rfl; trivial)
    refine ⟨wordExpr t :: es, ?_⟩
    rw [sequenceRest_eq]
    simp only [consume?, isPunct_iff.2 hs, if_true, assignment_name ht hbreak, hes]

/-- The tokens are a bracket that closes an array. -/
def Bracket (ts : List Token) : Prop := ∃ close, ts = [close] ∧ close.kind = .punct .closeBracket

theorem items_links (depth : Nat) (h : Links (·.kind = .punct .comma) Token.IsName Bracket ts)
    (ht : t.IsName) :
    ∃ es close, (ofDepth (depth + 2)).elements.items .closeBracket true (t :: ts) =
      .ok ((es, close), []) := by
  have hnone : ∀ {t : Token}, t.IsName → ∀ p ts, consume? p (t :: ts) = none := by
    intro t ht p ts
    simp [consume?, Token.isPunct, ht.1]
  have hbreak : ∀ ts, Bracket ts → AtBreak ts := by
    rintro _ ⟨close, rfl, hclose⟩
    exact .inr (.inr hclose)
  have hitem : ∀ {t : Token} {ts}, t.IsName →
      Links (·.kind = .punct .comma) Token.IsName Bracket ts →
      (ofDepth (depth + 2)).elements.run (t :: ts) = .ok (wordExpr t, ts) := by
    intro t ts ht h
    have hread : (ofDepth (depth + 2)).element (t :: ts) = .ok (wordExpr t, ts) := by
      rw [element, hnone ht]
      exact assignment_name ht (atBreak_of_links h hbreak) depth
    exact hread
  induction h generalizing t with
  | done h =>
    have hlast := hitem ht (.done h)
    obtain ⟨close, rfl, hclose⟩ := h
    refine ⟨[wordExpr t], close, ?_⟩
    rw [Production.items_eq, hnone ht, if_pos rfl, hnone ht, hlast]
    simp [consume?, expect, Token.isPunct, hclose]
  | @link s u ts hs hu h ih =>
    obtain ⟨es, close, hes⟩ := ih hu
    refine ⟨wordExpr t :: es, close, ?_⟩
    rw [Production.items_eq, hnone ht, if_pos rfl, hnone ht, hitem ht (.link hs hu h)]
    simp only [consume?, isPunct_iff.2 hs, if_true, hes]

/-! ### Statements -/

theorem expression_of_assignment (h : inner.assignment.run ts = .ok (e, rest))
    (hrest : consume? .comma rest = none) : inner.expression ts = .ok (e, rest) := by
  have hsequence : inner.sequenceRest rest = .ok ([], rest) := by
    rw [sequenceRest_eq, hrest]
  rw [expression, h]
  simp only [hsequence]

/-- An operand with its operators, up to the end of the source. -/
theorem expression_of_binaryBody (hhead : parameters? (skipAsync (t :: ts)) = none)
    (h : (ofDepth depth).binaryBody 0 (t :: ts) = .ok (e, [])) :
    (ofDepth (depth + 2)).expression (t :: ts) = .ok (e, []) := by
  have hread : (ofDepth (depth + 2)).assignment.run (t :: ts) = .ok (e, []) :=
    assignmentBody_of_binary hhead h atBreak_nil
  exact expression_of_assignment hread rfl

/-- A name with its suffixes, up to the end of the source. -/
theorem expression_of_suffixes (ht : t.IsName) (harrow : consume? .arrow ts = none)
    (h : (ofDepth depth).suffixes (wordExpr t) ts = .ok (e, [])) :
    (ofDepth (depth + 2)).expression (t :: ts) = .ok (e, []) := by
  refine expression_of_binaryBody (parameters?_name ht harrow) ?_
  rw [binaryBody, unaryBody_name ht h (by simp)]
  exact operators_stop atBreak_nil.nextOperator

theorem consume?_arrow_of_links {first second : Token → Prop}
    (h : Links first second (· = []) ts) (hfirst : ∀ s, first s → s.kind ≠ .punct .arrow) :
    consume? .arrow ts = none := by
  cases h with
  | done h =>
    subst h
    rfl
  | link hs _ _ => simp [consume?, Token.isPunct, hfirst _ hs]

theorem expression_operators {op : BinaryOp} (hop : op ≠ .pow) (ht : t.IsName)
    (h : Links (BinaryOp.ofToken? · = some op) Token.IsName (· = []) ts) :
    ∃ e, (ofDepth (depth + 4)).expression (t :: ts) = .ok (e, []) := by
  have harrow := consume?_arrow_of_links h fun _ hs => kind_ne_of_operator hs rfl
  have hends : AfterOperand ts := by
    cases h with
    | done h =>
      subst h
      exact .ends atBreak_nil
    | link hs _ _ => exact .operator hs
  obtain ⟨e, he⟩ := operators_links hop (depth + 1) h (wordExpr t)
  refine ⟨e, expression_of_binaryBody (parameters?_name ht harrow) ?_⟩
  rw [binaryBody, unaryBody_name ht (hends.suffixes_eq _) hends.update_eq_none]
  exact he

theorem expression_points (ht : t.IsName)
    (h : Links (·.kind = .punct .dot) Token.IsName (· = []) ts) :
    ∃ e, (ofDepth (depth + 4)).expression (t :: ts) = .ok (e, []) := by
  have harrow := consume?_arrow_of_links h fun _ hs => by simp [hs]
  obtain ⟨e, he⟩ := suffixes_points h (wordExpr t)
  exact ⟨e, expression_of_suffixes ht harrow he⟩

theorem expression_calls (ht : t.IsName)
    (h : Links (·.kind = .punct .openParen) (·.kind = .punct .closeParen) (· = []) ts) :
    ∃ e, (ofDepth (depth + 4)).expression (t :: ts) = .ok (e, []) := by
  have harrow := consume?_arrow_of_links h fun _ hs => by simp [hs]
  obtain ⟨e, he⟩ := suffixes_calls h (wordExpr t)
  exact ⟨e, expression_of_suffixes ht harrow he⟩

theorem expression_commas (ht : t.IsName)
    (h : Links (·.kind = .punct .comma) Token.IsName (· = []) ts) :
    ∃ e, (ofDepth (depth + 4)).expression (t :: ts) = .ok (e, []) := by
  have hbreak : AtBreak ts := atBreak_of_links h (by rintro _ rfl; trivial)
  obtain ⟨es, hes⟩ := sequenceRest_links (depth + 2) h
  rw [expression, assignment_name ht hbreak (depth + 2)]
  simp only [hes]
  cases es with
  | nil => exact ⟨_, rfl⟩
  | cons f fs => exact ⟨_, rfl⟩

theorem expression_array {first : Token} (hfirst : first.kind = .punct .openBracket)
    (ht : t.IsName) (h : Links (·.kind = .punct .comma) Token.IsName Bracket ts) :
    ∃ e, (ofDepth (depth + 4)).expression (first :: t :: ts) = .ok (e, []) := by
  obtain ⟨es, close, hitems⟩ := items_links depth h ht
  have hprimary : (ofDepth (depth + 2)).primary (first :: t :: ts) =
      .ok (.array es ⟨first.span.start, close.span.stop⟩, []) := by
    simp only [primary, hfirst, hitems]
  have hhead : parameters? (skipAsync (first :: t :: ts)) = none := by
    simp [skipAsync, Token.isWord, parameters?, Token.isPunct, hfirst]
  have hunary : UnaryOp.ofToken? first = none := by simp [UnaryOp.ofToken?, hfirst]
  have hupdate : UpdateOp.ofToken? first = none := by simp [UpdateOp.ofToken?, hfirst]
  have hoperand : (ofDepth (depth + 2)).unaryBody (first :: t :: ts) =
      .ok (.array es ⟨first.span.start, close.span.stop⟩, []) :=
    unaryBody_of_primary hunary hupdate hprimary (by rw [suffixes]) (by simp)
  refine ⟨.array es ⟨first.span.start, close.span.stop⟩, expression_of_binaryBody hhead ?_⟩
  rw [binaryBody, hoperand]
  exact operators_stop atBreak_nil.nextOperator

end Inner

/-- The grammar goes in deeper than any chain does. -/
theorem exists_grammar_eq : ∃ depth, grammar = Inner.ofDepth (depth + 4) := ⟨maxDepth - 4, rfl⟩

theorem exists_statements {t : Token} {ts : List Token} (ht : t.kind ≠ .punct .semicolon)
    (h : ∀ depth, ∃ e, (Inner.ofDepth (depth + 4)).expression (t :: ts) = .ok (e, [])) :
    ∃ ss, statements (t :: ts) = .ok ss := by
  obtain ⟨depth, hdepth⟩ := exists_grammar_eq
  obtain ⟨e, he⟩ := h depth
  rw [← hdepth] at he
  rw [statements_eq, if_neg (fun h => ht (isPunct_iff.1 h)), he]
  exact ⟨_, rfl⟩

theorem statements_semicolons {t : Token} {ts : List Token} (ht : t.IsName)
    (h : Links (·.kind = .punct .semicolon) Token.IsName (· = []) ts) :
    ∃ ss, statements (t :: ts) = .ok ss := by
  have hread : ∀ {t : Token} {ts}, t.IsName → Inner.AtBreak ts → Parse.consume? .comma ts = none →
      grammar.expression (t :: ts) = .ok (Inner.wordExpr t, ts) := by
    intro t ts ht hts hcomma
    obtain ⟨depth, hdepth⟩ := exists_grammar_eq
    rw [hdepth]
    exact Inner.expression_of_assignment (Inner.assignment_name ht hts (depth + 2)) hcomma
  have hname : ∀ {t : Token}, t.IsName → ¬ t.isPunct .semicolon = true := by
    intro t ht
    simp [Token.isPunct, ht.1]
  induction h generalizing t with
  | done h =>
    subst h
    rw [statements_eq, if_neg (hname ht), hread ht Inner.atBreak_nil rfl]
    exact ⟨_, rfl⟩
  | @link s u ts hs hu h ih =>
    obtain ⟨ss, hss⟩ := ih hu
    have hcomma : Parse.consume? .comma (s :: u :: ts) = none := by
      simp [Parse.consume?, Token.isPunct, hs]
    have hbreak : Inner.AtBreak (s :: u :: ts) := Or.inr (Or.inl hs)
    rw [statements_eq, if_neg (hname ht), hread ht hbreak hcomma]
    simp only [isPunct_iff.2 hs, if_true, hss]
    exact ⟨_, rfl⟩

/-! ## Long sources are read -/

theorem parseProgram_of_reads {source : Text} {holds : List Token → Prop}
    (h : Lexer.Reads holds source) (hread : ∀ ts, holds ts → ∃ ss, statements ts = .ok ss) :
    ∃ ss, parseProgram source = .ok ss := by
  obtain ⟨stream, hlex, htokens⟩ := h 0
  obtain ⟨ss, hss⟩ := hread _ htokens
  exact ⟨ss, by rw [parseProgram, lex, hlex]; exact hss⟩

/-- **A chain of any length is read.** -/
theorem parseProgram_chain {chain : Chain} (hfits : chain.Fits) {n : Nat} (hn : 1 ≤ n) :
    ∃ ss, parseProgram (chain.text n) = .ok ss := by
  have hname : ∀ {t : Token}, t.IsName → t.kind ≠ .punct .semicolon := by
    intro t ht
    simp [ht.1]
  cases chain with
  | joined joint =>
    have hreads := Lexer.reads_joined hfits (stops_nil _) Lexer.reads_nil hn
    rw [List.append_nil] at hreads
    refine parseProgram_of_reads hreads ?_
    rintro _ ⟨ht, hlinks⟩
    cases joint with
    | operator op blanks =>
      exact exists_statements (hname ht) fun _ => Inner.expression_operators hfits.1 ht hlinks
    | point => exact exists_statements (hname ht) fun _ => Inner.expression_points ht hlinks
    | comma => exact exists_statements (hname ht) fun _ => Inner.expression_commas ht hlinks
    | semicolon => exact statements_semicolons ht hlinks
  | array =>
    have hclose : Lexer.Reads Inner.Bracket [']'] :=
      (@Lexer.Reads.punct _ .closeBracket [] [] .nil rfl rfl (fun h => absurd h (by decide))
        Lexer.reads_nil).mono fun _ ⟨ht, hts⟩ => ⟨_, by rw [hts], ht⟩
    have hnames := @Lexer.reads_joined .comma trivial _ _ (stops_cons.2 (by decide)) hclose n hn
    have hopen := @Lexer.Reads.punct _ .openBracket [] _ .nil
      (Lexer.startsGap_eq_false (by decide) (by decide) _) rfl (fun h => absurd h (by decide))
      hnames
    refine parseProgram_of_reads hopen ?_
    rintro _ ⟨hfirst, ht, hlinks⟩
    exact exists_statements (by simp [hfirst]) fun _ => Inner.expression_array hfirst ht hlinks
  | calls =>
    have hstops : Stops Lexer.isNamePart (List.replicate n ['(', ')']).flatten := by
      cases n with
      | zero => exact stops_nil _
      | succ n => exact stops_cons.2 (by decide)
    have hreads := Lexer.Reads.name .nil hstops (Lexer.reads_calls n)
    refine parseProgram_of_reads hreads ?_
    rintro _ ⟨ht, hlinks⟩
    exact exists_statements (hname ht) fun _ => Inner.expression_calls ht hlinks

end BindingToggle
