import BindingToggle.Expression.Program

/-!
# Literals in the grammar

A string literal comes out of the grammar only as it went in. Every production that does more than
hand a literal on puts a node of its own around it, so a parser that gives back a literal has read
one token.

* `expression_literal` — an expression that is a string literal is a single token.
* `expression_of_literal` — a literal in front of a semicolon, or of the end, is an expression.
* `statements_eq_literal_iff` — the token lists that are one statement, a string literal: the
  literal alone, or with one semicolon behind it.
-/

namespace BindingToggle

/-- The literal that a token is. -/
def Token.literal? (t : Token) : Option Expr :=
  match t.kind with
  | .string quote hasEscape => some (.string t.text quote hasEscape t.span)
  | .template hasSubstitutions => some (.template t.text hasSubstitutions t.span)
  | _ => none

namespace Parse

/-- When the parser gives back a string literal, it has read that literal and nothing else. -/
def KeepsLiterals (ts : List Token) (p : Parse Expr) : Prop :=
  ∀ e rest, p = .ok (e, rest) → e.isStringLiteral = true →
    ∃ t, ts = t :: rest ∧ t.literal? = some e

/-- Whether an expression has to end in front of these tokens: there are none, or a semicolon. -/
def AtEnd : List Token → Prop
  | [] => True
  | t :: _ => t.kind = .punct .semicolon

end Parse

namespace Inner

open Parse

variable (inner : Inner)

/-! ## What a literal was read from -/

theorem construction_not_literal {start : Nat} {ts rest : List Token} {e : Expr}
    (h : inner.construction start ts = .ok (e, rest)) : e.isStringLiteral = false := by
  unfold construction at h
  split at h
  · cases h
  · split at h
    · cases h; rfl
    · split at h <;> cases h
      rfl

theorem primary_literal (ts : List Token) : KeepsLiterals ts (inner.primary ts) := by
  intro e rest h he
  unfold primary at h
  split at h
  · cases h
  · rename_i t afterFirst
    split at h
    · rename_i hk
      cases h
      exact ⟨t, rfl, by simp [Token.literal?, hk]⟩
    · cases h; cases he
    · rename_i hk
      cases h
      exact ⟨t, rfl, by simp [Token.literal?, hk]⟩
    · split at h
      · cases h
      · split at h
        · rw [inner.construction_not_literal h] at he; cases he
        · cases h
          unfold wordExpr at he
          split at he <;> cases he
    · split at h
      · cases h
      · split at h <;> cases h
        cases he
    · split at h <;> cases h
      cases he
    · split at h <;> cases h
      cases he
    · cases h

theorem property_not_literal {e f : Expr} {b : Bool} {ts rest : List Token}
    (h : property e b ts = .ok (f, rest)) : f.isStringLiteral = false := by
  unfold property at h
  split at h <;> cases h
  rfl

theorem subscript_not_literal {e f : Expr} {b : Bool} {ts rest : List Token}
    (h : inner.subscript e b ts = .ok (f, rest)) : f.isStringLiteral = false := by
  unfold subscript at h
  split at h
  · cases h
  · split at h <;> cases h
    rfl

theorem application_not_literal {e f : Expr} {b : Bool} {ts rest : List Token}
    (h : inner.application e b ts = .ok (f, rest)) : f.isStringLiteral = false := by
  unfold application at h
  split at h <;> cases h
  rfl

theorem suffix_not_literal {e f : Expr} {t : Token} {ts rest : List Token}
    (h : inner.suffix? e t ts = some (.ok (f, rest))) : f.isStringLiteral = false := by
  unfold suffix? at h
  split at h
  · exact property_not_literal (Option.some.inj h)
  · have ho := Option.some.inj h
    unfold optionalSuffix at ho
    split at ho
    · exact inner.application_not_literal ho
    · split at ho
      · exact inner.subscript_not_literal ho
      · exact property_not_literal ho
  · exact inner.subscript_not_literal (Option.some.inj h)
  · exact inner.application_not_literal (Option.some.inj h)
  · cases h; rfl
  · cases h

/-- The loop over suffixes gives back its literal untouched, or no literal. -/
theorem suffixes_literal {e f : Expr} {ts rest : List Token}
    (h : inner.suffixes e ts = .ok (f, rest)) (hf : f.isStringLiteral = true) :
    f = e ∧ rest = ts := by
  fun_induction inner.suffixes e ts with
  | case1 => cases h; exact ⟨rfl, rfl⟩
  | case2 => cases h; exact ⟨rfl, rfl⟩
  | case3 => cases h
  | case4 e t after g rest' hs ih =>
    obtain ⟨rfl, -⟩ := ih h
    rw [inner.suffix_not_literal hs] at hf
    cases hf

theorem postfixed_literal (ts : List Token) : KeepsLiterals ts (inner.postfixed ts) := by
  intro e rest h he
  unfold postfixed at h
  split at h
  · cases h
  · rename_i f mid hp
    obtain ⟨rfl, rfl⟩ := inner.suffixes_literal h he
    exact inner.primary_literal ts _ _ hp he

theorem stepped_literal (ts : List Token) : KeepsLiterals ts (inner.stepped ts) := by
  intro e rest h he
  unfold stepped at h
  split at h
  · cases h
  · rename_i hp
    cases h
    exact inner.postfixed_literal ts _ _ hp he
  · rename_i hp
    split at h
    · cases h
      exact inner.postfixed_literal ts _ _ hp he
    · split at h <;> cases h
      · exact inner.postfixed_literal ts _ _ hp he
      · cases he

theorem unaryBody_literal (ts : List Token) : KeepsLiterals ts (inner.unaryBody ts) := by
  intro e rest h he
  unfold unaryBody at h
  split at h
  · cases h
  · split at h
    · split at h <;> cases h
      cases he
    · split at h
      · split at h <;> cases h
        cases he
      · exact inner.stepped_literal _ _ _ h he

/-- The loop over operators gives back its literal untouched, or no literal. -/
theorem operators_literal {floor : Nat} {left e : Expr} {ts rest : List Token}
    (h : inner.operators floor left ts = .ok (e, rest)) (he : e.isStringLiteral = true) :
    e = left ∧ rest = ts := by
  fun_induction inner.operators floor left ts with
  | case1 => cases h; exact ⟨rfl, rfl⟩
  | case2 => cases h; exact ⟨rfl, rfl⟩
  | case3 => cases h; exact ⟨rfl, rfl⟩
  | case4 => cases h
  | case5 left t after op hop hf right rest' hr ih =>
    obtain ⟨rfl, -⟩ := ih h
    cases he

theorem binaryBody_literal (floor : Nat) (ts : List Token) :
    KeepsLiterals ts (inner.binaryBody floor ts) := by
  intro e rest h he
  unfold binaryBody at h
  split at h
  · cases h
  · rename_i f mid hu
    obtain ⟨rfl, rfl⟩ := inner.operators_literal h he
    exact inner.unaryBody_literal ts _ _ hu he

variable {inner}

theorem conditional_literal {ts : List Token} (hb : KeepsLiterals ts ((inner.binary 0).run ts)) :
    KeepsLiterals ts (inner.conditional ts) := by
  intro e rest h he
  unfold conditional at h
  split at h
  · cases h
  · rename_i ht
    split at h
    · cases h
      exact hb _ _ ht he
    · split at h
      · cases h
      · split at h
        · cases h
        · split at h <;> cases h
          cases he

theorem assigned_literal {ts : List Token} (hb : KeepsLiterals ts ((inner.binary 0).run ts)) :
    KeepsLiterals ts (inner.assigned ts) := by
  intro e rest h he
  unfold assigned at h
  split at h
  · cases h
  · rename_i hc
    cases h
    exact conditional_literal hb _ _ hc he
  · rename_i hc
    split at h
    · cases h
      exact conditional_literal hb _ _ hc he
    · split at h <;> cases h
      cases he

theorem assignmentBody_literal {ts : List Token}
    (hb : KeepsLiterals ts ((inner.binary 0).run ts)) :
    KeepsLiterals ts (inner.assignmentBody ts) := by
  intro e rest h he
  unfold assignmentBody at h
  split at h
  · exact assigned_literal hb _ _ h he
  · split at h
    · exact assigned_literal hb _ _ h he
    · split at h <;> cases h
      cases he

theorem ofDepth_literal (depth floor : Nat) (ts : List Token) :
    KeepsLiterals ts (((ofDepth depth).binary floor).run ts) ∧
      KeepsLiterals ts ((ofDepth depth).assignment.run ts) := by
  cases depth with
  | zero => exact ⟨fun _ _ h => (by cases h), fun _ _ h => (by cases h)⟩
  | succ depth =>
    refine ⟨(ofDepth depth).binaryBody_literal floor ts, assignmentBody_literal ?_⟩
    cases depth with
    | zero => exact fun _ _ h => (by cases h)
    | succ depth => exact (ofDepth depth).binaryBody_literal 0 ts

/-- An expression that is a string literal is a single token. -/
theorem expression_literal (ts : List Token) : KeepsLiterals ts (grammar.expression ts) := by
  intro e rest h he
  unfold expression at h
  split at h
  · cases h
  · rename_i first mid hf
    split at h
    · cases h
    · rename_i hs
      cases h
      -- no comma was read, so the literal is the assignment in front of it
      unfold sequenceRest at hs
      split at hs
      · cases hs
        exact (ofDepth_literal maxDepth 0 ts).2 _ _ hf he
      · split at hs
        · cases hs
        · split at hs <;> cases hs
    · cases h; cases he

/-! ## What is read from a literal -/

variable {t : Token} {e : Expr} {rest : List Token}

theorem kind_of_literal (ht : t.literal? = some e) :
    (∃ quote hasEscape, t.kind = .string quote hasEscape) ∨
      ∃ hasSubstitutions, t.kind = .template hasSubstitutions := by
  unfold Token.literal? at ht
  split at ht
  · rename_i q b hk; exact .inl ⟨q, b, hk⟩
  · rename_i b hk; exact .inr ⟨b, hk⟩
  · cases ht

theorem postfixed_of_literal (ht : t.literal? = some e) (hr : AtEnd rest) :
    inner.postfixed (t :: rest) = .ok (e, rest) := by
  have hp : inner.primary (t :: rest) = .ok (e, rest) := by
    unfold Token.literal? at ht
    unfold primary
    split at ht <;> simp_all
  have hs : inner.suffixes e rest = .ok (e, rest) := by
    cases rest with
    | nil => unfold suffixes; rfl
    | cons s rest =>
      have hk : s.kind = .punct .semicolon := hr
      have hn : inner.suffix? e s rest = none := by simp [suffix?, hk]
      unfold suffixes
      split
      · rfl
      · rename_i h; rw [hn] at h; cases h
      · rename_i h; rw [hn] at h; cases h
  rw [postfixed, hp]
  exact hs

theorem binaryBody_of_literal (ht : t.literal? = some e) (hr : AtEnd rest) (floor : Nat) :
    inner.binaryBody floor (t :: rest) = .ok (e, rest) := by
  have hu : UnaryOp.ofToken? t = none ∧ UpdateOp.ofToken? t = none := by
    rcases kind_of_literal ht with ⟨q, b, hk⟩ | ⟨b, hk⟩ <;>
      simp [UnaryOp.ofToken?, UpdateOp.ofToken?, hk]
  have hs : inner.stepped (t :: rest) = .ok (e, rest) := by
    rw [stepped, postfixed_of_literal ht hr]
    cases rest with
    | nil => rfl
    | cons s rest =>
      have hk : s.kind = .punct .semicolon := hr
      simp [UpdateOp.ofToken?, hk]
  have ho : inner.operators floor e rest = .ok (e, rest) := by
    cases rest with
    | nil => unfold operators; rfl
    | cons s rest =>
      have hk : s.kind = .punct .semicolon := hr
      unfold operators
      simp [BinaryOp.ofToken?, BinaryOp.ofPunct?, hk]
  simp only [binaryBody, unaryBody, hu.1, hu.2, hs]
  exact ho

theorem assignmentBody_of_literal (ht : t.literal? = some e) (hr : AtEnd rest)
    (hb : (inner.binary 0).run (t :: rest) = .ok (e, rest)) :
    inner.assignmentBody (t :: rest) = .ok (e, rest) := by
  have hc : inner.conditional (t :: rest) = .ok (e, rest) := by
    rw [conditional, hb]
    cases rest with
    | nil => rfl
    | cons s rest =>
      have hk : s.kind = .punct .semicolon := hr
      simp [consume?, Token.isPunct, hk]
  have ha : inner.assigned (t :: rest) = .ok (e, rest) := by
    rw [assigned, hc]
    cases rest with
    | nil => rfl
    | cons s rest =>
      have hk : s.kind = .punct .semicolon := hr
      simp [AssignOp.ofToken?, hk]
  -- a literal begins no arrow function: it is neither a word nor a parenthesis
  have hp : parameters? (skipAsync (t :: rest)) = none := by
    have hk : t.kind ≠ .ident ∧ t.isPunct .openParen = false := by
      rcases kind_of_literal ht with ⟨q, b, hk⟩ | ⟨b, hk⟩ <;> simp [Token.isPunct, hk]
    have hskip : skipAsync (t :: rest) = t :: rest := by
      cases rest with
      | nil => rfl
      | cons s rest => simp [skipAsync, Token.isWord, hk.1]
    rw [hskip]
    simp [parameters?, hk.1, hk.2]
  simp only [assignmentBody, hp]
  exact ha

/-- A literal where an expression has to end is an expression. -/
theorem expression_of_literal (ht : t.literal? = some e) (hr : AtEnd rest) :
    grammar.expression (t :: rest) = .ok (e, rest) := by
  have ha : grammar.assignment.run (t :: rest) = .ok (e, rest) :=
    assignmentBody_of_literal ht hr (binaryBody_of_literal ht hr 0)
  have hs : grammar.sequenceRest rest = .ok ([], rest) := by
    have hn : consume? .comma rest = none := by
      cases rest with
      | nil => rfl
      | cons s rest =>
        have hk : s.kind = .punct .semicolon := hr
        simp [consume?, Token.isPunct, hk]
    unfold sequenceRest
    split
    · rfl
    · rename_i h; rw [hn] at h; cases h
  rw [expression, ha]
  simp only [hs]

end Inner

/-! ## Statements -/

open Parse

theorem isPunct_iff {p : Punct} {t : Token} : t.isPunct p = true ↔ t.kind = .punct p := by
  simp [Token.isPunct]

/-- Tokens make at least one statement. -/
theorem statements_ne_nil {t : Token} {ts : List Token} {ss : List Statement}
    (h : statements (t :: ts) = .ok ss) : ss ≠ [] := by
  have hmap : ∀ (s : Statement) (r : Except ParseError (List Statement)),
      r.map (s :: ·) = .ok ss → ss ≠ [] := by
    intro s r hr
    cases r with
    | error e => cases hr
    | ok l => cases hr; simp
  rw [statements] at h
  split at h
  · exact hmap _ _ h
  · split at h
    · cases h
    · cases h; simp
    · split at h
      · exact hmap _ _ h
      · split at h
        · exact hmap _ _ h
        · cases h

theorem statements_eq_nil {ts : List Token} (h : statements ts = .ok []) : ts = [] := by
  cases ts with
  | nil => rfl
  | cons t ts => exact absurd rfl (statements_ne_nil h)

theorem map_cons_eq_singleton {r : Except ParseError (List Statement)} {s s' : Statement}
    (h : r.map (s :: ·) = .ok [s']) : s = s' ∧ r = .ok [] := by
  cases r with
  | error e => cases h
  | ok l =>
    simp only [Except.map, Except.ok.injEq, List.cons.injEq] at h
    exact ⟨h.1, by rw [h.2]⟩

/-- **One statement that is a string literal** is the literal alone, or with one semicolon behind
it. -/
theorem statements_eq_literal_iff {ts : List Token} {s : ExpressionStatement}
    (hs : s.expr.isStringLiteral = true) :
    statements ts = .ok [.expression s] ↔
      ∃ t, t.literal? = some s.expr ∧
        ((ts = [t] ∧ s = .of t s.expr s.expr.span.stop) ∨
          ∃ semicolon, semicolon.kind = .punct .semicolon ∧ ts = [t, semicolon] ∧
            s = .of t s.expr semicolon.span.stop) := by
  constructor
  · intro h
    cases ts with
    | nil => rw [statements] at h; cases h
    | cons first others =>
      rw [statements] at h
      split at h
      · cases (map_cons_eq_singleton h).1
      · split at h
        · cases h
        · rename_i e he
          cases h
          obtain ⟨t, ht, hl⟩ := Inner.expression_literal _ _ _ he hs
          cases ht
          exact ⟨_, hl, .inl ⟨rfl, rfl⟩⟩
        · rename_i e u rest he
          split at h
          · rename_i hu
            obtain ⟨h1, h2⟩ := map_cons_eq_singleton h
            cases h1
            obtain ⟨t, ht, hl⟩ := Inner.expression_literal _ _ _ he hs
            cases ht
            have hr := statements_eq_nil h2
            subst hr
            exact ⟨_, hl, .inr ⟨u, isPunct_iff.1 hu, rfl, rfl⟩⟩
          · split at h
            · obtain ⟨-, h2⟩ := map_cons_eq_singleton h
              exact absurd rfl (statements_ne_nil h2)
            · cases h
  · rintro ⟨t, ht, ⟨rfl, h⟩ | ⟨semicolon, hk, rfl, h⟩⟩
    · have hn : t.isPunct .semicolon = false := by
        rcases Inner.kind_of_literal ht with ⟨q, b, hk⟩ | ⟨b, hk⟩ <;> simp [Token.isPunct, hk]
      have he : grammar.expression [t] = .ok (s.expr, []) :=
        Inner.expression_of_literal ht trivial
      rw [statements, hn]
      simp only [Bool.false_eq_true, if_false]
      rw [he]
      exact congrArg (fun s => Except.ok [Statement.expression s]) h.symm
    · have hn : t.isPunct .semicolon = false := by
        rcases Inner.kind_of_literal ht with ⟨q, b, hk⟩ | ⟨b, hk⟩ <;> simp [Token.isPunct, hk]
      rw [statements, hn]
      have he : grammar.expression [t, semicolon] = .ok (s.expr, [semicolon]) :=
        Inner.expression_of_literal ht hk
      simp only [Bool.false_eq_true, if_false]
      rw [he]
      simp only [isPunct_iff.2 hk, if_true]
      rw [statements, h]
      rfl

end BindingToggle
