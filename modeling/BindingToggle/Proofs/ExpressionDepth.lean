import BindingToggle.Proofs.Chains
import BindingToggle.Proofs.Concatenation

/-!
# How deep expressions nest

The parsers count how far they have gone in, and give up when that is too far. What they count is
the height of the tree, but not along all of its edges. Operators and suffixes are put behind what
has been read already, so what stands to the left of them is no deeper than the whole.

* `Expr.nest` — the height of an expression, without the edges along which the parsers do not go in.
* `Level.allowance` — how much of it a level of the grammar allows. `Derives.nest_le` shows the
  bound by induction on the grammar.
* `Expr.everywhere_nest_le` — no node is deeper than the whole expression.
* `parseProgram_nest_lt` — so all expressions of a program nest less than `maxDepth` levels, while
  chains of any length are read: the limit is on nesting and on nothing else.
-/

namespace BindingToggle

/-! ## The height of a tree -/

namespace Expr

mutual

/-- How deep expressions nest in the expression. What stands on the left is no deeper than the
whole: the left operand of an operator, what a suffix stands behind, the test of a condition and the
target of an assignment. Nor are the members of a sequence, and what is spread. -/
def nest : Expr → Nat
  | string .. | number .. | template .. | identifier _ | keyword _ | arrow .. => 0
  | member e .. | taggedTemplate e _ | update _ .after e _ | spread e _ => e.nest
  | unary _ e _ | update _ .before e _ | paren e _ => e.nest + 1
  | index e f .. | binary _ e f _ | assign _ e f _ => max e.nest (f.nest + 1)
  | conditional e f g _ => max e.nest (max f.nest g.nest + 1)
  | call e es .. => max e.nest (nestAll 1 es)
  | new e es _ => max (e.nest + 1) (nestAll 1 es)
  | sequence es _ => nestAll 0 es
  | array es _ | object es _ => nestAll 1 es

/-- How deep the deepest of the expressions is, when each is `cost` further in. -/
def nestAll (cost : Nat) : List Expr → Nat
  | [] => 0
  | e :: es => max (e.nest + cost) (nestAll cost es)

end

theorem nestAll_le {cost n : Nat} {es : List Expr} :
    nestAll cost es ≤ n ↔ ∀ e ∈ es, e.nest + cost ≤ n := by
  induction es with
  | nil => simp [nestAll]
  | cons e es ih => rw [nestAll, Nat.max_le, ih, List.forall_mem_cons]

theorem nest_le_nestAll {cost : Nat} {es : List Expr} {e : Expr} (he : e ∈ es) :
    e.nest ≤ nestAll cost es :=
  (Nat.le_add_right _ _).trans (nestAll_le.1 le_rfl e he)

/-- What stands directly in an expression is no deeper than the whole. -/
theorem nest_le_of_mem_parts {e part : Expr} (h : part ∈ e.parts) : part.nest ≤ e.nest := by
  cases e with
  | sequence es | array es | object es => exact nest_le_nestAll h
  | call f es | new f es =>
    rcases List.mem_cons.1 h with rfl | h
    · simp only [nest]
      omega
    · exact (nest_le_nestAll h).trans (le_max_right _ _)
  | update op side f =>
    obtain rfl := List.mem_singleton.1 h
    cases side <;> simp [nest]
  | conditional =>
    simp only [parts, List.mem_cons, List.not_mem_nil, or_false] at h
    rcases h with rfl | rfl | rfl <;> simp only [nest] <;> omega
  | index | binary | assign =>
    simp only [parts, List.mem_cons, List.not_mem_nil, or_false] at h
    rcases h with rfl | rfl <;> simp only [nest] <;> omega
  | member | taggedTemplate | unary | spread | paren =>
    obtain rfl := List.mem_singleton.1 h
    simp [nest]
  | string | number | template | identifier | keyword | arrow => cases h

/-- No node is deeper than the whole expression. -/
theorem everywhere_nest_le (e : Expr) : e.Everywhere (·.nest ≤ e.nest) := by
  intro node hnode
  induction hnode with
  | whole => exact le_rfl
  | inside hp _ ih => exact ih.trans (nest_le_of_mem_parts hp)

end Expr

/-! ## What the grammar allows -/

/-- How deep expressions may nest at a level of the grammar, with `depth` levels to go in. An
operand needs none of them to hold shorthand properties, and a list of expressions needs one of them
for its members. -/
def Level.allowance (depth : Nat) : Level → Nat
  | operand | operators _ => depth + 1
  | conditional | assignment => depth
  | sequence | element => depth - 1

/-- **The grammar bounds the height of expressions.** -/
theorem Derives.nest_le {depth : Nat} {level : Level} {e : Expr} (h : Derives depth level e) :
    e.nest ≤ level.allowance depth := by
  induction h with
  | string | number | template | identifier | keyword | arrow | shorthand => exact Nat.zero_le _
  | member _ ih | taggedTemplate _ ih | stepAfter _ ih | operand _ ih | unassigned _ ih => exact ih
  | operators _ ih | single _ ih | element _ ih | spread _ ih => exact ih
  | stepBefore _ ih | unary _ ih => exact Nat.succ_le_succ ih
  | paren _ ih =>
    simp only [Level.allowance, Expr.nest] at ih ⊢
    omega
  | index _ _ ihe ihf | binary _ _ _ _ ihe ihf | assign _ _ ihe ihf =>
    simp only [Level.allowance, Expr.nest] at ihe ihf ⊢
    omega
  | conditional _ _ _ ihe ihf ihg =>
    simp only [Level.allowance, Expr.nest] at ihe ihf ihg ⊢
    omega
  | sequence _ ih => exact Expr.nestAll_le.2 ih
  | array _ ih | object _ ih =>
    refine Expr.nestAll_le.2 fun e he => ?_
    have hmember := ih e he
    simp only [Level.allowance] at hmember ⊢
    omega
  | call _ _ ihe ihes =>
    refine max_le ihe (Expr.nestAll_le.2 fun e he => ?_)
    have hmember := ihes e he
    simp only [Level.allowance] at hmember ⊢
    omega
  | new _ _ ihe ihes =>
    refine max_le (Nat.succ_le_succ ihe) (Expr.nestAll_le.2 fun e he => ?_)
    have hmember := ihes e he
    simp only [Level.allowance] at hmember ⊢
    omega

/-! ## Programs -/

/-- The expressions of a program are as deep as the grammar allows. -/
theorem nest_lt_of_parseProgram {source : Text} {ss : List Statement}
    (h : parseProgram source = .ok ss) {s : ExpressionStatement} (hs : .expression s ∈ ss) :
    s.expr.Everywhere (·.nest < maxDepth) := by
  obtain ⟨stream, -, hstatements⟩ := exists_tokens_of_parseProgram h
  have hwhole : s.expr.nest ≤ maxDepth - 1 := (statements_derived hstatements hs).nest_le
  intro node hnode
  have hnode' := s.expr.everywhere_nest_le node hnode
  have hlimit : 0 < maxDepth := by decide
  omega

/-- **The limit is on nesting and on nothing else.** The expressions of every program that is read
nest less than `maxDepth` levels, and chains, which do not nest, are read however long they are. -/
theorem parseProgram_nest_lt :
    (∀ source ss, parseProgram source = .ok ss → ∀ s, .expression s ∈ ss →
      s.expr.Everywhere (·.nest < maxDepth)) ∧
    ∀ chain : Chain, chain.Fits → ∀ n, 1 ≤ n → ∃ ss, parseProgram (chain.text n) = .ok ss :=
  ⟨fun _ _ h _ hs => nest_lt_of_parseProgram h hs, fun _ hfits _ hn => parseProgram_chain hfits hn⟩

/-- A call, an array and a sign inside of each other, and a chain that is longer than the limit. -/
theorem parseProgram_nest_lt_call :
    (∃ ss s, parseProgram "f(a, [-b])".toList = .ok ss ∧ .expression s ∈ ss ∧ s.expr.nest = 3 ∧
      s.expr.Everywhere (·.nest < maxDepth)) ∧
    ∃ ss, parseProgram ((Chain.joined (.operator .isIn [' '])).text 200) = .ok ss := by
  obtain ⟨hnest, hchain⟩ := parseProgram_nest_lt
  have hblank : [' '].all Lexer.isSpace = true := by decide
  have hfits : (Chain.joined (.operator .isIn [' '])).Fits :=
    ⟨by decide, List.all_eq_true.1 hblank, by decide⟩
  refine ⟨?_, hchain _ hfits 200 (by decide)⟩
  have hread : (parseProgram "f(a, [-b])".toList).toOption.map (·.map fun st =>
      st.expr?.map Expr.nest) = some [some 3] := by
    decide +kernel
  cases hparse : parseProgram "f(a, [-b])".toList with
  | error e =>
    rw [hparse] at hread
    cases hread
  | ok ss =>
    rw [hparse] at hread
    obtain ⟨st, rfl, hst⟩ := List.map_eq_singleton_iff.1 (Option.some.inj hread)
    cases st with
    | empty => cases hst
    | expression s =>
      have hmem := List.mem_singleton_self (Statement.expression s)
      exact ⟨_, s, rfl, hmem, Option.some.inj hst, hnest _ _ hparse s hmem⟩

end BindingToggle
