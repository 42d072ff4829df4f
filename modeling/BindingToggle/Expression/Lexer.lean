import BindingToggle.Expression.Error
import BindingToggle.Expression.Token
import BindingToggle.Text.Blank
import BindingToggle.Text.Letter

/-!
# Reading tokens

Each scanner below takes the text that it stands in front of and gives back the lexeme it reads and
the text behind it. Offsets enter only where an error reports one.

* `gap` reads trivia: blanks, byte order marks, line comments and block comments.
* `number` reads a numeric literal, `literal` the rest of a string or template literal.
* `word` reads one token, and `lex` reads a whole source.

The lemmas `append_of_*` say that a lexeme and the text behind it are the text that was read, and
`length_rest_of_word` that a token is never empty; the latter is why `lexFrom` ends.

Models `lex`: `gap` is `skip_trivia`, `number` is `lex_number`, `literal` is `lex_string` and
`lex_template` with `skip_substitution`, and `hasEscape` is the flag that `lex_string` raises.
-/

namespace BindingToggle

namespace Lexer

/-- The lexeme that a scanner has read, and the text behind it. -/
abbrev Scan := Except ParseError (Text × Text)

/-- Puts characters in front of the lexeme. -/
def Scan.prepend (read : Text) : Scan → Scan
  | .error e => .error e
  | .ok (lexeme, rest) => .ok (read ++ lexeme, rest)

theorem Scan.prepend_eq_ok_iff {read : Text} {scan : Scan} {lexeme rest : Text} :
    Scan.prepend read scan = .ok (lexeme, rest) ↔
      ∃ tail, scan = .ok (tail, rest) ∧ lexeme = read ++ tail := by
  rcases scan with e | ⟨l, r⟩
  · simp [prepend]
  · simp only [prepend, Except.ok.injEq, Prod.mk.injEq]
    grind

/-! ## Trivia -/

/-- Characters that end a line. -/
def isLineTerminator (c : Char) : Bool :=
  c == '\n' || c == '\r' || c == '\u2028' || c == '\u2029'

/-- Characters that separate tokens. -/
def isSpace (c : Char) : Bool := Text.isBlank c || c == '\uFEFF'

/-- What a scanner of trivia is in the middle of. -/
inductive Trivia where
  | spaces
  | lineComment
  /-- In front of the star that opens a block comment, and where the comment begins. -/
  | blockMark (start : Nat)
  /-- A block comment, and where it begins. -/
  | blockComment (start : Nat)
  /-- In front of the slash that closes a block comment. -/
  | blockEnd
  deriving DecidableEq, Repr, Inhabited

namespace Trivia

/-- What the scanner is in the middle of behind `c`, which it reads at `offset`; `next` is the
character behind `c`. Nothing when `c` is not trivia. -/
def step (offset : Nat) (mode : Trivia) (c : Char) (next : Option Char) : Option Trivia :=
  match mode with
  | spaces =>
    if isSpace c then some spaces
    else if c == '/' && next == some '/' then some lineComment
    else if c == '/' && next == some '*' then some (blockMark offset)
    else none
  | lineComment => some (if isLineTerminator c then spaces else lineComment)
  | blockMark start => some (blockComment start)
  | blockComment start =>
    some (if c == '*' && next == some '/' then blockEnd else blockComment start)
  | blockEnd => some spaces

/-- The trivia of a source that ends here: an error inside a block comment. -/
def ending : Trivia → Scan
  | blockMark start | blockComment start => .error (.unterminatedComment start)
  | _ => .ok ([], [])

end Trivia

/-- The trivia at the beginning of the text that stands at `offset`, and the text behind it. -/
def gap (offset : Nat) (mode : Trivia) : Text → Scan
  | [] => mode.ending
  | c :: t =>
    match mode.step offset c t.head? with
    | none => .ok ([], c :: t)
    | some next => Scan.prepend [c] (gap (offset + c.utf8Size) next t)

theorem append_of_gap {offset : Nat} {mode : Trivia} {t lexeme rest : Text}
    (h : gap offset mode t = .ok (lexeme, rest)) : lexeme ++ rest = t := by
  induction t generalizing offset mode lexeme with
  | nil => cases mode <;> simp_all [gap, Trivia.ending]
  | cons c t ih =>
    simp only [gap] at h
    split at h
    · cases h; rfl
    · obtain ⟨tail, ht, rfl⟩ := Scan.prepend_eq_ok_iff.1 h
      simp [ih ht]

/-! ## Names -/

/-- Characters that a name can begin with. -/
def isNameStart (c : Char) : Bool := Text.isLetter c || c == '_' || c == '$'

/-- Characters that a name can go on with. -/
def isNamePart (c : Char) : Bool :=
  Text.isLetter c || Text.isNumeral c || c == '_' || c == '$' || c == '\u200C' || c == '\u200D'

/-! ## Numbers -/

/-- Decimal digits and the separator of digits. -/
def isDigitPart (c : Char) : Bool := c.isDigit || c == '_'

/-- Hexadecimal digits and the separator of digits. They follow every base letter. -/
def isHexPart (c : Char) : Bool :=
  c.isDigit || ('a' ≤ c && c ≤ 'f') || ('A' ≤ c && c ≤ 'F') || c == '_'

/-- The letters that name a base behind a leading zero. -/
def isBaseLetter (c : Char) : Bool :=
  c == 'x' || c == 'X' || c == 'o' || c == 'O' || c == 'b' || c == 'B'

/-- Whether a text begins with a decimal digit. -/
def startsWithDigit : Text → Bool
  | c :: _ => c.isDigit
  | [] => false

/-- A point and the digits behind it, if there is a point. -/
def fraction : Text → Text × Text
  | '.' :: t => ('.' :: t.takeWhile isDigitPart, t.dropWhile isDigitPart)
  | t => ([], t)

/-- An exponent, if there is one with a digit in it. -/
def exponent : Text → Text × Text
  | mark :: sign :: t =>
    if mark == 'e' || mark == 'E' then
      if (sign == '+' || sign == '-') && startsWithDigit t then
        (mark :: sign :: t.takeWhile isDigitPart, t.dropWhile isDigitPart)
      else if sign.isDigit then
        (mark :: sign :: t.takeWhile isDigitPart, t.dropWhile isDigitPart)
      else ([], mark :: sign :: t)
    else ([], mark :: sign :: t)
  | t => ([], t)

/-- A number without a base letter. -/
def decimal (t : Text) : Text × Text :=
  let whole := t.takeWhile isDigitPart
  let afterFraction := fraction (t.dropWhile isDigitPart)
  let afterExponent := exponent afterFraction.2
  (whole ++ afterFraction.1 ++ afterExponent.1, afterExponent.2)

/-- A number up to the mark of a big integer. -/
def magnitude : Text → Text × Text
  | '0' :: base :: t =>
    if isBaseLetter base then ('0' :: base :: t.takeWhile isHexPart, t.dropWhile isHexPart)
    else decimal ('0' :: base :: t)
  | t => decimal t

/-- A numeric literal. -/
def number (t : Text) : Text × Text :=
  match (magnitude t).2 with
  | 'n' :: rest => ((magnitude t).1 ++ ['n'], rest)
  | rest => ((magnitude t).1, rest)

theorem append_fraction (t : Text) : (fraction t).1 ++ (fraction t).2 = t := by
  unfold fraction
  split <;> simp

theorem append_exponent (t : Text) : (exponent t).1 ++ (exponent t).2 = t := by
  unfold exponent
  split
  · split
    · split
      · simp
      · split <;> simp
    · simp
  · simp

theorem append_decimal (t : Text) : (decimal t).1 ++ (decimal t).2 = t := by
  simp [decimal, List.append_assoc, append_exponent, append_fraction]

theorem append_magnitude (t : Text) : (magnitude t).1 ++ (magnitude t).2 = t := by
  unfold magnitude
  split
  · split
    · simp
    · exact append_decimal _
  · exact append_decimal _

theorem append_number (t : Text) : (number t).1 ++ (number t).2 = t := by
  have h := append_magnitude t
  unfold number
  split
  · next rest hr => rw [hr] at h; simpa using h
  · exact h

theorem decimal_ne_nil {c : Char} {t : Text} (h : c.isDigit = true ∨ c = '.') :
    (decimal (c :: t)).1 ≠ [] := by
  rcases h with h | rfl
  · simp [decimal, isDigitPart, h]
  · simp [decimal, isDigitPart, fraction]

theorem magnitude_ne_nil {c : Char} {t : Text} (h : c.isDigit = true ∨ c = '.') :
    (magnitude (c :: t)).1 ≠ [] := by
  unfold magnitude
  split
  · next base u he =>
    split
    · simp
    · rw [← he]; exact decimal_ne_nil h
  · exact decimal_ne_nil h

theorem number_ne_nil {c : Char} {t : Text} (h : c.isDigit = true ∨ c = '.') :
    (number (c :: t)).1 ≠ [] := by
  unfold number
  split
  · simp
  · exact magnitude_ne_nil h

/-! ## Strings and template literals -/

/-- What a scanner of literals is inside of. -/
inductive Frame where
  /-- A quoted string; `escaped` right behind a backslash. -/
  | quoted (start : Nat) (quote : Char) (escaped : Bool)
  /-- The text of a template literal; `escaped` right behind a backslash. -/
  | text (start : Nat) (escaped : Bool)
  /-- A substitution of a template literal, with the number of its open braces. -/
  | code (start : Nat) (braces : Nat)
  deriving DecidableEq, Repr, Inhabited

/-- The error of a source that ends inside the frame. -/
def Frame.unterminated : Frame → ParseError
  | quoted start _ _ => .unterminatedString start
  | text start _ => .unterminatedTemplate start
  | code start _ => .unterminatedTemplate start

/-- The frames after reading `c` at `offset` in the frame `top`, innermost first; `next` is the
character behind `c`. Nothing when a string runs into the end of its line. -/
def Frame.step (offset : Nat) (top : Frame) (below : List Frame) (c : Char) (next : Option Char) :
    Option (List Frame) :=
  match top with
  | quoted start quote true => some (quoted start quote false :: below)
  | quoted start quote false =>
    if c == quote then some below
    else if c == '\\' then some (quoted start quote true :: below)
    else if c == '\n' || c == '\r' then none
    else some (quoted start quote false :: below)
  | text start true => some (text start false :: below)
  | text start false =>
    if c == '`' then some below
    else if c == '\\' then some (text start true :: below)
    else if c == '$' && next == some '{' then some (code start 0 :: below)
    else some (text start false :: below)
  | code start braces =>
    if c == '{' then some (code start (braces + 1) :: below)
    else if c == '}' then
      some ((if braces ≤ 1 then text start false else code start (braces - 1)) :: below)
    else if c == '"' || c == '\'' then some (quoted offset c false :: code start braces :: below)
    else if c == '`' then some (text offset false :: code start braces :: below)
    else some (code start braces :: below)

/-- Reads up to the end of the outermost of the frames, which are given innermost first. -/
def literal (offset : Nat) : List Frame → Text → Scan
  | [], t => .ok ([], t)
  | top :: _, [] => .error top.unterminated
  | top :: below, c :: t =>
    match top.step offset below c t.head? with
    | none => .error top.unterminated
    | some frames => Scan.prepend [c] (literal (offset + c.utf8Size) frames t)
termination_by structural _ t => t

theorem append_of_literal {offset : Nat} {frames : List Frame} {t lexeme rest : Text}
    (h : literal offset frames t = .ok (lexeme, rest)) : lexeme ++ rest = t := by
  induction t generalizing offset frames lexeme with
  | nil => cases frames <;> simp_all [literal]
  | cons c t ih =>
    cases frames with
    | nil => simp_all [literal]
    | cons top below =>
      simp only [literal] at h
      split at h
      · cases h
      · obtain ⟨tail, ht, rfl⟩ := Scan.prepend_eq_ok_iff.1 h
        simp [ih ht]

/-- The flag that is raised on the way through a string: whether a backslash comes before the quote
that ends the string whose text follows. -/
def hasEscape (quote : Char) : Text → Bool
  | [] => false
  | c :: t =>
    if c == quote then false
    else if c == '\\' then true
    else hasEscape quote t

/-- Whether a substitution begins before the template literal ends whose text follows. -/
def hasSubstitution : Text → Bool
  | '\\' :: _ :: t => hasSubstitution t
  | '$' :: '{' :: _ => true
  | '`' :: _ => false
  | _ :: t => hasSubstitution t
  | [] => false

/-! ## Tokens -/

/-- One token at the beginning of a text: its kind, its characters, and the text behind it. -/
structure Word where
  kind : TokenKind
  text : Text
  rest : Text
  deriving DecidableEq, Repr, Inhabited

/-- The token that begins with `c` at `offset` and goes on in `t`. -/
def word (offset : Nat) (c : Char) (t : Text) : Except ParseError Word :=
  if isNameStart c then
    .ok ⟨.ident, c :: t.takeWhile isNamePart, t.dropWhile isNamePart⟩
  else if c.isDigit || (c == '.' && startsWithDigit t) then
    .ok ⟨.number, (number (c :: t)).1, (number (c :: t)).2⟩
  else if c == '"' || c == '\'' then
    match literal (offset + 1) [.quoted offset c false] t with
    | .error e => .error e
    | .ok (body, rest) => .ok ⟨.string c (hasEscape c body), c :: body, rest⟩
  else if c == '`' then
    match literal (offset + 1) [.text offset false] t with
    | .error e => .error e
    | .ok (body, rest) => .ok ⟨.template (hasSubstitution body), c :: body, rest⟩
  else
    match Punct.ofText? (c :: t) with
    | some p => .ok ⟨.punct p, p.symbol.toList, (c :: t).drop p.symbol.toList.length⟩
    | none => .error (.unexpectedChar c offset)

/-- A token and the text behind it are the text that was read, and the token is not empty. -/
theorem append_of_word {offset : Nat} {c : Char} {t : Text} {w : Word}
    (h : word offset c t = .ok w) : w.text ++ w.rest = c :: t ∧ w.text ≠ [] := by
  unfold word at h
  split at h
  · cases h; simp
  split at h
  · next hn =>
    cases h
    refine ⟨append_number _, number_ne_nil ?_⟩
    simp only [Bool.or_eq_true, Bool.and_eq_true, beq_iff_eq] at hn
    rcases hn with hn | hn
    · exact .inl hn
    · exact .inr hn.1
  split at h
  · split at h
    · cases h
    · next hl => cases h; simp [append_of_literal hl]
  split at h
  · split at h
    · cases h
    · next hl => cases h; simp [append_of_literal hl]
  · split at h
    · next p hp =>
      cases h
      refine ⟨?_, p.symbol_ne_nil⟩
      exact List.prefix_iff_eq_append.1
        (List.isPrefixOf_iff_prefix.1 (Punct.isPrefixOf_of_ofText? hp))
    · cases h

/-- What follows a token is shorter than the text it was read from. -/
theorem length_rest_of_word {offset : Nat} {c : Char} {t : Text} {w : Word}
    (h : word offset c t = .ok w) : w.rest.length < (c :: t).length := by
  obtain ⟨he, hn⟩ := append_of_word h
  rw [← he, List.length_append]
  have := List.length_pos_iff.2 hn
  omega

/-- The tokens of the text that stands at `offset`. -/
def lexFrom (offset : Nat) (t : Text) : Except ParseError TokenStream :=
  match _hg : gap offset .spaces t with
  | .error e => .error e
  | .ok (trivia, []) =>
    .ok ⟨[], offset, offset + Text.width trivia, trivia.any isLineTerminator⟩
  | .ok (trivia, c :: u) =>
    let start := offset + Text.width trivia
    match _hw : word start c u with
    | .error e => .error e
    | .ok w =>
      let stop := start + Text.width w.text
      let token : Token := ⟨w.kind, w.text, offset, ⟨start, stop⟩, trivia.any isLineTerminator⟩
      (lexFrom stop w.rest).map fun s => { s with tokens := token :: s.tokens }
termination_by t.length
decreasing_by
  have h1 := length_rest_of_word _hw
  have h2 := congrArg List.length (append_of_gap _hg)
  simp only [List.length_append] at h2
  omega

end Lexer

/-- The tokens of a source. -/
def lex (source : Text) : Except ParseError TokenStream := Lexer.lexFrom 0 source

end BindingToggle
