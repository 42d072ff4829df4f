import BindingToggle.Text.Basic
import BindingToggle.Span

/-!
# Line positions

An editor addresses a text by line and column: both count from zero, lines end at a line feed, and
columns count UTF-16 code units. `positionAt` and `offsetAt`, the `position_at` and `offset_at` of a
line index, convert between such positions and byte offsets. Both are total: an offset inside a
character or past the end stands for the character boundary before it, a line past the last stands
for the end of the text, and a column past the end of a line stands for the end of that line, in
front of its line break.

Lines and columns are numbers of 32 bits. A count that does not fit goes on from zero, which only a
text of `2 ^ 32` bytes or more can bring about.

Models `LineIndex`; `rangeOf` and `spanOf` are `span_to_range` and `range_to_span`.
-/

namespace BindingToggle

/-- A line and a column, both counted from zero, the column in UTF-16 code units. -/
structure Position where
  line : Nat
  character : Nat
  deriving DecidableEq, Repr, Inhabited

/-- A count in 32 bits. -/
def Position.wrap (n : Nat) : Nat := n % 0x100000000

/-- The two positions that an editor selection runs between, in either order. -/
structure Range where
  start : Position
  stop : Position
  deriving DecidableEq, Repr, Inhabited

namespace Text

open Position (wrap)

/-- The number of UTF-16 code units of a character. -/
def units16 (c : Char) : Nat := if c.toNat < 0x10000 then 1 else 2

/-- The characters that end at or before an offset. -/
def upTo (offset : Nat) : Text → Text
  | [] => []
  | c :: t => if c.utf8Size ≤ offset then c :: upTo (offset - c.utf8Size) t else []

/-- The position behind a character that stands at `p`. -/
def step (p : Position) (c : Char) : Position :=
  if c = '\n' then ⟨wrap (p.line + 1), 0⟩ else ⟨p.line, wrap (p.character + units16 c)⟩

/-- The position of a byte offset. -/
def positionAt (t : Text) (offset : Nat) : Position := (upTo offset t).foldl step ⟨0, 0⟩

/-- Whether a line ends where `t` begins: at the end of the text, at a line feed, or at the one
carriage return in front of these. -/
def atLineEnd : Text → Bool
  | [] => true
  | ['\r'] => true
  | '\r' :: '\n' :: _ => true
  | c :: _ => c == '\n'

/-- The offset of a column on the line that goes on at `offset`, behind `units` code units. -/
def columnOffset (offset units column : Nat) : Text → Nat
  | [] => offset
  | c :: t =>
    if column ≤ units ∨ atLineEnd (c :: t) then offset
    else columnOffset (offset + c.utf8Size) (wrap (units + units16 c)) column t

/-- The offset of column `column` on the line that is `line` line feeds ahead of `offset`. -/
def offsetFrom (offset line column : Nat) : Text → Nat
  | [] => offset
  | c :: t =>
    match line with
    | 0 => columnOffset offset 0 column (c :: t)
    | rest + 1 =>
      offsetFrom (offset + c.utf8Size) (if c = '\n' then rest else rest + 1) column t

/-- The byte offset of a position. -/
def offsetAt (t : Text) (p : Position) : Nat := offsetFrom 0 p.line p.character t

/-- The positions of the ends of a span. -/
def rangeOf (t : Text) (s : Span) : Range := ⟨positionAt t s.start, positionAt t s.stop⟩

/-- The span between the two ends of a range, whichever comes first. -/
def spanOf (t : Text) (r : Range) : Span :=
  let a := offsetAt t r.start
  let b := offsetAt t r.stop
  ⟨min a b, max a b⟩

end Text

end BindingToggle
