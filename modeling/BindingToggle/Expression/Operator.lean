import BindingToggle.Expression.Token

/-!
# Operators

The operators of the expression language, with their spelling, and with the precedence of those
that stand between two operands. A higher precedence binds tighter. Only `**` groups to the right.

Models the operators that the parser knows; `BinaryOp.precedence` is `binary_precedence`.
-/

namespace BindingToggle

/-- Operators between two operands. -/
inductive BinaryOp where
  | nullish | or | and | bitOr | bitXor | bitAnd
  | eq | ne | strictEq | strictNe
  | lt | gt | le | ge | instanceOf | isIn
  | shl | shr | ushr
  | add | sub | mul | div | rem | pow
  deriving DecidableEq, Repr, Inhabited

namespace BinaryOp

def symbol : BinaryOp → String
  | nullish => "??"
  | or => "||"
  | and => "&&"
  | bitOr => "|"
  | bitXor => "^"
  | bitAnd => "&"
  | eq => "=="
  | ne => "!="
  | strictEq => "==="
  | strictNe => "!=="
  | lt => "<"
  | gt => ">"
  | le => "<="
  | ge => ">="
  | instanceOf => "instanceof"
  | isIn => "in"
  | shl => "<<"
  | shr => ">>"
  | ushr => ">>>"
  | add => "+"
  | sub => "-"
  | mul => "*"
  | div => "/"
  | rem => "%"
  | pow => "**"

/-- How tightly an operator binds, from 1 up to 12. -/
def precedence : BinaryOp → Nat
  | nullish => 1
  | or => 2
  | and => 3
  | bitOr => 4
  | bitXor => 5
  | bitAnd => 6
  | eq | ne | strictEq | strictNe => 7
  | lt | gt | le | ge | instanceOf | isIn => 8
  | shl | shr | ushr => 9
  | add | sub => 10
  | mul | div | rem => 11
  | pow => 12

/-- The precedence above which an operator's right operand goes on: its own, and one less for the
operator that groups to the right. -/
def rightFloor : BinaryOp → Nat
  | pow => 11
  | op => op.precedence

def ofPunct? : Punct → Option BinaryOp
  | .nullish => some nullish
  | .or => some or
  | .and => some and
  | .bitOr => some bitOr
  | .bitXor => some bitXor
  | .bitAnd => some bitAnd
  | .eq => some eq
  | .ne => some ne
  | .strictEq => some strictEq
  | .strictNe => some strictNe
  | .lt => some lt
  | .gt => some gt
  | .le => some le
  | .ge => some ge
  | .shl => some shl
  | .shr => some shr
  | .ushr => some ushr
  | .plus => some add
  | .minus => some sub
  | .star => some mul
  | .slash => some div
  | .percent => some rem
  | .pow => some pow
  | _ => none

/-- The operator that a token stands for between two operands. -/
def ofToken? (t : Token) : Option BinaryOp :=
  match t.kind with
  | .punct p => ofPunct? p
  | .ident =>
    if t.text = "instanceof".toList then some instanceOf
    else if t.text = "in".toList then some isIn
    else none
  | _ => none

theorem precedence_pos (op : BinaryOp) : 0 < op.precedence := by
  cases op <;> decide

end BinaryOp

/-- Assignment operators: plain, or compound with the operator that is applied first. -/
inductive AssignOp where
  | plain
  | compound (op : BinaryOp)
  deriving DecidableEq, Repr, Inhabited

namespace AssignOp

def symbol : AssignOp → String
  | plain => "="
  | compound op => op.symbol ++ "="

/-- The assignment operator that a token stands for. -/
def ofToken? (t : Token) : Option AssignOp :=
  match t.kind with
  | .punct .assign => some plain
  | .punct .addAssign => some (compound .add)
  | .punct .subAssign => some (compound .sub)
  | .punct .mulAssign => some (compound .mul)
  | .punct .divAssign => some (compound .div)
  | .punct .remAssign => some (compound .rem)
  | .punct .powAssign => some (compound .pow)
  | .punct .shlAssign => some (compound .shl)
  | .punct .shrAssign => some (compound .shr)
  | .punct .ushrAssign => some (compound .ushr)
  | .punct .bitAndAssign => some (compound .bitAnd)
  | .punct .bitOrAssign => some (compound .bitOr)
  | .punct .bitXorAssign => some (compound .bitXor)
  | .punct .andAssign => some (compound .and)
  | .punct .orAssign => some (compound .or)
  | .punct .nullishAssign => some (compound .nullish)
  | _ => none

end AssignOp

/-- Operators in front of one operand. -/
inductive UnaryOp where
  | not | complement | plus | minus | typeOf | void | delete | await
  deriving DecidableEq, Repr, Inhabited

namespace UnaryOp

def symbol : UnaryOp → String
  | not => "!"
  | complement => "~"
  | plus => "+"
  | minus => "-"
  | typeOf => "typeof"
  | void => "void"
  | delete => "delete"
  | await => "await"

/-- The operator that a token stands for in front of an operand. -/
def ofToken? (t : Token) : Option UnaryOp :=
  match t.kind with
  | .punct .not => some not
  | .punct .complement => some complement
  | .punct .plus => some plus
  | .punct .minus => some minus
  | .ident =>
    if t.text = "typeof".toList then some typeOf
    else if t.text = "void".toList then some void
    else if t.text = "delete".toList then some delete
    else if t.text = "await".toList then some await
    else none
  | _ => none

end UnaryOp

/-- Operators that step a variable. -/
inductive UpdateOp where
  | increment | decrement
  deriving DecidableEq, Repr, Inhabited

namespace UpdateOp

def symbol : UpdateOp → String
  | increment => "++"
  | decrement => "--"

/-- The stepping operator that a token stands for. -/
def ofToken? (t : Token) : Option UpdateOp :=
  match t.kind with
  | .punct .increment => some increment
  | .punct .decrement => some decrement
  | _ => none

end UpdateOp

end BindingToggle
