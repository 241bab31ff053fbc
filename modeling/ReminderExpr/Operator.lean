/-
ReminderExpr.Operator — the operators, their spellings and their strength.

Binary operators associate to the left; of two operators the one of higher
precedence takes its operands first. The two operators written before their
operand bind more tightly than all others. A `+` before an operand is no
operator: it is dropped where it is read.

Each table increases by spelling, so that `NameTable.find?` finds entries.
-/
import ReminderExpr.NameTable

namespace ReminderExpr

/-- The operators between two operands. -/
inductive BinaryOp
  | add | sub | mul | div | mod | eq | notEq | lt | ltEq | gt | gtEq | and | or
  deriving DecidableEq, Repr

namespace BinaryOp

def spelling : BinaryOp → String
  | add => "+"
  | sub => "-"
  | mul => "*"
  | div => "/"
  | mod => "%"
  | eq => "=="
  | notEq => "!="
  | lt => "<"
  | ltEq => "<="
  | gt => ">"
  | gtEq => ">="
  | and => "&&"
  | or => "||"

def precedence : BinaryOp → Nat
  | mul | div | mod => 20
  | add | sub => 18
  | lt | ltEq | gt | gtEq => 16
  | eq | notEq => 15
  | and => 14
  | or => 12

/-- The binary operators by spelling. -/
def table : Array BinaryOp :=
  #[notEq, mod, and, mul, add, sub, div, lt, ltEq, eq, gt, gtEq, or]

/-- The operator of a spelling. -/
def ofSpelling? (spelling : String) : Option BinaryOp :=
  NameTable.find? BinaryOp.spelling table spelling

end BinaryOp

/-- The operators before an operand. -/
inductive UnaryOp
  | not | neg
  deriving DecidableEq, Repr

namespace UnaryOp

def spelling : UnaryOp → String
  | not => "!"
  | neg => "-"

/-- Stronger than every binary operator. -/
def precedence (_ : UnaryOp) : Nat := 22

/-- The unary operators by spelling. -/
def table : Array UnaryOp := #[not, neg]

/-- The operator of a spelling. -/
def ofSpelling? (spelling : String) : Option UnaryOp :=
  NameTable.find? UnaryOp.spelling table spelling

end UnaryOp

theorem BinaryOp.precedence_pos (op : BinaryOp) : 0 < op.precedence := by
  cases op <;> decide

/-- The spellings of binary operators increase along their table. -/
theorem BinaryOp.isSorted_table :
    NameTable.isSorted BinaryOp.spelling BinaryOp.table.toList = true := by decide

/-- The spellings of unary operators increase along their table. -/
theorem UnaryOp.isSorted_table :
    NameTable.isSorted UnaryOp.spelling UnaryOp.table.toList = true := by decide

end ReminderExpr
