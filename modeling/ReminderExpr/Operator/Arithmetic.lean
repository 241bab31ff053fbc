/-
ReminderExpr.Operator.Arithmetic — what operators do to values.

* Integers are computed exactly; a result outside 64 bits is an
  `integerOverflow`. Division truncates, and a remainder has the sign of the
  dividend.
* A date, time or moment and an integer add up to a shifted one. Dates and
  moments never move before day 0; times wrap around midnight.
* Two dates, times or moments subtract to an integer.
* `+` with a string on either side joins the texts of both sides.
* `==` and `!=` compare any two values, the other comparisons two of one kind.
-/
import ReminderExpr.Operator
import ReminderExpr.Value.Written

namespace ReminderExpr

/-- What arithmetic takes from its surroundings. -/
structure ArithmeticSettings where
  separators : Separators := {}
  /-- The longest string, in bytes, that `+` may build; `none` sets no limit. -/
  maxStringLength : Option Nat := none
  deriving DecidableEq, Repr

/-- An integer of 64 bits, or the failure of the operation that left them. -/
def checked (operation : IntOperation) (n : Int) : Result Value :=
  if fits64 n then .ok (.int n) else .error (.integerOverflow operation)

/-- A date shifted by days. -/
def shiftDate (day days : Int) : Result Value :=
  let shifted := day + days
  if 0 ≤ shifted ∧ fits32 shifted then .ok (.date shifted) else .error .dateOverflow

/-- A moment shifted by minutes. -/
def shiftMoment (moment minutes : Int) : Result Value :=
  let shifted := moment + minutes
  if 0 ≤ shifted ∧ fits64 shifted then .ok (.dateTime shifted) else .error .dateOverflow

/-- An integer with the opposite sign, as the amount of a shift; the least
integer of 64 bits has none. -/
def oppositeShift (n : Int) : Result Int :=
  if fits64 (-n) then .ok (-n) else .error .dateOverflow

/-- The text of a value after the text of another, if it is not too long. -/
def join (settings : ArithmeticSettings) (left right : Value) : Result Value :=
  let head := left.written settings.separators
  let tail := right.written settings.separators
  let tooLong := match settings.maxStringLength with
    | none => false
    | some limit => decide (limit < head.utf8ByteSize + tail.utf8ByteSize)
  if tooLong then .error .stringTooLong else .ok (.str (head ++ tail))

/-- The sum of two values. -/
def addValues (settings : ArithmeticSettings) : Value → Value → Result Value
  | .int a, .int b => checked .addition (a + b)
  | .date d, .int n | .int n, .date d => shiftDate d n
  | .dateTime t, .int n | .int n, .dateTime t => shiftMoment t n
  | .time t, .int n | .int n, .time t => .ok (.timeOfDay (t + n))
  | .str s, right => join settings (.str s) right
  | left, .str s => join settings left (.str s)
  | _, _ => .error .badType

/-- The difference of two values. -/
def subValues : Value → Value → Result Value
  | .int a, .int b => checked .subtraction (a - b)
  | .date d, .int n => do shiftDate d (← oppositeShift n)
  | .dateTime t, .int n => do shiftMoment t (← oppositeShift n)
  | .time t, .int n => .ok (.timeOfDay (t - n))
  | .date a, .date b | .time a, .time b => .ok (.int (a - b))
  | .dateTime a, .dateTime b => checked .subtraction (a - b)
  | _, _ => .error .badType

/-- Whether an order satisfies a comparison; other operators compare nothing. -/
def BinaryOp.accepts : BinaryOp → Ordering → Bool
  | .eq, o => o == .eq
  | .notEq, o => o != .eq
  | .lt, o => o == .lt
  | .ltEq, o => o != .gt
  | .gt, o => o == .gt
  | .gtEq, o => o != .lt
  | _, _ => false

/-- The truth of a comparison. Values of two kinds are unequal and have no
order. -/
def compareValues (op : BinaryOp) (left right : Value) : Result Value :=
  if left.kind = right.kind then .ok (.ofBool (op.accepts (left.order right)))
  else match op with
    | .eq => .ok (.ofBool false)
    | .notEq => .ok (.ofBool true)
    | _ => .error .badType

/-- An operation that only integers have. -/
def onInts (left right : Value) (operation : Int → Int → Result Value) : Result Value :=
  match left, right with
  | .int a, .int b => operation a b
  | _, _ => .error .badType

/-- A binary operator applied to its operands. -/
def BinaryOp.apply (settings : ArithmeticSettings) (op : BinaryOp) (left right : Value) :
    Result Value :=
  match op with
  | .add => addValues settings left right
  | .sub => subValues left right
  | .mul => onInts left right fun a b => checked .multiplication (a * b)
  | .div => onInts left right fun a b =>
      if b = 0 then .error .divisionByZero else checked .division (a.tdiv b)
  | .mod => onInts left right fun a b =>
      if b = 0 then .error .divisionByZero
      else if fits64 (a.tdiv b) then .ok (.int (a.tmod b))
      else .error (.integerOverflow .remainder)
  | .and => onInts left right fun a b => .ok (.ofBool (a != 0 && b != 0))
  | .or => onInts left right fun a b => .ok (.ofBool (a != 0 || b != 0))
  | .eq | .notEq | .lt | .ltEq | .gt | .gtEq => compareValues op left right

/-- A unary operator applied to its operand. -/
def UnaryOp.apply (op : UnaryOp) : Value → Result Value
  | .int n => match op with
      | .not => .ok (.ofBool (n == 0))
      | .neg => checked .negation (-n)
  | _ => .error .badType

end ReminderExpr
