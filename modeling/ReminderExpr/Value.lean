/-
ReminderExpr.Value — what expressions compute with.

A `Value` is an integer, a string, a date (days since 1990-01-01), a time of
day (minutes past midnight) or a moment (minutes since 1990-01-01 0:00).
`Value.InRange` bounds the payloads: integers and moments have 64 bits, dates
and times 32. Every operation on values keeps within these bounds or fails.

`ValueKind` names the five kinds; `asInt` and its siblings give a payload to
an operation that wants one kind only.
-/
import ReminderExpr.EvalError
import ReminderExpr.Calendar
import ReminderExpr.Name

namespace ReminderExpr

/-- Whether an integer has 64 bits. -/
def fits64 (n : Int) : Bool := 
  decide (-0x8000000000000000 ≤ n) && decide (n < 0x8000000000000000)

/-- Whether an integer has 32 bits. -/
def fits32 (n : Int) : Bool := decide (-0x80000000 ≤ n) && decide (n < 0x80000000)

theorem fits64_iff {n : Int} :
    fits64 n = true ↔ -0x8000000000000000 ≤ n ∧ n < 0x8000000000000000 := by
  rw [fits64, Bool.and_eq_true, decide_eq_true_eq, decide_eq_true_eq]

theorem fits32_iff {n : Int} : fits32 n = true ↔ -0x80000000 ≤ n ∧ n < 0x80000000 := by
  rw [fits32, Bool.and_eq_true, decide_eq_true_eq, decide_eq_true_eq]

/-- What expressions compute with. -/
inductive Value
  /-- An integer; truth values are 1 and 0. -/
  | int (n : Int)
  | str (s : String)
  /-- Days since 1990-01-01. -/
  | date (day : Int)
  /-- Minutes past midnight. -/
  | time (minute : Int)
  /-- Minutes since 1990-01-01 0:00. -/
  | dateTime (minute : Int)
  deriving DecidableEq, Repr, Inhabited

/-- The kinds of values. -/
inductive ValueKind
  | int | str | date | time | dateTime
  deriving DecidableEq, Repr

namespace ValueKind

/-- The name of a kind, in capitals. -/
def name : ValueKind → String
  | .int => "INT"
  | .str => "STRING"
  | .date => "DATE"
  | .time => "TIME"
  | .dateTime => "DATETIME"

/-- All kinds. -/
def all : List ValueKind := [.int, .str, .date, .time, .dateTime]

/-- The kind of a name, in capitals or not. -/
def ofName? (name : String) : Option ValueKind :=
  all.find? fun kind => Name.equalIgnoreCase kind.name name

end ValueKind

namespace Value

/-- Whether the payload of a value has as many bits as its kind allows. -/
def InRange : Value → Prop
  | .int n | .dateTime n => fits64 n = true
  | .date n | .time n => fits32 n = true
  | .str _ => True

def kind : Value → ValueKind
  | .int _ => .int
  | .str _ => .str
  | .date _ => .date
  | .time _ => .time
  | .dateTime _ => .dateTime

/-- The integer that stands for a truth value. -/
def ofBool (b : Bool) : Value := .int (if b then 1 else 0)

/-- The time of day that is `minutes` from midnight, days apart. -/
def timeOfDay (minutes : Int) : Value := .time (minutes % Calendar.minutesPerDay)

/-- The moment at a minute of a day. -/
def momentOf (day minute : Int) : Value := .dateTime (day * Calendar.minutesPerDay + minute)

/-- The number inside any value but a string. -/
def number? : Value → Option Int
  | .int n | .date n | .time n | .dateTime n => some n
  | .str _ => none

def asInt : Value → Result Int
  | .int n => .ok n
  | _ => .error .badType

def asString : Value → Result String
  | .str s => .ok s
  | _ => .error .badType

def asDate : Value → Result Int
  | .date day => .ok day
  | _ => .error .badType

def asTime : Value → Result Int
  | .time minute => .ok minute
  | _ => .error .badType

/-- The order of two values of one kind: strings by code points, all others
by their numbers. -/
def order : Value → Value → Ordering
  | .str a, .str b => compare a b
  | a, b => compare a.number? b.number?

/-- A wrapped time of day lies within the day. -/
theorem timeOfDay_eq (minutes : Int) :
    ∃ m, timeOfDay minutes = .time m ∧ 0 ≤ m ∧ m < 1440 :=
  ⟨_, rfl, Int.emod_nonneg _ (by decide), Int.emod_lt_of_pos _ (by decide)⟩

end Value

end ReminderExpr
